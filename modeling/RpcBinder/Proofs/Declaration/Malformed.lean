import RpcBinder.Declaration.Service
import RpcBinder.Proofs.Series

/-!
# Malformed parameters

Whether a parameter can be read depends on how it is written, and not on what the names in it stand
for.  So a source has its malformed parameters under every view of names, and the first of them is
why its services cannot be read.

## Main definitions

* `malformedEntry?` — an entry of a list, if it is no parameter.
* `malformedIn` — the malformed parameters of a source, in order.

## Main results

* `errorOf?_servicesOf` — **the first malformed parameter is the error of a source.**
-/

namespace RpcBinder.Declaration

/-- The entry of a list if it is no parameter: it has no colon, or no name before it, or no type
behind it. -/
def malformedEntry? (entry : List Char) : Option MalformedParameter :=
  let malformed := ⟨String.ofList entry⟩
  match splitFirst? ':' entry with
  | none => some malformed
  | some (before, after) =>
      if (parameterName before).isEmpty || (cleanType (stripDefault after)).isEmpty then
        some malformed
      else none

/-- The malformed parameters between the parentheses of a method. -/
def malformedParams (block : List Char) : List MalformedParameter :=
  ((Lexis.splitTopLevel block).filter (!·.isEmpty)).filterMap malformedEntry?

/-- The malformed parameters of the method behind a match.  If its parentheses are not closed, the
rest of the line is one. -/
def malformedAt (found : Match Part) : List MalformedParameter :=
  match Lexis.splitClosing found.stop.rest with
  | none => [⟨String.ofList (trim ('(' :: found.stop.rest.takeWhile (· != '\n')))⟩]
  | some (block, _) => malformedParams block

/-- The malformed parameters of a source, in order.  Without a service there are no methods. -/
def malformedIn (source : List Char) : List MalformedParameter :=
  if (Shape.service.findAll source).isEmpty then []
  else (Shape.method.findAll source).flatMap malformedAt

section

variable (resolver : Resolver)

theorem errorOf?_parseParam (entry : List Char) :
    errorOf? (parseParam resolver entry) = malformedEntry? entry := by
  unfold parseParam malformedEntry?
  cases splitFirst? ':' entry with
  | none => rfl
  | some parts =>
    dsimp only
    split <;> rfl

theorem errorOf?_parseParams (block : List Char) :
    errorOf? (parseParams resolver block) = (malformedParams block).head? := by
  rw [malformedParams, List.filterMap_eq_flatMap_toList]
  refine errorOf?_mapM (fun entry => ?_) _
  rw [errorOf?_parseParam, Option.head?_toList]

theorem errorOf?_methodAt (markers : Markers) (found : Match Part) :
    errorOf? (methodAt resolver markers found) = (malformedAt found).head? := by
  unfold methodAt malformedAt
  dsimp only
  cases Lexis.splitClosing found.stop.rest with
  | none => rfl
  | some parts => exact (errorOf?_bind_ok _ _).trans (errorOf?_parseParams resolver parts.1)

/-- **The first malformed parameter is the error of a source**, whatever the names in it stand
for. -/
theorem errorOf?_servicesOf (markers : Markers) (source : List Char) :
    errorOf? (servicesOf resolver markers source) = (malformedIn source).head? := by
  unfold servicesOf malformedIn
  dsimp only
  split
  · rfl
  · refine (errorOf?_bind_ok _ _).trans (errorOf?_mapM (fun found => ?_) _)
    exact (errorOf?_bind_ok _ _).trans (errorOf?_methodAt resolver markers found)

end

end RpcBinder.Declaration
