import RpcBinder.Declaration.Anchor
import RpcBinder.Declaration.Service
import RpcBinder.Proofs.Scope.TypeIndex

/-!
# Declarations and the view of names

What is read off a source depends on the scope of its file and on what the names in it stand
for, and on nothing else that an index holds.  Two resolvers that agree on this are alike, and
every reader answers the same under both.

## Main definitions

* `Resolver.Alike` — the same scope, and the same resolution of every name.

## Main results

* `Resolver.alike_of_contains` — tidy indexes with the same candidates make resolvers alike.
* `servicesOf_congr`, `anchorsOf_congr` — readers under resolvers that are alike.
-/

namespace RpcBinder

namespace Resolver

/-- Two views of names for the same scope that resolve every name alike. -/
structure Alike (first second : Resolver) : Prop where
  /-- The scopes are the same. -/
  scope : first.scope = second.scope
  /-- Every name stands for the same, by the same rule. -/
  resolve : ∀ name, first.resolve name = second.resolve name

/-- No rule looks at the order of candidates: a name in a package is asked for by its qualified
name, and the rule for a name that is unique needs that there is one candidate. -/
theorem alike_of_contains {first second : TypeIndex} (hfirst : first.IsTidy)
    (hsecond : second.IsTidy)
    (h : ∀ name fqn, first.contains name fqn = second.contains name fqn) (scope : Scope) :
    Alike ⟨scope, first⟩ ⟨scope, second⟩ := by
  refine ⟨rfl, fun name => ?_⟩
  have hcontains : first.contains name = second.contains name := funext (h name)
  have hunique : first.unique? name = second.unique? name :=
    TypeIndex.unique?_eq_of_contains hfirst hsecond h name
  simp only [Resolver.resolve, wildcard?, samePackage?, hcontains, hunique]

variable {first second : Resolver}

theorem Alike.qualify (h : first.Alike second) (text : List Char) :
    first.qualify text = second.qualify text := by
  have hname : first.qualifyName = second.qualifyName := by
    funext name
    rw [qualifyName, qualifyName, h.resolve]
  rw [Resolver.qualify, Resolver.qualify, hname]

end Resolver

namespace Declaration

variable {first second : Resolver}

theorem parseParams_congr (h : first.Alike second) (block : List Char) :
    parseParams first block = parseParams second block := by
  have hparam : parseParam first = parseParam second := by
    funext entry
    simp only [parseParam, h.qualify]
  rw [parseParams, parseParams, hparam]

theorem methodAt_congr (h : first.Alike second) (markers : Markers) (found : Match Part) :
    methodAt first markers found = methodAt second markers found := by
  have hreturn (after : List Char) : returnTypeOf first after = returnTypeOf second after := by
    rw [returnTypeOf, returnTypeOf, h.qualify]
  simp only [methodAt, parseParams_congr h, hreturn]

/-- The services of a source depend on the scope and the names' meaning. -/
theorem servicesOf_congr (h : first.Alike second) (markers : Markers) (source : List Char) :
    servicesOf first markers source = servicesOf second markers source := by
  simp only [servicesOf, methodAt_congr h, serviceAt, h.scope]

/-- The anchors of a source depend on the scope and the names' meaning. -/
theorem anchorsOf_congr (h : first.Alike second) (side : Side) (source : List Char) :
    anchorsOf first side source = anchorsOf second side source := by
  have hat : anchorAt first side = anchorAt second side := by
    funext found
    simp only [anchorAt, h.scope, h.qualify]
  rw [anchorsOf, anchorsOf, hat]

end Declaration

end RpcBinder
