import RpcBinder.Scope.Resolver

/-!
# The rules of resolution, one by one

A name is resolved by the first rule that covers it.  The first three rules look at the name and
the scope of its file, and only a name that these leave open is looked up in the index.

## Main definitions

* `Scope.LeavesOpen` — a name that the imports of a file do not decide.
* `Resolver.Resolves` — a name is resolved: what makes a rule apply, and the earlier ones not.
* `ResolutionRule.rank` — the place of a rule in their order.

## Main results

* `Resolver.resolves_resolve`, `Resolver.Resolves.resolve_eq` — the relation is the graph of
  `Resolver.resolve`.
-/

namespace RpcBinder

/-- Nothing but the index says what a simple name in a file stands for: the name is no alias and
not imported by itself. -/
structure Scope.LeavesOpen (scope : Scope) (name : String) : Prop where
  aliases : scope.aliases.get? name = none
  explicit : scope.explicitImport? name = none

/-- The place of a rule in the order in which the rules are tried. -/
def ResolutionRule.rank : ResolutionRule → Nat
  | .alreadyQualified => 0
  | .aliased => 1
  | .explicitImport => 2
  | .wildcardImport => 3
  | .samePackage => 4
  | .globallyUnique => 5
  | .unresolved => 6

namespace ResolutionRule

variable {rule : ResolutionRule}

theorem rank_lt_unresolved (h : rule ≠ .unresolved) : rule.rank < unresolved.rank := by
  cases rule with
  | unresolved => exact absurd rfl h
  | _ => simp [rank]

theorem rank_lt_wildcardImport (h : rule ∈ [alreadyQualified, aliased, explicitImport]) :
    rule.rank < wildcardImport.rank := by
  simp only [List.mem_cons, List.not_mem_nil, or_false] at h
  rcases h with rfl | rfl | rfl <;> simp [rank]

theorem eq_of_globallyUnique_rank_le (h : globallyUnique.rank ≤ rule.rank) :
    rule = unresolved ∨ rule = globallyUnique := by
  cases rule with
  | unresolved => exact Or.inl rfl
  | globallyUnique => exact Or.inr rfl
  | _ => simp [rank] at h

end ResolutionRule

namespace Resolver

/-- The name is resolved: a rule covers it, and no earlier one does. -/
inductive Resolves (resolver : Resolver) (name : String) : Resolution → Prop
  | alreadyQualified (hdot : '.' ∈ name.toList) : Resolves resolver name ⟨name, .alreadyQualified⟩
  | aliased {fqn : String} (hdot : '.' ∉ name.toList)
      (h : resolver.scope.aliases.get? name = some fqn) : Resolves resolver name ⟨fqn, .aliased⟩
  | explicitImport {fqn : String} (hdot : '.' ∉ name.toList)
      (halias : resolver.scope.aliases.get? name = none)
      (h : resolver.scope.explicitImport? name = some fqn) :
      Resolves resolver name ⟨fqn, .explicitImport⟩
  | wildcardImport {fqn : String} (hdot : '.' ∉ name.toList)
      (hopen : resolver.scope.LeavesOpen name) (h : resolver.wildcard? name = some fqn) :
      Resolves resolver name ⟨fqn, .wildcardImport⟩
  | samePackage {fqn : String} (hdot : '.' ∉ name.toList)
      (hopen : resolver.scope.LeavesOpen name) (hwildcard : resolver.wildcard? name = none)
      (h : resolver.samePackage? name = some fqn) : Resolves resolver name ⟨fqn, .samePackage⟩
  | globallyUnique {fqn : String} (hdot : '.' ∉ name.toList)
      (hopen : resolver.scope.LeavesOpen name) (hwildcard : resolver.wildcard? name = none)
      (hsame : resolver.samePackage? name = none) (h : resolver.index.unique? name = some fqn) :
      Resolves resolver name ⟨fqn, .globallyUnique⟩
  | unresolved (hdot : '.' ∉ name.toList)
      (hopen : resolver.scope.LeavesOpen name) (hwildcard : resolver.wildcard? name = none)
      (hsame : resolver.samePackage? name = none) (hunique : resolver.index.unique? name = none) :
      Resolves resolver name ⟨name, .unresolved⟩

variable {resolver : Resolver} {name : String} {resolution : Resolution}

theorem samePackage?_eq_some_iff {found : String} :
    resolver.samePackage? name = some found ↔
      found = qualifiedName resolver.scope.package name ∧
        resolver.index.contains name found = true := by
  unfold samePackage?
  simp only
  split
  · next h =>
    rw [Option.some_inj]
    constructor
    · rintro rfl
      exact ⟨rfl, h⟩
    · rintro ⟨rfl, -⟩
      rfl
  · next h =>
    constructor
    · exact nofun
    · rintro ⟨rfl, hcontains⟩
      exact absurd hcontains h

/-- Every name is resolved. -/
theorem resolves_resolve (resolver : Resolver) (name : String) :
    resolver.Resolves name (resolver.resolve name) := by
  -- one rule after the other, in the order in which they are tried
  unfold resolve
  split
  · next hdot => exact .alreadyQualified (by simpa using hdot)
  · next hdot =>
    have hdot : '.' ∉ name.toList := by simpa using hdot
    split
    · next halias => exact .aliased hdot halias
    · next halias =>
      split
      · next hexplicit => exact .explicitImport hdot halias hexplicit
      · next hexplicit =>
        have hopen : resolver.scope.LeavesOpen name := ⟨halias, hexplicit⟩
        split
        · next h => exact .wildcardImport hdot hopen h
        · next hwildcard =>
          split
          · next h => exact .samePackage hdot hopen hwildcard h
          · next hsame =>
            split
            · next h => exact .globallyUnique hdot hopen hwildcard hsame h
            · next hunique => exact .unresolved hdot hopen hwildcard hsame hunique

/-- No name is resolved in two ways. -/
theorem Resolves.resolve_eq (h : resolver.Resolves name resolution) :
    resolver.resolve name = resolution := by
  cases h with
  | alreadyQualified hdot => simp [resolve, hdot]
  | aliased hdot h => simp [resolve, hdot, h]
  | explicitImport hdot halias h => simp [resolve, hdot, halias, h]
  | wildcardImport hdot hopen h => simp [resolve, hdot, hopen.aliases, hopen.explicit, h]
  | samePackage hdot hopen hwildcard h =>
    simp [resolve, hdot, hopen.aliases, hopen.explicit, hwildcard, h]
  | globallyUnique hdot hopen hwildcard hsame h =>
    simp [resolve, hdot, hopen.aliases, hopen.explicit, hwildcard, hsame, h]
  | unresolved hdot hopen hwildcard hsame hunique =>
    simp [resolve, hdot, hopen.aliases, hopen.explicit, hwildcard, hsame, hunique]

end Resolver

end RpcBinder
