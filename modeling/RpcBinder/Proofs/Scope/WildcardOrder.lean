import RpcBinder.Proofs.Name
import RpcBinder.Proofs.TypeRef.Requalification

/-!
# Packages that are imported as a whole

Of several packages that are imported as a whole and known to declare a name, the first one is taken,
and nothing says that there was a choice.  So the order of the imports does not matter for a name
that at most one of them is known to declare, and for every other name it does.

## Main definitions

* `Resolver.confirmed` — the packages imported as a whole that are known to declare a name.

## Main results

* `Resolver.wildcard?_eq` — the first of them is taken.
* `Resolver.resolve_reordered` — the order does not matter if there is no choice.
* `Resolver.first_confirmed_and_reordered` — **reordering the imports changes no type if and only if
  no name can be chosen.**
* `Resolver.resolve_takes_first` — two packages that declare a name, of which one is taken.
-/

namespace RpcBinder

/-- Lists with the same members begin alike if the members are all equal. -/
theorem head?_eq_of_perm {α : Type} {xs ys : List α} (h : xs.Perm ys)
    (hsame : ∀ x ∈ xs, ∀ y ∈ xs, x = y) : xs.head? = ys.head? := by
  cases ys with
  | nil => rw [h.eq_nil]
  | cons y ys =>
    cases xs with
    | nil => exact absurd h.symm.eq_nil (List.cons_ne_nil y ys)
    | cons x xs =>
      have hy : y ∈ x :: xs := h.symm.subset List.mem_cons_self
      rw [List.head?_cons, List.head?_cons, hsame x List.mem_cons_self y hy]

namespace Resolver

/-- The packages imported as a whole that are known to declare a name, in the order of the
imports. -/
def confirmed (resolver : Resolver) (name : String) : List String :=
  resolver.scope.wildcards.filter fun package =>
    resolver.index.contains name (qualifiedName package name)

variable {resolver : Resolver} {scope : Scope} {index : TypeIndex} {name : String}

theorem wildcard?_eq (resolver : Resolver) (name : String) :
    resolver.wildcard? name = (resolver.confirmed name).head?.map (qualifiedName · name) := by
  rw [wildcard?, List.find?_map, confirmed, List.head?_filter]
  rfl

/-- The first of the packages that are known to declare a name is taken. -/
theorem resolve_of_confirmed (hdot : '.' ∉ name.toList) (hopen : resolver.scope.LeavesOpen name)
    {package : String} {others : List String}
    (h : resolver.confirmed name = package :: others) :
    resolver.resolve name = ⟨qualifiedName package name, .wildcardImport⟩ := by
  have hfound : resolver.wildcard? name = some (qualifiedName package name) := by
    rw [wildcard?_eq, h]
    rfl
  exact (Resolves.wildcardImport hdot hopen hfound).resolve_eq

theorem rule_ne_wildcardImport_of_confirmed (h : resolver.confirmed name = []) :
    (resolver.resolve name).rule ≠ .wildcardImport := by
  have hresolves := resolver.resolves_resolve name
  generalize resolver.resolve name = resolution at hresolves
  cases hresolves with
  | wildcardImport _ _ hfound =>
    rw [wildcard?_eq, h] at hfound
    cases hfound
  | _ => exact nofun

/-- The order of the imports does not matter for a name that at most one of them is known to
declare, or that other rules decide. -/
theorem resolve_reordered {wildcards : List String} (h : wildcards.Perm scope.wildcards)
    (hsame : '.' ∉ name.toList → scope.LeavesOpen name →
      ∀ one ∈ confirmed ⟨scope, index⟩ name, ∀ other ∈ confirmed ⟨scope, index⟩ name,
        one = other) :
    resolve ⟨{ scope with wildcards }, index⟩ name = resolve ⟨scope, index⟩ name := by
  by_cases hopen : '.' ∉ name.toList ∧ scope.LeavesOpen name
  · -- the wildcard imports are asked, and those that are confirmed stay the same
    have hperm : (confirmed ⟨scope, index⟩ name).Perm
        (confirmed ⟨{ scope with wildcards }, index⟩ name) := h.symm.filter _
    have hwildcard : wildcard? ⟨{ scope with wildcards }, index⟩ name =
        wildcard? ⟨scope, index⟩ name := by
      rw [wildcard?_eq, wildcard?_eq, head?_eq_of_perm hperm (hsame hopen.1 hopen.2)]
    unfold resolve
    rw [hwildcard]
    rfl
  · -- the name is settled before they are asked
    have hresolves := resolves_resolve ⟨scope, index⟩ name
    generalize resolve ⟨scope, index⟩ name = resolution at hresolves
    cases hresolves with
    | alreadyQualified hdot => exact (Resolves.alreadyQualified hdot).resolve_eq
    | aliased hdot h =>
      have hnew : Resolves ⟨{ scope with wildcards }, index⟩ name _ := .aliased hdot h
      exact hnew.resolve_eq
    | explicitImport hdot halias h =>
      have hnew : Resolves ⟨{ scope with wildcards }, index⟩ name _ :=
        .explicitImport hdot halias h
      exact hnew.resolve_eq
    | wildcardImport hdot hleaves => exact absurd ⟨hdot, hleaves⟩ hopen
    | samePackage hdot hleaves => exact absurd ⟨hdot, hleaves⟩ hopen
    | globallyUnique hdot hleaves => exact absurd ⟨hdot, hleaves⟩ hopen
    | unresolved hdot hleaves => exact absurd ⟨hdot, hleaves⟩ hopen

/-- Any of the packages that are known to declare a name is taken if it is imported first. -/
theorem resolve_of_mem_confirmed (hdot : '.' ∉ name.toList) (hopen : scope.LeavesOpen name)
    {package : String} (h : package ∈ confirmed ⟨scope, index⟩ name) :
    ∃ wildcards, wildcards.Perm scope.wildcards ∧
      resolve ⟨{ scope with wildcards }, index⟩ name =
        ⟨qualifiedName package name, .wildcardImport⟩ := by
  obtain ⟨hmem, hcontains⟩ := List.mem_filter.1 h
  refine ⟨package :: scope.wildcards.erase package, (List.perm_cons_erase hmem).symm, ?_⟩
  have hopen' : Scope.LeavesOpen
      { scope with wildcards := package :: scope.wildcards.erase package } name :=
    ⟨hopen.aliases, hopen.explicit⟩
  exact resolve_of_confirmed hdot hopen' (List.filter_cons_of_pos hcontains)

/-- **Of the packages that are imported as a whole and known to declare a name the first one is
taken.  Reordering the imports changes no type if and only if no name can be chosen**: none that is
left open to the index is known to be declared in two of the packages. -/
theorem first_confirmed_and_reordered (scope : Scope) (index : TypeIndex) :
    (∀ name, '.' ∉ name.toList → scope.LeavesOpen name →
      (confirmed ⟨scope, index⟩ name = [] →
        (resolve ⟨scope, index⟩ name).rule ≠ .wildcardImport) ∧
      ∀ package others, confirmed ⟨scope, index⟩ name = package :: others →
        resolve ⟨scope, index⟩ name = ⟨qualifiedName package name, .wildcardImport⟩) ∧
    ((∀ wildcards : List String, wildcards.Perm scope.wildcards →
        ∀ (type : TypeTree) (text : List Char), type.Written text → type.IsWellFormed →
          qualify ⟨{ scope with wildcards }, index⟩ text = qualify ⟨scope, index⟩ text) ↔
      ∀ name, IsTypeName name.toList → '.' ∉ name.toList → scope.LeavesOpen name →
        ∀ one ∈ confirmed ⟨scope, index⟩ name, ∀ other ∈ confirmed ⟨scope, index⟩ name,
          one = other) := by
  refine ⟨fun name hdot hopen => ⟨rule_ne_wildcardImport_of_confirmed, fun package others h =>
    resolve_of_confirmed hdot hopen h⟩, fun hsame => ?_, fun hsame => ?_⟩
  · intro name hname hdot hopen one hone other hother
    -- whichever of the packages comes first, the name resolves to the same
    have hqualified : ∀ package ∈ confirmed ⟨scope, index⟩ name,
        qualifiedName package name = (resolve ⟨scope, index⟩ name).fqn := by
      intro package hpackage
      obtain ⟨wildcards, hperm, hresolve⟩ := resolve_of_mem_confirmed hdot hopen hpackage
      have htext := hsame wildcards hperm _ _ (TypeTree.Written.named name.toList)
        (TypeTree.isWellFormed_named hname)
      rw [qualify_name _ hname, qualify_name _ hname, hresolve] at htext
      exact String.toList_inj.1 htext
    have hequal := (hqualified one hone).trans (hqualified other hother).symm
    exact ((qualifiedName_eq_iff hdot hdot).1 hequal).1
  · intro wildcards hperm type text hwritten hwf
    rw [qualify_eq_text _ hwritten hwf, qualify_eq_text _ hwritten hwf]
    refine TypeTree.text_congr fun name hname => ?_
    have hresolve : resolve ⟨{ scope with wildcards }, index⟩ (String.ofList name) =
        resolve ⟨scope, index⟩ (String.ofList name) := by
      apply resolve_reordered hperm
      apply hsame
      rw [String.toList_ofList]
      exact hwf name hname
    rw [qualifyName, qualifyName, hresolve]

/-- A name that is known in one of two packages that are imported as a whole, and in a third one:
the imports may be reordered. -/
theorem first_confirmed_and_reordered_example :
    let scope : Scope := { package := "x", wildcards := ["a", "b"] }
    let index := TypeIndex.build [.declare "b" "T", .declare "c" "T"]
    let type : TypeTree := .generic "List".toList (.named "T".toList) []
    ('.' ∉ "T".toList ∧ scope.LeavesOpen "T" ∧ confirmed ⟨scope, index⟩ "T" = ["b"] ∧
        resolve ⟨scope, index⟩ "T" = ⟨"b.T", .wildcardImport⟩) ∧
      ["b", "a"].Perm scope.wildcards ∧ type.IsWellFormed ∧
      qualify ⟨{ scope with wildcards := ["b", "a"] }, index⟩ type.canonical =
        qualify ⟨scope, index⟩ type.canonical := by
  intro scope index type
  have hdot : '.' ∉ "T".toList := by decide
  have hopen : scope.LeavesOpen "T" := ⟨by decide, by decide⟩
  have hconfirmed : confirmed ⟨scope, index⟩ "T" = ["b"] := by decide
  have hone : ∀ name, IsTypeName name.toList → '.' ∉ name.toList → scope.LeavesOpen name →
      ∀ one ∈ confirmed ⟨scope, index⟩ name, ∀ other ∈ confirmed ⟨scope, index⟩ name,
        one = other := by
    intro name _ _ _ one hmem
    -- the index knows no other name
    have hcontains : index.contains name (qualifiedName one name) = true :=
      (List.mem_filter.1 hmem).2
    have hpair := (TypeIndex.contains_build _ name _).1 hcontains
    have hname : name = "T" := by
      rcases List.mem_pair.1 hpair with heq | heq
      · exact (Prod.mk.inj heq).1
      · exact (Prod.mk.inj heq).1
    intro other hother
    rw [hname, hconfirmed, List.mem_singleton] at hmem hother
    rw [hmem, hother]
  have hperm : ["b", "a"].Perm scope.wildcards := by decide
  have hwf : type.IsWellFormed := by decide
  obtain ⟨hfirst, hreordered⟩ := first_confirmed_and_reordered scope index
  exact ⟨⟨hdot, hopen, hconfirmed, (hfirst "T" hdot hopen).2 "b" [] hconfirmed⟩, hperm, hwf,
    hreordered.2 hone _ hperm type _ (TypeTree.written_text type) hwf⟩

/-- A file that imports two packages as a whole, each of which declares the name: the first one is
taken, and the other one if the imports are reordered. -/
theorem resolve_takes_first :
    let scope : Scope := { package := "x", wildcards := ["a", "b"] }
    let index := (TypeIndex.empty.declare "a" "T").declare "b" "T"
    ('.' ∉ "T".toList ∧ scope.LeavesOpen "T" ∧ confirmed ⟨scope, index⟩ "T" = ["a", "b"]) ∧
      resolve ⟨scope, index⟩ "T" ≠ ⟨"T", .unresolved⟩ ∧
      resolve ⟨scope, index⟩ "T" = ⟨"a.T", .wildcardImport⟩ ∧
      ["b", "a"].Perm scope.wildcards ∧
      qualify ⟨{ scope with wildcards := ["b", "a"] }, index⟩ "T".toList ≠
        qualify ⟨scope, index⟩ "T".toList := by
  intro scope index
  refine ⟨⟨by decide, ⟨by decide, by decide⟩, by decide⟩, by decide, by decide, by decide, ?_⟩
  have hname : IsTypeName "T".toList := by decide
  rw [qualify_name _ hname, qualify_name _ hname]
  decide

end Resolver

end RpcBinder
