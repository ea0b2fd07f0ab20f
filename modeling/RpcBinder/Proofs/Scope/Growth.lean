import RpcBinder.Proofs.Scope.Resolution
import RpcBinder.Proofs.Scope.TypeIndex

/-!
# Growing an index

One more candidate for a name does little to what names stand for.  It may be taken by a rule that
is tried no later than the one that covered the name before, it may take away from a name that it
is unique, and otherwise it changes nothing.  The three outcomes compose, so a whole run of steps
has one of them as well.

## Main definitions

* `Shift` — what more candidates may do to the resolution of a name.

## Main results

* `Resolver.shift_insert` — one more candidate.
* `Resolver.shift_insertAll` — any series of candidates.
* `Resolver.resolve_grown_index` — **a name that changes what it stands for stands for an added
  type or for none**, and a name that is known by its dot, its alias or its import does not change.
-/

namespace RpcBinder

/-- What the pairs `added` may do to the resolution of `name`. -/
inductive Shift (added : List (String × String)) (name : String) (before after : Resolution) : Prop
  /-- Nothing changes. -/
  | kept (h : after = before)
  /-- An added candidate is taken, by a rule that looks at the index. -/
  | taken (hmem : (name, after.fqn) ∈ added) (hrule : after.rule ≠ .unresolved)
      (hindex : ResolutionRule.wildcardImport.rank ≤ after.rule.rank)
      (hrank : after.rule.rank ≤ before.rule.rank)
  /-- There are several candidates, of which no rule takes one. -/
  | lost (hmem : ∃ fqn, (name, fqn) ∈ added)
      (hrank : ResolutionRule.globallyUnique.rank ≤ before.rule.rank)
      (h : after = ⟨name, .unresolved⟩)

namespace Shift

variable {added more : List (String × String)} {name : String} {before middle after : Resolution}

/-- One shift after another is a shift. -/
theorem trans (hfirst : Shift added name before middle) (hsecond : Shift more name middle after) :
    Shift (added ++ more) name before after := by
  cases hsecond with
  | kept h =>
    subst h
    cases hfirst with
    | kept h => exact .kept h
    | taken hmem hrule hindex hrank =>
      exact .taken (List.mem_append_left _ hmem) hrule hindex hrank
    | lost hmem hrank h =>
      obtain ⟨fqn, hmem⟩ := hmem
      exact .lost ⟨fqn, List.mem_append_left _ hmem⟩ hrank h
  | taken hmem hrule hindex hrank =>
    refine .taken (List.mem_append_right _ hmem) hrule hindex ?_
    cases hfirst with
    | kept h => exact h ▸ hrank
    | taken _ _ _ hbefore => exact Nat.le_trans hrank hbefore
    | lost _ hbefore h =>
      -- the name was unique or unresolved, and every rule is tried before it is left unresolved
      have hlt := ResolutionRule.rank_lt_unresolved hrule
      simp only [ResolutionRule.rank] at hbefore hlt ⊢
      omega
  | lost hmem hrank h =>
    obtain ⟨fqn, hmem⟩ := hmem
    refine .lost ⟨fqn, List.mem_append_right _ hmem⟩ ?_ h
    cases hfirst with
    | kept h => exact h ▸ hrank
    | taken _ _ _ hbefore => exact Nat.le_trans hrank hbefore
    | lost _ hbefore _ => exact hbefore

end Shift

/-- A first element that passes a test stays the first if fewer elements pass. -/
theorem find?_eq_some_of_imp {α : Type} {p q : α → Bool} {xs : List α} {x : α}
    (hpq : ∀ y, p y = true → q y = true) (h : xs.find? q = some x) (hx : p x = true) :
    xs.find? p = some x := by
  rw [List.find?_eq_some_iff_append] at h ⊢
  obtain ⟨-, front, rest, rfl, hfront⟩ := h
  refine ⟨hx, front, rest, rfl, fun y hy => ?_⟩
  have hq := hfront y hy
  rw [Bool.not_eq_true'] at hq ⊢
  rw [Bool.eq_false_iff] at hq ⊢
  exact fun hp => hq (hpq y hp)

namespace Resolver

variable {scope : Scope} {index : TypeIndex} {simple fqn name found : String}

/-! ### Rule by rule -/

theorem contains_insert_of_contains (h : index.contains name found = true) :
    (index.insert simple fqn).contains name found = true :=
  (TypeIndex.contains_insert index simple fqn name found).2 (Or.inl h)

theorem wildcard?_of_insert (h : wildcard? ⟨scope, index.insert simple fqn⟩ name = some found) :
    wildcard? ⟨scope, index⟩ name = some found ∨ (name, found) = (simple, fqn) := by
  have hfound := List.find?_some h
  rcases (TypeIndex.contains_insert index simple fqn name found).1 hfound with hold | hnew
  · exact Or.inl (find?_eq_some_of_imp (fun _ => contains_insert_of_contains) h hold)
  · exact Or.inr hnew

theorem wildcard?_eq_none_of_insert
    (h : wildcard? ⟨scope, index.insert simple fqn⟩ name = none) :
    wildcard? ⟨scope, index⟩ name = none := by
  unfold wildcard? at h ⊢
  rw [List.find?_eq_none] at h ⊢
  exact fun other hmem hold => h other hmem (contains_insert_of_contains hold)

theorem samePackage?_of_insert
    (h : samePackage? ⟨scope, index.insert simple fqn⟩ name = some found) :
    samePackage? ⟨scope, index⟩ name = some found ∨ (name, found) = (simple, fqn) := by
  obtain ⟨hname, hfound⟩ := samePackage?_eq_some_iff.1 h
  rcases (TypeIndex.contains_insert index simple fqn name found).1 hfound with hold | hnew
  · exact Or.inl (samePackage?_eq_some_iff.2 ⟨hname, hold⟩)
  · exact Or.inr hnew

theorem samePackage?_eq_none_of_insert
    (h : samePackage? ⟨scope, index.insert simple fqn⟩ name = none) :
    samePackage? ⟨scope, index⟩ name = none := by
  rw [Option.eq_none_iff_forall_ne_some] at h ⊢
  intro found hfound
  obtain ⟨hname, hold⟩ := samePackage?_eq_some_iff.1 hfound
  exact h found (samePackage?_eq_some_iff.2 ⟨hname, contains_insert_of_contains hold⟩)

theorem unique?_of_insert (h : (index.insert simple fqn).unique? name = some found) :
    index.unique? name = some found ∨ (name, found) = (simple, fqn) := by
  rw [TypeIndex.unique?_eq_some_iff_candidates?, TypeIndex.candidates?_insert] at h
  rw [TypeIndex.unique?_eq_some_iff_candidates?]
  split at h
  · next hname =>
    obtain rfl : name = simple := eq_of_beq hname
    have hmem : fqn ∈ [found] := by
      rw [← Option.some.inj h]
      exact mem_addNew.2 (Or.inr rfl)
    exact Or.inr (by rw [List.mem_singleton.1 hmem])
  · exact Or.inl h

/-- A name that is not the one that was added keeps its only candidate. -/
theorem unique?_insert_of_ne (h : name ≠ simple) :
    (index.insert simple fqn).unique? name = index.unique? name := by
  unfold TypeIndex.unique?
  rw [TypeIndex.candidates?_insert, beq_eq_false_iff_ne.2 h]
  rfl

/-! ### The rules that are left -/

section

variable {resolver : Resolver}

theorem rank_of_leavesOpen (hdot : '.' ∉ name.toList) (hopen : resolver.scope.LeavesOpen name) :
    ResolutionRule.wildcardImport.rank ≤ (resolver.resolve name).rule.rank := by
  have h := resolver.resolves_resolve name
  generalize resolver.resolve name = resolution at h
  cases h with
  | alreadyQualified hin => exact absurd hin hdot
  | aliased _ h => simp [hopen.aliases] at h
  | explicitImport _ _ h => simp [hopen.explicit] at h
  | _ => simp [ResolutionRule.rank]

theorem rank_of_wildcard?_eq_none (hdot : '.' ∉ name.toList)
    (hopen : resolver.scope.LeavesOpen name) (hwildcard : resolver.wildcard? name = none) :
    ResolutionRule.samePackage.rank ≤ (resolver.resolve name).rule.rank := by
  have hrank := rank_of_leavesOpen hdot hopen
  have h := resolver.resolves_resolve name
  generalize resolver.resolve name = resolution at h hrank
  cases h with
  | wildcardImport _ _ h => simp [hwildcard] at h
  | _ => simp_all [ResolutionRule.rank]

theorem rank_of_samePackage?_eq_none (hdot : '.' ∉ name.toList)
    (hopen : resolver.scope.LeavesOpen name) (hwildcard : resolver.wildcard? name = none)
    (hsame : resolver.samePackage? name = none) :
    ResolutionRule.globallyUnique.rank ≤ (resolver.resolve name).rule.rank := by
  have hrank := rank_of_wildcard?_eq_none hdot hopen hwildcard
  have h := resolver.resolves_resolve name
  generalize resolver.resolve name = resolution at h hrank
  cases h with
  | samePackage _ _ _ h => simp [hsame] at h
  | _ => simp_all [ResolutionRule.rank]

end

/-! ### Growing -/

/-- One more candidate shifts what a name stands for.  The cases are those of the resolution
afterwards: what a rule finds there it found before, or it is the candidate. -/
theorem shift_insert (scope : Scope) (index : TypeIndex) (simple fqn name : String) :
    Shift [(simple, fqn)] name (resolve ⟨scope, index⟩ name)
      (resolve ⟨scope, index.insert simple fqn⟩ name) := by
  -- by the rule that answers with the new entry, back to the one that answered without it
  have h := resolves_resolve ⟨scope, index.insert simple fqn⟩ name
  generalize resolve ⟨scope, index.insert simple fqn⟩ name = after at h
  cases h with
  | alreadyQualified hdot =>
    have hbefore : Resolves ⟨scope, index⟩ name _ := .alreadyQualified hdot
    exact .kept hbefore.resolve_eq.symm
  | aliased hdot h =>
    have hbefore : Resolves ⟨scope, index⟩ name _ := .aliased hdot h
    exact .kept hbefore.resolve_eq.symm
  | explicitImport hdot halias h =>
    have hbefore : Resolves ⟨scope, index⟩ name _ := .explicitImport hdot halias h
    exact .kept hbefore.resolve_eq.symm
  | wildcardImport hdot hopen h =>
    rcases wildcard?_of_insert h with hold | hnew
    · have hbefore : Resolves ⟨scope, index⟩ name _ := .wildcardImport hdot hopen hold
      exact .kept hbefore.resolve_eq.symm
    · exact .taken (List.mem_singleton.2 hnew) (by simp) (Nat.le_refl _)
        (rank_of_leavesOpen hdot hopen)
  | samePackage hdot hopen hwildcard h =>
    have hwildcard := wildcard?_eq_none_of_insert hwildcard
    rcases samePackage?_of_insert h with hold | hnew
    · have hbefore : Resolves ⟨scope, index⟩ name _ := .samePackage hdot hopen hwildcard hold
      exact .kept hbefore.resolve_eq.symm
    · exact .taken (List.mem_singleton.2 hnew) (by simp) (by simp [ResolutionRule.rank])
        (rank_of_wildcard?_eq_none hdot hopen hwildcard)
  | globallyUnique hdot hopen hwildcard hsame h =>
    have hwildcard := wildcard?_eq_none_of_insert hwildcard
    have hsame := samePackage?_eq_none_of_insert hsame
    rcases unique?_of_insert h with hold | hnew
    · have hbefore : Resolves ⟨scope, index⟩ name _ :=
        .globallyUnique hdot hopen hwildcard hsame hold
      exact .kept hbefore.resolve_eq.symm
    · exact .taken (List.mem_singleton.2 hnew) (by simp) (by simp [ResolutionRule.rank])
        (rank_of_samePackage?_eq_none hdot hopen hwildcard hsame)
  | unresolved hdot hopen hwildcard hsame hunique =>
    have hwildcard := wildcard?_eq_none_of_insert hwildcard
    have hsame := samePackage?_eq_none_of_insert hsame
    by_cases hname : name = simple
    · exact .lost ⟨fqn, by rw [hname]; exact List.mem_singleton_self _⟩
        (rank_of_samePackage?_eq_none hdot hopen hwildcard hsame) rfl
    · have hunique : index.unique? name = none := unique?_insert_of_ne hname ▸ hunique
      have hbefore : Resolves ⟨scope, index⟩ name _ :=
        .unresolved hdot hopen hwildcard hsame hunique
      exact .kept hbefore.resolve_eq.symm

/-- Any series of candidates shifts what a name stands for. -/
theorem shift_insertAll (scope : Scope) (index : TypeIndex) (pairs : List (String × String))
    (name : String) :
    Shift pairs name (resolve ⟨scope, index⟩ name)
      (resolve ⟨scope, index.insertAll pairs⟩ name) := by
  induction pairs generalizing index with
  | nil => exact .kept rfl
  | cons pair pairs ih =>
    exact (shift_insert scope index pair.1 pair.2 name).trans (ih (index.insert pair.1 pair.2))

/-- **A name that changes what it stands for, when the index grows, stands for an added type or
for none.**  This is so after one more candidate, of which no other name takes notice, and after
any steps that declare types in other files.  A name comes to stand for none only if it did before
or was unique, and no name changes that is known by its dot, its alias or its import. -/
theorem resolve_grown_index (scope : Scope) (index : TypeIndex) (name : String) :
    let before := resolve ⟨scope, index⟩ name
    (∀ simple fqn,
      let after := resolve ⟨scope, index.insert simple fqn⟩ name
      (name ≠ simple → after = before) ∧
      (name = simple → after.fqn = before.fqn ∨ after.fqn = fqn ∨ after.fqn = name) ∧
      (after.rule = .unresolved → before.rule = .unresolved ∨ before.rule = .globallyUnique) ∧
      (before.rule ∈ [.alreadyQualified, .aliased, .explicitImport] → after = before)) ∧
    ∀ steps : List IndexStep,
      let after := resolve ⟨scope, steps.foldl TypeIndex.apply index⟩ name
      after = before ∨ (name, after.fqn) ∈ recordedPairs steps ∨ after = ⟨name, .unresolved⟩ := by
  intro before
  refine ⟨fun simple fqn => ?_, fun steps => ?_⟩
  · intro after
    cases shift_insert scope index simple fqn name with
    | kept h =>
      have h : after = before := h
      refine ⟨fun _ => h, fun _ => ?_, fun hrule => ?_, fun _ => h⟩
      · exact Or.inl (congrArg Resolution.fqn h)
      · exact Or.inl (h ▸ hrule)
    | taken hmem hrule hindex hrank =>
      obtain ⟨hname, hfqn⟩ : name = simple ∧ after.fqn = fqn := by simpa using hmem
      refine ⟨fun hne => absurd hname hne, fun _ => Or.inr (Or.inl hfqn),
        fun h => absurd h hrule, fun hbefore => ?_⟩
      -- an earlier rule covered the name before, but its rule is one that asks the index
      have hlt := ResolutionRule.rank_lt_wildcardImport hbefore
      exact absurd (Nat.le_trans hindex hrank) (Nat.not_le.2 hlt)
    | lost hmem hrank h =>
      obtain ⟨other, hmem⟩ := hmem
      have hname : name = simple := (Prod.mk.inj (List.mem_singleton.1 hmem)).1
      have h : after = ⟨name, .unresolved⟩ := h
      refine ⟨fun hne => absurd hname hne, fun _ => Or.inr (Or.inr (by rw [h])),
        fun _ => ResolutionRule.eq_of_globallyUnique_rank_le hrank, fun hbefore => ?_⟩
      have hlt := ResolutionRule.rank_lt_wildcardImport hbefore
      exact absurd (Nat.le_trans (by decide) hrank) (Nat.not_le.2 hlt)
  · intro after
    have hafter : after = resolve ⟨scope, index.insertAll (recordedPairs steps)⟩ name := by
      rw [← TypeIndex.foldl_apply]
    have hshift := shift_insertAll scope index (recordedPairs steps) name
    rw [← hafter] at hshift
    cases hshift with
    | kept h => exact Or.inl h
    | taken hmem _ _ _ => exact Or.inr (Or.inl hmem)
    | lost _ _ h => exact Or.inr (Or.inr h)

/-- A wildcard import that a new declaration confirms, and a name that is no longer unique. -/
theorem resolve_grown_index_example :
    let scope : Scope := { package := "q", wildcards := ["a"] }
    let index := TypeIndex.empty.declare "b" "User"
    (resolve ⟨scope, index⟩ "User" = ⟨"b.User", .globallyUnique⟩ ∧
      resolve ⟨scope, index.insert "User" "a.User"⟩ "User" = ⟨"a.User", .wildcardImport⟩ ∧
      resolve ⟨scope, index.insert "User" "c.User"⟩ "User" = ⟨"User", .unresolved⟩) ∧
    "User" ≠ "Page" ∧
      resolve ⟨scope, index.insert "Page" "c.Page"⟩ "User" = resolve ⟨scope, index⟩ "User" := by
  intro scope index
  have hne : "User" ≠ "Page" := by decide
  have hpage := (resolve_grown_index scope index "User").1 "Page" "c.Page"
  exact ⟨by decide, hne, hpage.1 hne⟩

end Resolver

end RpcBinder
