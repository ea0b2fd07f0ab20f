import RpcBinder.Proofs.Table
import RpcBinder.Scope.TypeIndex

/-!
# What an index records

An index keeps its names and their candidates in the order in which they came, but what it says
of a name follows from the set of pairs that were recorded: whether a type is a candidate, and
whether it is the only one.

## Main definitions

* `IndexStep`, `IndexStep.pairs`, `recordedPairs` — how an index grows, and by which pairs.
* `TypeIndex.insertAll`, `TypeIndex.build` — the index after a series of pairs, and of steps.
* `TypeIndex.IsTidy` — every listed name has candidates, none of them twice.

## Main results

* `TypeIndex.contains_build` — the candidates are those of the recorded pairs.
* `TypeIndex.unique?_eq_some_iff` — a tidy index knows the only candidate from the candidates.
-/

namespace RpcBinder

/-- A step in which an index grows. -/
inductive IndexStep
  /-- A candidate for a simple name. -/
  | insert (simple fqn : String)
  /-- A declaration in a package. -/
  | declare (package simple : String)
  /-- Built-in types. -/
  | seed (markers : Markers)
  deriving DecidableEq, Repr, Inhabited

/-- The pairs of a simple and a qualified name that a step records. -/
def IndexStep.pairs : IndexStep → List (String × String)
  | .insert simple fqn => [(simple, fqn)]
  | .declare package simple => [(simple, qualifiedName package simple)]
  | .seed markers => markers.map fun marker => (marker.simpleName, marker.fqn)

/-- The pairs that steps record. -/
def recordedPairs (steps : List IndexStep) : List (String × String) :=
  steps.flatMap IndexStep.pairs

namespace TypeIndex

/-- The index after a step. -/
def apply (index : TypeIndex) : IndexStep → TypeIndex
  | .insert simple fqn => index.insert simple fqn
  | .declare package simple => index.declare package simple
  | .seed markers => index.seed markers

/-- The index of a series of steps. -/
def build (steps : List IndexStep) : TypeIndex :=
  steps.foldl apply empty

/-- The index with more pairs of a simple and a qualified name. -/
def insertAll (index : TypeIndex) (pairs : List (String × String)) : TypeIndex :=
  pairs.foldl (fun index pair => index.insert pair.1 pair.2) index

theorem insertAll_append (index : TypeIndex) (first second : List (String × String)) :
    index.insertAll (first ++ second) = (index.insertAll first).insertAll second :=
  List.foldl_append

theorem seed_eq_insertAll (index : TypeIndex) (markers : Markers) :
    index.seed markers =
      index.insertAll (markers.map fun marker => (marker.simpleName, marker.fqn)) := by
  rw [insertAll, List.foldl_map]
  rfl

/-- A step is nothing but the pairs that it records. -/
theorem apply_eq_insertAll (index : TypeIndex) (step : IndexStep) :
    index.apply step = index.insertAll step.pairs := by
  cases step with
  | insert simple fqn => rfl
  | declare package simple => rfl
  | seed markers => exact seed_eq_insertAll index markers

theorem foldl_apply (index : TypeIndex) (steps : List IndexStep) :
    steps.foldl apply index = index.insertAll (recordedPairs steps) := by
  induction steps generalizing index with
  | nil => rfl
  | cons step steps ih =>
    rw [List.foldl_cons, ih, apply_eq_insertAll, recordedPairs, recordedPairs,
      List.flatMap_cons, insertAll_append]

theorem build_eq_insertAll (steps : List IndexStep) :
    build steps = empty.insertAll (recordedPairs steps) := foldl_apply empty steps

/-! ### Candidates -/

theorem candidates?_insert (index : TypeIndex) (simple fqn name : String) :
    (index.insert simple fqn).candidates? name =
      if name == simple then some (addNew fqn ((index.candidates? simple).getD []))
      else index.candidates? name :=
  Table.get?_alter _ _ _ _

theorem contains_iff {index : TypeIndex} {name fqn : String} :
    index.contains name fqn = true ↔
      ∃ known, index.candidates? name = some known ∧ fqn ∈ known := by
  unfold contains
  cases index.candidates? name <;> simp

theorem contains_insert (index : TypeIndex) (simple fqn name other : String) :
    (index.insert simple fqn).contains name other = true ↔
      index.contains name other = true ∨ (name, other) = (simple, fqn) := by
  rw [contains, candidates?_insert, Prod.mk.injEq]
  by_cases hname : name = simple
  · subst hname
    simp [contains, mem_addNew]
  · simp [contains, hname]

/-- The candidates are those that were there before and those of the pairs. -/
theorem contains_insertAll (index : TypeIndex) (pairs : List (String × String))
    (name fqn : String) :
    (index.insertAll pairs).contains name fqn = true ↔
      index.contains name fqn = true ∨ (name, fqn) ∈ pairs := by
  induction pairs generalizing index with
  | nil => simp [insertAll]
  | cons pair pairs ih =>
    have hrest := ih (index.insert pair.1 pair.2)
    rw [contains_insert] at hrest
    rw [List.mem_cons, ← or_assoc]
    exact hrest

theorem contains_build (steps : List IndexStep) (name fqn : String) :
    (build steps).contains name fqn = true ↔ (name, fqn) ∈ recordedPairs steps := by
  have hempty : empty.contains name fqn = false := rfl
  rw [build_eq_insertAll, contains_insertAll, hempty]
  simp

/-- Indexes that record the same pairs have the same candidates. -/
theorem contains_build_congr {first second : List IndexStep}
    (h : ∀ pair, pair ∈ recordedPairs first ↔ pair ∈ recordedPairs second)
    (name fqn : String) : (build first).contains name fqn = (build second).contains name fqn := by
  rw [Bool.eq_iff_iff, contains_build, contains_build]
  exact h (name, fqn)

/-! ### The only candidate -/

theorem unique?_eq_some_iff_candidates? {index : TypeIndex} {name found : String} :
    index.unique? name = some found ↔ index.candidates? name = some [found] := by
  unfold unique?
  split
  · next only hknown => rw [hknown, Option.some_inj, Option.some_inj, List.singleton_inj]
  · next hseveral =>
    constructor
    · exact nofun
    · intro hknown
      exact absurd hknown (hseveral found)

/-- Every name that is listed has candidates, and each of them once. -/
def IsTidy (index : TypeIndex) : Prop :=
  ∀ name known, index.candidates? name = some known → known ≠ [] ∧ known.Nodup

theorem isTidy_empty : empty.IsTidy := by
  intro name known h
  cases h

theorem IsTidy.insert {index : TypeIndex} (h : index.IsTidy) (simple fqn : String) :
    (index.insert simple fqn).IsTidy := by
  intro name known hknown
  rw [candidates?_insert] at hknown
  split at hknown
  · obtain rfl := Option.some.inj hknown
    have hmem : fqn ∈ addNew fqn ((index.candidates? simple).getD []) :=
      mem_addNew.2 (Or.inr rfl)
    refine ⟨List.ne_nil_of_mem hmem, nodup_addNew ?_⟩
    cases hold : index.candidates? simple with
    | none => exact List.nodup_nil
    | some old => exact (h simple old hold).2
  · exact h name known hknown

theorem IsTidy.insertAll {index : TypeIndex} (h : index.IsTidy)
    (pairs : List (String × String)) : (index.insertAll pairs).IsTidy := by
  induction pairs generalizing index with
  | nil => exact h
  | cons pair pairs ih => exact ih (h.insert pair.1 pair.2)

theorem isTidy_build (steps : List IndexStep) : (build steps).IsTidy := by
  rw [build_eq_insertAll]
  exact isTidy_empty.insertAll _

/-- The only candidate is the one that all candidates equal. -/
theorem unique?_eq_some_iff {index : TypeIndex} (h : index.IsTidy) (name fqn : String) :
    index.unique? name = some fqn ↔
      index.contains name fqn = true ∧ ∀ other, index.contains name other = true → other = fqn := by
  simp only [contains_iff]
  unfold unique?
  cases hknown : index.candidates? name with
  | none => simp
  | some known =>
    obtain ⟨hne, hnodup⟩ := h name known hknown
    match known with
    | [] => exact absurd rfl hne
    | [single] => simp [eq_comm]
    | one :: two :: others =>
      -- no candidate is recorded twice, so two of them differ
      have hdiffer : one ≠ two := by
        simp only [List.nodup_cons, List.mem_cons, not_or] at hnodup
        exact hnodup.1.1
      simp only [Option.some.injEq, exists_eq_left', reduceCtorEq, false_iff, not_and]
      intro _ hall
      exact hdiffer ((hall one (by simp)).trans (hall two (by simp)).symm)

theorem contains_of_unique? {index : TypeIndex} {name fqn : String}
    (h : index.unique? name = some fqn) : index.contains name fqn = true :=
  contains_iff.2 ⟨[fqn], unique?_eq_some_iff_candidates?.1 h, List.mem_singleton_self fqn⟩

/-- Indexes with the same candidates know the same only candidates. -/
theorem unique?_eq_of_contains {first second : TypeIndex} (hfirst : first.IsTidy)
    (hsecond : second.IsTidy)
    (h : ∀ name fqn, first.contains name fqn = second.contains name fqn) (name : String) :
    first.unique? name = second.unique? name := by
  refine Option.ext fun fqn => ?_
  rw [unique?_eq_some_iff hfirst, unique?_eq_some_iff hsecond, h]
  simp only [h]

end TypeIndex

end RpcBinder
