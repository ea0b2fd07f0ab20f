import Mathlib.Data.Finset.Card
import Mathlib.Logic.ExistsUnique
import RpcBinder.Proofs.Scope.TypeIndex

/-!
# The books of an index

After any series of steps an index lists the names that the steps recorded, and for each of them
the types recorded for it, once each and in the order in which they first came.  Since the order
is that of the first time, later steps only add to the end of a list: neither a declaration nor
the built-in types move what is there, whenever and however often they are recorded.

## Main definitions

* `typesOf`, `recordedFor` — the types that pairs, or the steps of a series, record for a name.
* `Standing`, `TypeIndex.HasStanding` — what an index knows of a name.

## Main results

* `TypeIndex.keys_insertAll`, `TypeIndex.getD_candidates?_insertAll` — what one pair after the
  other makes of the names and of the candidates.
* `TypeIndex.IsTidy.existsUnique_standing` — a name has one standing.
* `TypeIndex.getD_candidates?_build`, `TypeIndex.size_build`, `TypeIndex.candidates?_build_prefix`
  — what a series of steps makes of them, and that it only adds to a list's end.
* `TypeIndex.bookkeeping_build` — the books after a whole series of steps.
-/

namespace RpcBinder

/-- The qualified names that pairs hold for a simple name, in order and with repetitions. -/
def typesOf (name : String) (pairs : List (String × String)) : List String :=
  (pairs.filter fun pair => pair.1 == name).map Prod.snd

/-- The qualified names that steps record for a simple name, in order and with repetitions. -/
def recordedFor (name : String) (steps : List IndexStep) : List String :=
  steps.flatMap fun step => typesOf name step.pairs

/-- What an index can know of a name. -/
inductive Standing
  /-- Nothing. -/
  | absent
  /-- The one type that it stands for. -/
  | unique
  /-- Several types. -/
  | ambiguous
  deriving DecidableEq, Repr, Inhabited

/-! ### What steps record -/

theorem typesOf_append (name : String) (first second : List (String × String)) :
    typesOf name (first ++ second) = typesOf name first ++ typesOf name second := by
  rw [typesOf, List.filter_append, List.map_append]
  rfl

theorem typesOf_recordedPairs (name : String) (steps : List IndexStep) :
    typesOf name (recordedPairs steps) = recordedFor name steps := by
  induction steps with
  | nil => rfl
  | cons step steps ih =>
    rw [recordedPairs, List.flatMap_cons, typesOf_append, recordedFor, List.flatMap_cons]
    exact congrArg _ ih

theorem recordedFor_append (name : String) (first second : List IndexStep) :
    recordedFor name (first ++ second) = recordedFor name first ++ recordedFor name second :=
  List.flatMap_append

namespace TypeIndex

/-- What the index says of a name when it is asked in one of three ways. -/
def HasStanding (index : TypeIndex) (name : String) : Standing → Prop
  | .absent => index.candidates? name = none
  | .unique => ∃ fqn, index.unique? name = some fqn
  | .ambiguous => index.isAmbiguous name = true

/-! ### Names and candidates, pair by pair -/

/-- One more pair adds its name, if it is new. -/
theorem keys_insert (index : TypeIndex) (simple fqn : String) :
    (index.insert simple fqn).candidates.keys = addNew simple index.candidates.keys :=
  Table.keys_alter _ _ _

/-- The names of an index are those of the pairs, in order of their first pair. -/
theorem keys_insertAll (pairs : List (String × String)) :
    (empty.insertAll pairs).candidates.keys = (pairs.map Prod.fst).eraseDups := by
  induction pairs using List.reverseRecOn with
  | nil => rfl
  | append_singleton pairs pair ih =>
    rw [insertAll_append, List.map_append, List.map_singleton, eraseDups_concat, ← ih]
    exact keys_insert _ _ _

/-- The candidates of a name are the types of its pairs, in order of their first pair. -/
theorem getD_candidates?_insertAll (pairs : List (String × String)) (name : String) :
    ((empty.insertAll pairs).candidates? name).getD [] = (typesOf name pairs).eraseDups := by
  induction pairs using List.reverseRecOn with
  | nil => rfl
  | append_singleton pairs pair ih =>
    have hinsert : empty.insertAll (pairs ++ [pair]) =
        (empty.insertAll pairs).insert pair.1 pair.2 := insertAll_append _ _ _
    rw [hinsert, candidates?_insert, typesOf_append]
    -- a pair counts for its own name only
    by_cases hname : name = pair.1
    · subst hname
      have hpair : typesOf pair.1 [pair] = [pair.2] := by simp [typesOf]
      rw [hpair, eraseDups_concat, ← ih, beq_self_eq_true, if_pos rfl, Option.getD_some]
    · have hpair : typesOf name [pair] = [] := by simp [typesOf, Ne.symm hname]
      rw [hpair, List.append_nil, ← ih, beq_eq_false_iff_ne.2 hname]
      rfl

/-! ### The standing of a name -/

theorem isSome_candidates?_iff {index : TypeIndex} (h : index.IsTidy) (name : String) :
    (index.candidates? name).isSome = true ↔ ∃ fqn, index.contains name fqn = true := by
  simp only [contains_iff]
  cases hknown : index.candidates? name with
  | none => simp
  | some known =>
    obtain ⟨fqn, hmem⟩ := List.exists_mem_of_ne_nil known (h name known hknown).1
    exact ⟨fun _ => ⟨fqn, known, rfl, hmem⟩, fun _ => rfl⟩

/-- The three ways of asking exclude each other, and one of them always gets an answer. -/
theorem IsTidy.existsUnique_standing {index : TypeIndex} (h : index.IsTidy) (name : String) :
    ∃! standing, index.HasStanding name standing := by
  cases hknown : index.candidates? name with
  | none =>
    refine ⟨.absent, hknown, fun standing hstanding => ?_⟩
    cases standing with
    | absent => rfl
    | unique => simp [HasStanding, unique?, hknown] at hstanding
    | ambiguous => simp [HasStanding, isAmbiguous, hknown] at hstanding
  | some known =>
    -- one candidate makes the name unique, two make it ambiguous
    match known, (h name known hknown).1 with
    | [fqn], _ =>
      refine ⟨.unique, ⟨fqn, unique?_eq_some_iff_candidates?.2 hknown⟩,
        fun standing hstanding => ?_⟩
      cases standing with
      | absent => simp [HasStanding, hknown] at hstanding
      | unique => rfl
      | ambiguous => simp [HasStanding, isAmbiguous, hknown] at hstanding
    | one :: two :: others, _ =>
      refine ⟨.ambiguous, by simp [HasStanding, isAmbiguous, hknown],
        fun standing hstanding => ?_⟩
      cases standing with
      | absent => simp [HasStanding, hknown] at hstanding
      | unique => simp [HasStanding, unique?, hknown] at hstanding
      | ambiguous => rfl

/-! ### A whole series of steps -/

/-- A name has candidates exactly if a step recorded it. -/
theorem isSome_candidates?_build_iff (steps : List IndexStep) (name : String) :
    ((build steps).candidates? name).isSome = true ↔
      ∃ step ∈ steps, ∃ fqn, (name, fqn) ∈ step.pairs := by
  rw [isSome_candidates?_iff (isTidy_build steps)]
  simp only [contains_build, recordedPairs, List.mem_flatMap]
  constructor
  · rintro ⟨fqn, step, hstep, hpair⟩
    exact ⟨step, hstep, fqn, hpair⟩
  · rintro ⟨step, hstep, fqn, hpair⟩
    exact ⟨fqn, step, hstep, hpair⟩

theorem getD_candidates?_build (steps : List IndexStep) (name : String) :
    ((build steps).candidates? name).getD [] = (recordedFor name steps).eraseDups := by
  rw [build_eq_insertAll, getD_candidates?_insertAll, typesOf_recordedPairs]

theorem size_build (steps : List IndexStep) :
    (build steps).size = ((recordedPairs steps).map Prod.fst).toFinset.card := by
  have hkeys : (build steps).candidates.keys =
      ((recordedPairs steps).map Prod.fst).eraseDups := by
    rw [build_eq_insertAll, keys_insertAll]
  have hsize : (build steps).size = (build steps).candidates.keys.length :=
    (List.length_map _).symm
  have hnames : ((recordedPairs steps).map Prod.fst).eraseDups.toFinset =
      ((recordedPairs steps).map Prod.fst).toFinset := by
    ext name
    simp
  rw [hsize, hkeys, ← List.toFinset_card_of_nodup (nodup_eraseDups _), hnames]

/-- Steps that follow add candidates behind those that are there. -/
theorem candidates?_build_prefix (steps more : List IndexStep) (name : String) :
    ((build steps).candidates? name).getD [] <+:
      ((build (steps ++ more)).candidates? name).getD [] := by
  rw [getD_candidates?_build, getD_candidates?_build, recordedFor_append, List.eraseDups_append]
  exact List.prefix_append _ _

/-- **The books of an index.**  After any series of steps a name has candidates if a step recorded
it, and these are the types recorded for it, once each and in the order in which they first came;
the size is the number of names recorded; a name is absent, unique or ambiguous, and the unique
type is the only candidate.  Whatever steps follow, among them those that seed built-in types, the
candidates of a name stay where they are. -/
theorem bookkeeping_build (steps : List IndexStep) :
    let index := build steps
    (∀ name, (index.candidates? name).isSome = true ↔
      ∃ step ∈ steps, ∃ fqn, (name, fqn) ∈ step.pairs) ∧
    (∀ name, (index.candidates? name).getD [] = (recordedFor name steps).eraseDups) ∧
    index.size = ((recordedPairs steps).map Prod.fst).toFinset.card ∧
    (∀ name, ∃! standing, index.HasStanding name standing) ∧
    (∀ name fqn, index.unique? name = some fqn ↔ index.candidates? name = some [fqn]) ∧
    ∀ more name, (index.candidates? name).getD [] <+:
      ((build (steps ++ more)).candidates? name).getD [] := by
  intro index
  have hone : ∀ name, ∃! standing, index.HasStanding name standing :=
    (isTidy_build steps).existsUnique_standing
  have hunique : ∀ name fqn,
      index.unique? name = some fqn ↔ index.candidates? name = some [fqn] :=
    fun _ _ => unique?_eq_some_iff_candidates?
  exact ⟨isSome_candidates?_build_iff steps, getD_candidates?_build steps, size_build steps, hone,
    hunique, candidates?_build_prefix steps⟩

-- a declared type next to a built-in one of the same name, recorded before it and again after it
example :
    let index := build [.seed [⟨"A", "k.A", false⟩], .declare "p" "A", .insert "B" "q.B",
      .seed [⟨"A", "k.A", false⟩]]
    index.candidates? "A" = some ["k.A", "p.A"] ∧ index.isAmbiguous "A" = true ∧
      index.unique? "B" = some "q.B" ∧ index.size = 2 := by
  decide

end TypeIndex

end RpcBinder
