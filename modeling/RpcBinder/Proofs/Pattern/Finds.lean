import Mathlib.Data.List.Forall2
import RpcBinder.Proofs.Pattern.Reads

/-!
# What searching a text finds

A search goes from place to place, takes a match where there is one, and goes on behind it.
`Finds` describes it by the texts at these places, as a list of what is found.

## Main definitions

* `Pattern.searchFrom` — the matches from a place on.
* `Found`, `Found.Describes` — a match as texts.
* `Pattern.Finds` — what searching a text finds.
* `Pattern.IsClear` — a text in which nothing is found.

## Main results

* `Pattern.searchFrom_of_misses`, `Pattern.searchFrom_of_run` — one step of a search.
* `Pattern.Finds.forall₂_findAll` — all matches in a text are what searching it finds.
-/

namespace RpcBinder

/-! ### Places onward -/

namespace Cursor

theorem onward_of_next? {place next : Cursor} {c : Char} (h : place.next? = some (c, next)) :
    place.onward = place :: next.onward := by
  rw [onward.eq_def]
  split
  · next d next' hn =>
    rw [h] at hn
    cases hn
    rfl
  · next hn => rw [h] at hn; cases hn

theorem onward_of_end {place : Cursor} (h : place.next? = none) : place.onward = [place] := by
  rw [onward.eq_def]
  split
  · next d next' hn => rw [h] at hn; cases hn
  · rfl

/-- Further on there is not more text left. -/
theorem left_le_of_mem_onward {place later : Cursor} (h : later ∈ place.onward) :
    later.left ≤ place.left := by
  fun_induction Cursor.onward place with
  | case1 place c next hn ih =>
    have hlt := left_lt_of_next? hn
    rcases List.mem_cons.1 h with rfl | h
    · omega
    · have := ih h
      omega
  | case2 place hn => exact Nat.le_of_eq (congrArg left (List.mem_singleton.1 h))

end Cursor

namespace Pattern

variable {κ : Type} {pattern : Pattern κ}

/-! ### Steps of a search -/

/-- What `disjoint` is asked for at the places from a place on. -/
def answersFrom (pattern : Pattern κ) (place : Cursor) : List (Cursor × Option (Trail κ)) :=
  place.onward.map fun place => (place, pattern.run place accept)

/-- The matches from a place on, each after the one before it. -/
def searchFrom (pattern : Pattern κ) (place : Cursor) : List (Match κ) :=
  disjoint place.left (pattern.answersFrom place)

theorem findAll_eq (pattern : Pattern κ) (text : List Char) :
    pattern.findAll text = pattern.searchFrom (Cursor.ofText text) := by
  rw [findAll, sweep_eq]
  rfl

/-- A bound says nothing as long as no place lies beyond it. -/
theorem disjoint_congr {answers : List (Cursor × Option (Trail κ))} {left left' : Nat}
    (h : ∀ answer ∈ answers, answer.1.left ≤ left ∧ answer.1.left ≤ left') :
    disjoint left answers = disjoint left' answers := by
  induction answers with
  | nil => rfl
  | cons answer answers ih =>
    obtain ⟨place, trail?⟩ := answer
    have hrest := ih fun answer hmem => h answer (List.mem_cons_of_mem _ hmem)
    obtain ⟨hle, hle'⟩ := h _ List.mem_cons_self
    cases trail? with
    | none => exact hrest
    | some trail =>
      -- behind a match the bound is where the match ends, on both sides
      rw [disjoint, disjoint, if_pos hle, if_pos hle']

theorem left_le_of_mem_answersFrom {place : Cursor} {answer : Cursor × Option (Trail κ)}
    (h : answer ∈ pattern.answersFrom place) : answer.1.left ≤ place.left := by
  unfold answersFrom at h
  obtain ⟨later, hlater, rfl⟩ := List.mem_map.1 h
  exact Cursor.left_le_of_mem_onward hlater

/-- From the place on that the bound stands for, a bounded search is a search. -/
theorem disjoint_answersFrom {place : Cursor} {left : Nat} (h : place.left ≤ left) :
    disjoint left (pattern.answersFrom place) = pattern.searchFrom place := by
  refine disjoint_congr fun answer hmem => ?_
  have := left_le_of_mem_answersFrom hmem
  omega

/-- Places in front of the bound are passed over. -/
theorem disjoint_behind {place : Cursor} {s rest : List Char} (h : place.rest = s ++ rest) :
    disjoint (place.behind s).left (pattern.answersFrom place) =
      pattern.searchFrom (place.behind s) := by
  induction s generalizing place with
  | nil => rfl
  | cons c s ih =>
    obtain ⟨next, hnext, hrest⟩ := Cursor.exists_next?_of_rest h
    have hlt : (next.behind s).left < place.left := by
      rw [Cursor.left_behind hrest, place.left_eq, h, byteLength_append, byteLength_cons]
      have := c.utf8Size_pos
      omega
    -- the answer here lies in front of the bound, so it does not count
    have hpass : ∀ answer : Option (Trail κ), disjoint (next.behind s).left
        ((place, answer) :: pattern.answersFrom next) =
          disjoint (next.behind s).left (pattern.answersFrom next) := by
      intro answer
      cases answer with
      | none => rfl
      | some trail => rw [disjoint, if_neg (by omega)]
    rw [Cursor.behind_cons hnext]
    unfold answersFrom at hpass ⊢
    rw [Cursor.onward_of_next? hnext, List.map_cons, hpass]
    exact ih hrest

/-- A place without a match is passed over. -/
theorem searchFrom_of_none {place : Cursor} {c : Char} {rest : List Char}
    (h : place.rest = c :: rest) (hnone : pattern.run place accept = none) :
    pattern.searchFrom place = pattern.searchFrom (place.behind [c]) := by
  obtain ⟨next, hnext, hrest⟩ := Cursor.exists_next?_of_rest h
  have hlt := Cursor.left_lt_of_next? hnext
  rw [Cursor.behind_cons hnext, Cursor.behind_nil, ← disjoint_answersFrom (Nat.le_of_lt hlt)]
  unfold searchFrom answersFrom
  rw [Cursor.onward_of_next? hnext, List.map_cons, hnone]
  rfl

theorem searchFrom_of_none_nil {place : Cursor} (h : place.rest = [])
    (hnone : pattern.run place accept = none) : pattern.searchFrom place = [] := by
  unfold searchFrom answersFrom
  rw [Cursor.onward_of_end (Cursor.next?_eq_none_of_rest h), List.map_singleton, hnone]
  rfl

theorem searchFrom_of_misses {place : Cursor} {c : Char} {rest : List Char}
    (h : place.rest = c :: rest) (hmiss : pattern.Misses (c :: rest)) :
    pattern.searchFrom place = pattern.searchFrom (place.behind [c]) :=
  searchFrom_of_none h (hmiss place h accept)

theorem searchFrom_of_misses_nil {place : Cursor} (h : place.rest = [])
    (hmiss : pattern.Misses []) : pattern.searchFrom place = [] :=
  searchFrom_of_none_nil h (hmiss place h accept)

/-- Behind a match the search goes on at its end. -/
theorem searchFrom_of_run {place : Cursor} {s rest : List Char} {trail : Trail κ}
    (h : place.rest = s ++ rest) (hne : s ≠ []) (hrun : pattern.run place accept = some trail)
    (hstop : trail.stop = place.behind s) :
    pattern.searchFrom place = ⟨place, trail⟩ :: pattern.searchFrom (place.behind s) := by
  obtain ⟨c, s, rfl⟩ := List.exists_cons_of_ne_nil hne
  obtain ⟨next, hnext, hrest⟩ := Cursor.exists_next?_of_rest h
  rw [Cursor.behind_cons hnext] at hstop ⊢
  rw [← disjoint_behind hrest, ← hstop]
  unfold searchFrom answersFrom
  rw [Cursor.onward_of_next? hnext, List.map_cons, hrun, disjoint, if_pos (Nat.le_refl _)]

end Pattern

/-! ### What is found -/

/-- A match as texts. -/
structure Found (κ : Type) where
  /-- The text from its begin on. -/
  start : List Char
  /-- The text from its end on. -/
  stop : List Char
  /-- Its parts. -/
  parts : List (κ × List Char)

/-- The match has these texts. -/
structure Found.Describes {κ : Type} [BEq κ] (found : Found κ) (actual : Match κ) : Prop where
  start : actual.start.rest = found.start
  stop : actual.stop.rest = found.stop
  part? : ∀ name, actual.part? name = found.parts.lookup name

theorem Found.Describes.left {κ : Type} [BEq κ] {found : Found κ} {actual : Match κ}
    (h : found.Describes actual) : actual.start.left = byteLength found.start := by
  rw [actual.start.left_eq, h.start]

namespace Pattern

variable {κ : Type} {pattern : Pattern κ}

/-- What searching a text finds. -/
inductive Finds (pattern : Pattern κ) : List Char → List (Found κ) → Prop
  /-- Nothing at the end of the text. -/
  | nil (h : pattern.Misses []) : Finds pattern [] []
  /-- Nothing here, and what is found further on. -/
  | skip {c : Char} {text : List Char} {founds : List (Found κ)} (h : pattern.Misses (c :: text))
      (hrest : Finds pattern text founds) : Finds pattern (c :: text) founds
  /-- A match, and what is found behind it. -/
  | take {s rest : List Char} {parts : List (κ × List Char)} {founds : List (Found κ)}
      (h : pattern.Reads s rest parts) (hne : s ≠ []) (hrest : Finds pattern rest founds) :
      Finds pattern (s ++ rest) (⟨s ++ rest, rest, parts⟩ :: founds)

/-- In front of `rest` the pattern matches at no place of `s`. -/
def IsClear (pattern : Pattern κ) : List Char → List Char → Prop
  | [], _ => True
  | c :: s, rest => pattern.Misses (c :: (s ++ rest)) ∧ IsClear pattern s rest

theorem isClear_of_forall {s : List Char} (h : ∀ c ∈ s, ∀ rest, pattern.Misses (c :: rest))
    (rest : List Char) : pattern.IsClear s rest := by
  induction s with
  | nil => exact trivial
  | cons c s ih =>
    obtain ⟨hc, hs⟩ := List.forall_mem_cons.1 h
    exact ⟨hc _, ih hs⟩

theorem IsClear.append {s t rest : List Char} (hs : pattern.IsClear s (t ++ rest))
    (ht : pattern.IsClear t rest) : pattern.IsClear (s ++ t) rest := by
  induction s with
  | nil => exact ht
  | cons c s ih =>
    rw [IsClear, ← List.append_assoc] at hs
    exact ⟨hs.1, ih hs.2⟩

/-- Nothing is found in a clear text. -/
theorem IsClear.finds {s text : List Char} {founds : List (Found κ)} (hs : pattern.IsClear s text)
    (h : Finds pattern text founds) : Finds pattern (s ++ text) founds := by
  induction s with
  | nil => exact h
  | cons c s ih => exact .skip hs.1 (ih hs.2)

/-- Nothing is found where the pattern misses at every place. -/
theorem Finds.append {s text : List Char} {founds : List (Found κ)}
    (h : ∀ c ∈ s, ∀ rest, pattern.Misses (c :: rest)) (hrest : Finds pattern text founds) :
    Finds pattern (s ++ text) founds :=
  (isClear_of_forall h text).finds hrest

/-- What is found begins in the text. -/
theorem Finds.byteLength_start_le {text : List Char} {founds : List (Found κ)}
    (h : pattern.Finds text founds) :
    ∀ found ∈ founds, byteLength found.start ≤ byteLength text := by
  induction h with
  | nil hmiss => exact List.forall_mem_nil _
  | @skip c text founds hmiss hrest ih =>
    intro found hmem
    rw [byteLength_cons]
    exact Nat.le_add_left_of_le (ih found hmem)
  | @take s rest parts founds hreads hne hrest ih =>
    refine List.forall_mem_cons.2 ⟨Nat.le_refl _, ?_⟩
    intro found hmem
    rw [byteLength_append]
    exact Nat.le_add_left_of_le (ih found hmem)

/-- Searching from a place on goes through its text. -/
theorem Finds.forall₂_searchFrom [BEq κ] {text : List Char} {founds : List (Found κ)}
    (h : Finds pattern text founds) {place : Cursor} (hplace : place.rest = text) :
    List.Forall₂ Found.Describes founds (pattern.searchFrom place) := by
  -- the search ends, goes one character on, or takes a match and goes on behind it
  induction h generalizing place with
  | nil hmiss =>
    rw [searchFrom_of_misses_nil hplace hmiss]
    exact List.Forall₂.nil
  | @skip c text founds hmiss hrest ih =>
    rw [searchFrom_of_misses hplace hmiss]
    exact ih (Cursor.rest_behind (s := [c]) hplace)
  | @take s rest parts founds hreads hne hrest ih =>
    obtain ⟨found, hmatch, hstart, hstop, hparts⟩ := hreads.matchAt?_eq hplace
    obtain ⟨trail, hrun, rfl⟩ := Option.map_eq_some_iff.1 hmatch
    have hbehind : (place.behind s).rest = rest := Cursor.rest_behind hplace
    rw [searchFrom_of_run hplace hne hrun hstop]
    refine List.Forall₂.cons ⟨hplace, ?_, hparts⟩ (ih hbehind)
    rw [hstop, hbehind]

/-- **All matches in a text are what searching it finds.** -/
theorem Finds.forall₂_findAll [BEq κ] {text : List Char} {founds : List (Found κ)}
    (h : Finds pattern text founds) :
    List.Forall₂ Found.Describes founds (pattern.findAll text) := by
  rw [findAll_eq]
  exact h.forall₂_searchFrom rfl

end Pattern

end RpcBinder
