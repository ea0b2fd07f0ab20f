import Mathlib.Data.Option.Basic
import RpcBinder.Proofs.Pattern.Finds

/-!
# What parts of a match hold

Whatever way a match takes through a pattern, it takes characters that the pattern allows.  So
the text of a named part consists of characters that the body of the part allows, in any text
that is searched.

## Main definitions

* `Pattern.Within` — a pattern takes characters of one class, and its parts those of their own.
* `Passes` — what a match with such a pattern does, whatever follows it.

## Main results

* `Pattern.Within.passes` — a match with such a pattern does no more than that.
* `Pattern.Within.forall_mem_part` — all characters of a part that is found are of its class.
-/

namespace RpcBinder

variable {κ : Type} {q r : Char → Bool} {p : κ → Option (Char → Bool)} {place : Cursor}

/-! ### Passing over a text -/

/-- Parts hold characters of their classes; a name without a class names none. -/
def AreWithin (p : κ → Option (Char → Bool)) (spans : List (κ × Span)) : Prop :=
  ∀ span ∈ spans, ∃ r, p span.1 = some r ∧ ∀ c ∈ span.2.text, r c = true

theorem areWithin_nil (p : κ → Option (Char → Bool)) : AreWithin p [] :=
  List.forall_mem_nil _

/-- A trail passes over characters of a class, records parts within their classes, and goes on
behind them. -/
def Passes (q : Char → Bool) (p : κ → Option (Char → Bool)) (place : Cursor)
    (follow : Cursor → Option (Trail κ)) (trail : Trail κ) : Prop :=
  ∃ s rest spans later, place.rest = s ++ rest ∧ (∀ c ∈ s, q c = true) ∧ AreWithin p spans ∧
    follow (place.behind s) = some later ∧ trail = later.record spans

namespace Passes

variable {follow further : Cursor → Option (Trail κ)} {trail : Trail κ}

/-- To go on at once is to pass over nothing. -/
theorem here (h : follow place = some trail) : Passes q p place follow trail :=
  ⟨[], place.rest, [], trail, rfl, List.forall_mem_nil _, areWithin_nil p, h, rfl⟩

theorem trans (h : Passes q p place further trail)
    (hfurther : ∀ next later, further next = some later → Passes q p next follow later) :
    Passes q p place follow trail := by
  obtain ⟨s, rest, spans, later, hplace, hs, hspans, hlater, rfl⟩ := h
  obtain ⟨t, rest', spans', last, hnext, ht, hspans', hlast, rfl⟩ := hfurther _ _ hlater
  rw [Cursor.rest_behind hplace] at hnext
  subst hnext
  refine ⟨s ++ t, rest', spans ++ spans', last, by rw [hplace, List.append_assoc],
    List.forall_mem_append.2 ⟨hs, ht⟩, List.forall_mem_append.2 ⟨hspans, hspans'⟩, ?_,
    (Trail.record_append _ _ _).symm⟩
  rw [Cursor.behind_append hplace]
  exact hlast

theorem of_past (hr : ∀ c, r c = true → q c = true) (h : place.past r follow = some trail) :
    Passes q p place follow trail := by
  cases hplace : place.rest with
  | nil =>
    rw [Cursor.past, Cursor.next?_eq_none_of_rest hplace] at h
    cases h
  | cons c rest =>
    rw [Pattern.past_of_rest hplace, Option.ite_none_right_eq_some] at h
    obtain ⟨hc, hfollow⟩ := h
    exact ⟨[c], rest, [], trail, hplace, List.forall_mem_singleton.2 (hr c hc),
      areWithin_nil p, hfollow, rfl⟩

end Passes

/-! ### Patterns within classes -/

namespace Pattern

/-- A pattern takes characters of the class `q` only, and each of its parts those of its own
class as well.  Parts have no parts in them. -/
def Within (q : Char → Bool) (p : κ → Option (Char → Bool)) : Pattern κ → Prop
  | .empty => True
  | .lineStart => True
  | .lineEnd => True
  | .one r => ∀ c, r c = true → q c = true
  | .stretch r => ∀ c, r c = true → q c = true
  | .seq first second => first.Within q p ∧ second.Within q p
  | .either first second => first.Within q p ∧ second.Within q p
  | .many body => body.Within q p
  | .part name body =>
      ∃ r, p name = some r ∧ body.Within (fun c => q c && r c) fun _ => none

section Combinators

variable {first second body : Pattern κ}

@[simp] theorem within_append :
    (first ++ second).Within q p ↔ first.Within q p ∧ second.Within q p := Iff.rfl

@[simp] theorem within_stretch :
    (stretch r : Pattern κ).Within q p ↔ ∀ c, r c = true → q c = true := Iff.rfl

@[simp] theorem within_one :
    (one r : Pattern κ).Within q p ↔ ∀ c, r c = true → q c = true := Iff.rfl

@[simp] theorem within_stretch1 :
    (stretch1 r : Pattern κ).Within q p ↔ ∀ c, r c = true → q c = true := and_self_iff

@[simp] theorem within_maybe : (maybe body).Within q p ↔ body.Within q p := and_iff_left trivial

@[simp] theorem within_many : (many body).Within q p ↔ body.Within q p := Iff.rfl

@[simp] theorem within_lineStart : (lineStart : Pattern κ).Within q p := trivial

@[simp] theorem within_lineEnd : (lineEnd : Pattern κ).Within q p := trivial

@[simp] theorem within_part {name : κ} :
    (part name body).Within q p ↔
      ∃ r, p name = some r ∧ body.Within (fun c => q c && r c) fun _ => none := Iff.rfl

@[simp] theorem within_literal {s : List Char} :
    (literal s : Pattern κ).Within q p ↔ ∀ c ∈ s, q c = true := by
  induction s with
  | nil => simp [literal, Within]
  | cons c s ih =>
    cases s with
    | nil => simp [literal]
    | cons d s => rw [literal_cons_cons, within_append, ih, within_one]; simp

@[simp] theorem within_anyOf {words : List String} :
    (anyOf words : Pattern κ).Within q p ↔ ∀ word ∈ words, ∀ c ∈ word.toList, q c = true := by
  induction words with
  | nil => simp [anyOf]
  | cons word words ih =>
    cases words with
    | nil => simp [anyOf]
    | cons other words =>
      have hwords : (anyOf (word :: other :: words) : Pattern κ).Within q p ↔
          (literal word.toList : Pattern κ).Within q p ∧
            (anyOf (other :: words) : Pattern κ).Within q p := Iff.rfl
      rw [hwords, within_literal, ih, List.forall_mem_cons (a := word)]

end Combinators

/-! ### Matches -/

section Matches

variable {body pattern : Pattern κ} {follow : Cursor → Option (Trail κ)} {trail : Trail κ}

/-- A round of a repetition passes over what its body does, and so do all rounds together. -/
theorem passes_many
    (hbody : ∀ {place follow trail}, body.run place follow = some trail →
      Passes q p place follow trail)
    (hrun : (many body).run place follow = some trail) : Passes q p place follow trail := by
  induction hleft : place.left using Nat.strongRecOn generalizing place trail with
  | ind left ih =>
    rw [run_many, Option.orElse_eq_some] at hrun
    -- a round moves on, so the induction is on what is left of the text
    rcases hrun with hround | ⟨-, hstop⟩
    · refine (hbody hround).trans fun next later hnext => ?_
      obtain ⟨hlt, hlater⟩ := Option.ite_none_right_eq_some.1 hnext
      exact ih next.left (hleft ▸ hlt) hlater rfl
    · exact .here hstop

/-- A stretch is a repetition of single characters. -/
theorem run_stretch_eq_run_many (r : Char → Bool) (place : Cursor)
    (follow : Cursor → Option (Trail κ)) :
    (stretch r).run place follow = (many (one r)).run place follow := by
  induction hleft : place.left using Nat.strongRecOn generalizing place with
  | ind left ih =>
    rw [run_stretch, run_many]
    congr 1
    refine Cursor.past_congr r place fun c next hnext => ?_
    have hlt := Cursor.left_lt_of_next? hnext
    rw [if_pos hlt]
    exact ih next.left (hleft ▸ hlt) next rfl

theorem passes_part {name : κ} (hr : p name = some r)
    (h : Passes (fun c => q c && r c) (fun _ => none) place
      (fun stop => (follow stop).map (Trail.endPart name stop)) trail) :
    Passes q p place follow (trail.beginPart name place) := by
  obtain ⟨s, rest, spans, later, hplace, hs, hspans, hlater, rfl⟩ := h
  simp only [Bool.and_eq_true] at hs
  -- no name has a class in the body of a part, so it recorded nothing
  obtain rfl : spans = [] := List.eq_nil_iff_forall_not_mem.2 fun span hmem => by
    obtain ⟨r, hnone, -⟩ := hspans span hmem
    cases hnone
  obtain ⟨last, hlast, rfl⟩ := Option.map_eq_some_iff.1 hlater
  refine ⟨s, rest, [(name, ⟨place, place.behind s⟩)], last, hplace, fun c hc => (hs c hc).1,
    List.forall_mem_singleton.2 ⟨r, hr, fun c hc => ?_⟩, hlast, rfl⟩
  rw [Span.text_behind hplace] at hc
  exact (hs c hc).2

/-- **A match takes what its pattern allows**, whatever has to follow. -/
theorem Within.passes (h : pattern.Within q p) (hrun : pattern.run place follow = some trail) :
    Passes q p place follow trail := by
  induction pattern generalizing q p place follow trail with
  | empty => exact .here hrun
  | lineStart => exact .here (Option.ite_none_right_eq_some.1 hrun).2
  | lineEnd => exact .here (Option.ite_none_right_eq_some.1 hrun).2
  | one r => exact .of_past h hrun
  | stretch r =>
    -- a stretch is a repetition of single characters
    rw [run_stretch_eq_run_many] at hrun
    have hround {place follow trail} (hone : (one r).run place follow = some trail) :
        Passes q p place follow trail := .of_past h hone
    exact passes_many hround hrun
  | seq first second ihfirst ihsecond =>
    exact (ihfirst h.1 hrun).trans fun next later hnext => ihsecond h.2 hnext
  | either first second ihfirst ihsecond =>
    rw [run, Option.orElse_eq_some] at hrun
    rcases hrun with hrun | ⟨-, hrun⟩
    · exact ihfirst h.1 hrun
    · exact ihsecond h.2 hrun
  | many body ih => exact passes_many (fun hround => ih h hround) hrun
  | part name body ih =>
    obtain ⟨r, hr, hbody⟩ := h
    obtain ⟨inner, hinner, rfl⟩ := Option.map_eq_some_iff.1 hrun
    exact passes_part hr (ih hbody hinner)

theorem mem_of_mem_disjoint {answers : List (Cursor × Option (Trail κ))} {left : Nat}
    {found : Match κ} (h : found ∈ disjoint left answers) :
    (found.start, some found.trail) ∈ answers := by
  induction answers generalizing left with
  | nil => cases h
  | cons answer answers ih =>
    obtain ⟨place, trail?⟩ := answer
    cases trail? with
    | none => exact List.mem_cons_of_mem _ (ih h)
    | some trail =>
      rw [disjoint] at h
      split at h
      · rcases List.mem_cons.1 h with rfl | h
        · exact List.mem_cons_self
        · exact List.mem_cons_of_mem _ (ih h)
      · exact List.mem_cons_of_mem _ (ih h)

/-- A match that is found is the preferred one from its place on. -/
theorem run_of_mem_findAll {text : List Char} {found : Match κ}
    (h : found ∈ pattern.findAll text) :
    pattern.run found.start accept = some found.trail := by
  have hmem := mem_of_mem_disjoint h
  rw [sweep_eq] at hmem
  obtain ⟨place, -, heq⟩ := List.mem_map.1 hmem
  obtain ⟨rfl, htrail⟩ := Prod.mk.inj heq
  exact htrail

/-- **The characters of a part that is found** are of its class. -/
theorem Within.forall_mem_part [BEq κ] [LawfulBEq κ] (h : pattern.Within q p) {name : κ}
    (hr : p name = some r) {text : List Char} {found : Match κ}
    (hmem : found ∈ pattern.findAll text) : ∀ c ∈ found.part name, r c = true := by
  have hrun := run_of_mem_findAll hmem
  obtain ⟨start, trail⟩ := found
  obtain ⟨s, rest, spans, later, -, -, hspans, hlater, htrail⟩ := h.passes hrun
  dsimp only at htrail hlater
  subst htrail
  obtain rfl := Option.some.inj hlater
  intro c hc
  rw [Match.part, Match.part?_record] at hc
  -- what the name captures is the text of a span that was recorded under it
  cases hpart : (partTexts spans).lookup name with
  | none =>
    rw [hpart] at hc
    cases hc
  | some t =>
    rw [hpart] at hc
    obtain ⟨front, back, hsplit, -⟩ := List.lookup_eq_some_iff.1 hpart
    have hmem : (name, t) ∈ partTexts spans := by simp [hsplit]
    obtain ⟨span, hspan, heq⟩ := List.mem_map.1 hmem
    obtain ⟨rfl, rfl⟩ := Prod.mk.inj heq
    obtain ⟨r', hr', hall⟩ := hspans span hspan
    obtain rfl := Option.some.inj (hr.symm.trans hr')
    exact hall c hc

end Matches

end Pattern

end RpcBinder
