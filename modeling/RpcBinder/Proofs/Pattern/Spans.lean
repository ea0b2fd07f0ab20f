import RpcBinder.Proofs.Bytes.Cuts
import RpcBinder.Proofs.Pattern.Takes

/-!
# Where the parts of a match lie

A match records where its parts begin and end, as places from which so many bytes are left.  They
all lie onward from the place where the match begins, and each part ends onward from where it
begins, so that the text between the two can be cut out.

This is shown along the run of a pattern.  While the body of a part is matched, the end of the part
has been recorded and its begin has not, so the parts in whose bodies a place lies are set apart.

## Main definitions

* `Trail.IsInOrder` — the places of a trail lie onward, and the parts end behind their begins.
* `Cursor.offset?`, `Match.cut?`, `Match.cutPart?` — the offset of a place, and a part cut out at
  offsets.

## Main results

* `Pattern.isInOrder_run` — every match leaves a trail in order.
* `Match.cut?_eq` — **no cut of a part fails**.
-/

namespace RpcBinder

namespace Cursor

theorem self_mem_onward (place : Cursor) : place ∈ place.onward :=
  mem_onward_iff.2 ⟨[], place.rest, rfl, rfl⟩

theorem mem_onward_trans {place next later : Cursor} (hnext : next ∈ place.onward)
    (hlater : later ∈ next.onward) : later ∈ place.onward := by
  obtain ⟨s, rest, hs, rfl⟩ := mem_onward_iff.1 hnext
  obtain ⟨t, rest', ht, rfl⟩ := mem_onward_iff.1 hlater
  rw [rest_behind hs] at ht
  subst ht
  refine mem_onward_iff.2 ⟨s ++ t, rest', by rw [hs, List.append_assoc], ?_⟩
  rw [behind_append hs]

theorem mem_onward_of_next? {place next : Cursor} {c : Char} (h : place.next? = some (c, next)) :
    next ∈ place.onward := by
  rw [onward_of_next? h]
  exact List.mem_cons_of_mem _ next.self_mem_onward

end Cursor

section Trails

variable {κ : Type} [BEq κ]

/-! ### Trails in order -/

/-- A trail that goes on from a place: what it records lies onward, and every part ends onward from
its begin, those apart that have not begun. -/
structure Trail.IsInOrder (isOpen : κ → Prop) (place : Cursor) (trail : Trail κ) : Prop where
  stop_mem : trail.stop ∈ place.onward
  begins_mem : ∀ entry ∈ trail.begins, entry.2 ∈ place.onward
  ends_mem : ∀ entry ∈ trail.ends, entry.2 ∈ place.onward
  stop_mem_start : ∀ name start stop, ¬ isOpen name → trail.begins.lookup name = some start →
    trail.ends.lookup name = some stop → stop ∈ start.onward

/-- What is followed leaves a trail in order, from wherever it goes on. -/
def Pattern.FollowsInOrder (isOpen : κ → Prop) (place : Cursor)
    (follow : Cursor → Option (Trail κ)) : Prop :=
  ∀ next ∈ place.onward, ∀ trail, follow next = some trail → trail.IsInOrder isOpen next

variable {isOpen : κ → Prop} {place next : Cursor} {trail : Trail κ} {name : κ}

theorem Trail.IsInOrder.mono (h : trail.IsInOrder isOpen next) (hnext : next ∈ place.onward) :
    trail.IsInOrder isOpen place where
  stop_mem := Cursor.mem_onward_trans hnext h.stop_mem
  begins_mem entry hentry := Cursor.mem_onward_trans hnext (h.begins_mem entry hentry)
  ends_mem entry hentry := Cursor.mem_onward_trans hnext (h.ends_mem entry hentry)
  stop_mem_start := h.stop_mem_start

theorem Pattern.FollowsInOrder.onward {follow : Cursor → Option (Trail κ)}
    (h : FollowsInOrder isOpen place follow) (hnext : next ∈ place.onward) :
    FollowsInOrder isOpen next follow :=
  fun later hlater => h later (Cursor.mem_onward_trans hnext hlater)

namespace Pattern

variable {follow : Cursor → Option (Trail κ)} {body : Pattern κ}

theorem isInOrder_past {p : Char → Bool} (hfollow : FollowsInOrder isOpen place follow)
    (hrun : place.past p follow = some trail) : trail.IsInOrder isOpen place := by
  unfold Cursor.past at hrun
  split at hrun
  · next c next hnext =>
    have hmem := Cursor.mem_onward_of_next? hnext
    exact (hfollow next hmem trail (Option.ite_none_right_eq_some.1 hrun).2).mono hmem
  · cases hrun

theorem isInOrder_many
    (hbody : ∀ {place follow trail}, FollowsInOrder isOpen place follow →
      body.run place follow = some trail → trail.IsInOrder isOpen place)
    (hfollow : FollowsInOrder isOpen place follow)
    (hrun : (many body).run place follow = some trail) : trail.IsInOrder isOpen place := by
  -- each round leaves less of the text
  induction hleft : place.left using Nat.strongRecOn generalizing place trail with
  | ind left ih =>
    rw [run_many, Option.orElse_eq_some] at hrun
    rcases hrun with hround | ⟨-, hstop⟩
    · refine hbody (fun next hnext later hlater => ?_) hround
      obtain ⟨hlt, hlater⟩ := Option.ite_none_right_eq_some.1 hlater
      exact ih next.left (hleft ▸ hlt) (hfollow.onward hnext) hlater rfl
    · exact hfollow place place.self_mem_onward trail hstop

end Pattern

variable [LawfulBEq κ]

theorem mem_of_lookup_eq_some {α : Type} {entries : List (κ × α)} {a : α}
    (h : entries.lookup name = some a) : (name, a) ∈ entries := by
  obtain ⟨front, back, rfl, -⟩ := List.lookup_eq_some_iff.1 h
  exact List.mem_append_right _ List.mem_cons_self

namespace Trail.IsInOrder

/-- The end of a part is recorded before its begin. -/
theorem endPart (h : trail.IsInOrder isOpen place) (name : κ) :
    (trail.endPart name place).IsInOrder (fun other => other = name ∨ isOpen other) place where
  stop_mem := h.stop_mem
  begins_mem := h.begins_mem
  ends_mem := List.forall_mem_cons.2 ⟨place.self_mem_onward, h.ends_mem⟩
  stop_mem_start := by
    intro other start stop hopen hstart hstop
    obtain ⟨hne, hopen⟩ := not_or.1 hopen
    rw [Trail.endPart, List.lookup_cons, beq_eq_false_iff_ne.2 hne] at hstop
    exact h.stop_mem_start other start stop hopen hstart hstop

/-- The begin of a part lies in front of everything recorded so far. -/
theorem beginPart (h : trail.IsInOrder (fun other => other = name ∨ isOpen other) place) :
    (trail.beginPart name place).IsInOrder isOpen place where
  stop_mem := h.stop_mem
  begins_mem := List.forall_mem_cons.2 ⟨place.self_mem_onward, h.begins_mem⟩
  ends_mem := h.ends_mem
  stop_mem_start := by
    intro other start stop hopen hstart hstop
    by_cases heq : other = name
    · subst heq
      rw [Trail.beginPart, List.lookup_cons, beq_self_eq_true, Option.some.injEq] at hstart
      exact hstart ▸ h.ends_mem _ (mem_of_lookup_eq_some hstop)
    · rw [Trail.beginPart, List.lookup_cons, beq_eq_false_iff_ne.2 heq] at hstart
      exact h.stop_mem_start other start stop (not_or.2 ⟨heq, hopen⟩) hstart hstop

end Trail.IsInOrder

/-! ### Matches -/

/-- **Every match leaves a trail in order.** -/
theorem Pattern.isInOrder_run {pattern : Pattern κ} {follow : Cursor → Option (Trail κ)}
    (hfollow : FollowsInOrder isOpen place follow)
    (hrun : pattern.run place follow = some trail) : trail.IsInOrder isOpen place := by
  induction pattern generalizing isOpen place follow trail with
  | empty => exact hfollow place place.self_mem_onward trail hrun
  | lineStart =>
    exact hfollow place place.self_mem_onward trail (Option.ite_none_right_eq_some.1 hrun).2
  | lineEnd =>
    exact hfollow place place.self_mem_onward trail (Option.ite_none_right_eq_some.1 hrun).2
  | one p => exact isInOrder_past hfollow hrun
  | stretch p =>
    -- a stretch is a repetition of single characters
    rw [run_stretch_eq_run_many] at hrun
    have hround {place follow trail} (hfollow : FollowsInOrder isOpen place follow)
        (hone : (one p).run place follow = some trail) : trail.IsInOrder isOpen place :=
      isInOrder_past hfollow hone
    exact isInOrder_many hround hfollow hrun
  | seq first second ihfirst ihsecond =>
    refine ihfirst (fun next hnext later hlater => ?_) hrun
    exact ihsecond (hfollow.onward hnext) hlater
  | either first second ihfirst ihsecond =>
    rw [run, Option.orElse_eq_some] at hrun
    rcases hrun with hrun | ⟨-, hrun⟩
    · exact ihfirst hfollow hrun
    · exact ihsecond hfollow hrun
  | many body ih => exact isInOrder_many ih hfollow hrun
  | part name body ih =>
    obtain ⟨inner, hinner, rfl⟩ := Option.map_eq_some_iff.1 hrun
    refine (ih (fun next hnext later hlater => ?_) hinner).beginPart
    obtain ⟨last, hlast, rfl⟩ := Option.map_eq_some_iff.1 hlater
    exact (hfollow next hnext last hlast).endPart name

/-! ### Parts cut out -/

/-- The offset of a place in a text. -/
def Cursor.offset? (text : List Char) (place : Cursor) : Option Nat :=
  sub? (byteLength text) place.left

/-- A named part of a match in a text, if the match has it, cut out between its offsets. -/
def Match.cut? (text : List Char) (found : Match κ) (name : κ) : Option (Option (List Char)) :=
  match found.trail.begins.lookup name, found.trail.ends.lookup name with
  | some start, some stop => do
      let part ← slice? text (← start.offset? text) (← stop.offset? text)
      return some part
  | _, _ => some none

/-- A named part of a match cut out, empty if the match does not have it. -/
def Match.cutPart? (text : List Char) (found : Match κ) (name : κ) : Option (List Char) :=
  (found.cut? text name).map (·.getD [])

theorem Cursor.offset?_eq {place : Cursor} {before text : List Char}
    (h : before ++ place.rest = text) : place.offset? text = some (byteLength before) := by
  have hlength : byteLength text = byteLength before + place.left := by
    rw [← h, byteLength_append, place.left_eq]
  rw [Cursor.offset?, hlength, sub?_of_le (Nat.le_add_left _ _), Nat.add_sub_cancel]

/-- **No cut of a part fails**: the offsets of a part are places of the text, in order. -/
theorem Match.cut?_eq {pattern : Pattern κ} {text : List Char} {found : Match κ}
    (hstart : found.start ∈ (Cursor.ofText text).onward)
    (hrun : pattern.run found.start Pattern.accept = some found.trail) (name : κ) :
    found.cut? text name = some (found.part? name) := by
  have haccept : Pattern.FollowsInOrder (fun _ : κ => False) found.start Pattern.accept := by
    rintro next - trail ⟨⟩
    exact ⟨next.self_mem_onward, by simp, by simp, by simp⟩
  have horder := Pattern.isInOrder_run haccept hrun
  unfold Match.cut? Match.part?
  cases hbegin : found.trail.begins.lookup name with
  | none => rfl
  | some start =>
    cases hend : found.trail.ends.lookup name with
    | none => rfl
    | some stop =>
      -- the capture begins in the text and ends no earlier than it begins
      have hmem := horder.begins_mem _ (mem_of_lookup_eq_some hbegin)
      obtain ⟨before, hbefore⟩ :=
        Cursor.exists_liesBehind (Cursor.mem_onward_trans hstart hmem)
      obtain ⟨s, rest, hs, rfl⟩ :=
        Cursor.mem_onward_iff.1 (horder.stop_mem_start name start stop id hbegin hend)
      have htext : before ++ s ++ rest = text := by
        rw [List.append_assoc, ← hs, hbefore.text_eq]
      have hslice := slice?_middle before s rest
      rw [htext] at hslice
      have hspan := Span.text_behind hs
      simp only [Cursor.offset?_eq hbefore.text_eq, Cursor.offset?_eq (hbefore.behind hs).text_eq,
        Option.bind_eq_bind, Option.bind_some, hslice, hspan]
      rfl

theorem Match.cut?_of_mem_findAll {pattern : Pattern κ} {text : List Char} {found : Match κ}
    (h : found ∈ pattern.findAll text) (name : κ) :
    found.cut? text name = some (found.part? name) :=
  cut?_eq ((Pattern.sublist_findAll pattern text).subset (List.mem_map_of_mem h))
    (Pattern.run_of_mem_findAll h) name

theorem Match.cutPart?_of_mem_findAll {pattern : Pattern κ} {text : List Char} {found : Match κ}
    (h : found ∈ pattern.findAll text) (name : κ) :
    found.cutPart? text name = some (found.part name) := by
  rw [cutPart?, cut?_of_mem_findAll h]
  rfl

theorem Match.cutPart?_of_matchAt? {pattern : Pattern κ} {text : List Char} {found : Match κ}
    (h : pattern.matchAt? (Cursor.ofText text) = some found) (name : κ) :
    found.cutPart? text name = some (found.part name) := by
  obtain ⟨trail, hrun, rfl⟩ := Option.map_eq_some_iff.1 h
  rw [cutPart?, cut?_eq (Cursor.ofText text).self_mem_onward hrun]
  rfl

end Trails

end RpcBinder
