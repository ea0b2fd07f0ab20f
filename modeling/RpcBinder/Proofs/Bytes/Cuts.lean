import Mathlib.Data.List.Basic
import RpcBinder.Proofs.Bytes.Utf8

/-!
# Cuts that may fail

A number is only taken from one that is not smaller, a series is only cut at an offset that it
reaches, and a text only where a character begins or the text ends.

## Main definitions

* `sub?` — a difference.
* `from?` — what is left of a series from an offset on.
* `slice?` — a text between two offsets in bytes.

## Main results

* `slice?_eq_some_iff` — the cuts of a text that do not fail.
-/

namespace RpcBinder

/-- The difference of two numbers, of which the second must not be greater. -/
def sub? (a b : Nat) : Option Nat :=
  if b ≤ a then some (a - b) else none

theorem sub?_of_le {a b : Nat} (h : b ≤ a) : sub? a b = some (a - b) := if_pos h

theorem getD_sub? (a b : Nat) : (sub? a b).getD 0 = a - b := by
  unfold sub?
  split
  · rfl
  · next h => exact (Nat.sub_eq_zero_of_le (Nat.le_of_not_le h)).symm

@[simp] theorem sub?_succ_one (n : Nat) : sub? (n + 1) 1 = some n :=
  sub?_of_le (Nat.le_add_left 1 n)

/-! ### Series -/

section Series

variable {α : Type} {units rest : List α} {unit : α} {i : Nat}

/-- What is left of a series from an offset on, which must not lie behind its end. -/
def from? (units : List α) (start : Nat) : Option (List α) :=
  if start ≤ units.length then some (units.drop start) else none

theorem getElem?_of_drop_eq (h : units.drop i = unit :: rest) : units[i]? = some unit := by
  rw [← Nat.add_zero i, ← List.getElem?_drop, h]
  rfl

theorem lt_length_of_drop_eq (h : units.drop i = unit :: rest) : i < units.length :=
  (List.getElem?_eq_some_iff.1 (getElem?_of_drop_eq h)).1

theorem drop_succ_of_drop_eq (h : units.drop i = unit :: rest) : units.drop (i + 1) = rest := by
  rw [← List.drop_drop, h]
  rfl

theorem from?_of_drop_eq (h : units.drop i = unit :: rest) :
    from? units (i + 1) = some rest := by
  rw [from?, if_pos (Nat.succ_le_of_lt (lt_length_of_drop_eq h)), drop_succ_of_drop_eq h]

end Series

/-! ### Texts -/

/-- The text between two offsets in bytes.  Neither may lie within a character or behind the end
of the text, nor the first behind the second. -/
def slice? (text : List Char) (start stop : Nat) : Option (List Char) := do
  let _ ← dropBytes? stop text
  dropBytes? start (takeBytes stop text)

theorem exists_of_dropBytes?_eq_some {offset : Nat} {text rest : List Char}
    (h : dropBytes? offset text = some rest) :
    ∃ before, text = before ++ rest ∧ byteLength before = offset := by
  induction text generalizing offset with
  | nil =>
    cases offset with
    | zero => exact ⟨[], by simpa using h, rfl⟩
    | succ offset => cases h
  | cons c text ih =>
    cases offset with
    | zero => exact ⟨[], by simpa using h, rfl⟩
    | succ offset =>
      rw [dropBytes?, Option.ite_none_right_eq_some] at h
      obtain ⟨hsize, hrest⟩ := h
      obtain ⟨before, rfl, hbefore⟩ := ih hrest
      refine ⟨c :: before, rfl, ?_⟩
      rw [byteLength_cons, hbefore]
      omega

/-- **A cut does not fail** where the offsets are those of two places of the text, in order. -/
theorem slice?_eq_some_iff {text part : List Char} {start stop : Nat} :
    slice? text start stop = some part ↔ ∃ before after, text = before ++ part ++ after ∧
      byteLength before = start ∧ byteLength before + byteLength part = stop := by
  constructor
  · intro h
    obtain ⟨after, hstop, hstart⟩ := Option.bind_eq_some_iff.1 h
    obtain ⟨front, rfl, rfl⟩ := exists_of_dropBytes?_eq_some hstop
    rw [takeBytes_byteLength_append] at hstart
    obtain ⟨before, rfl, hbefore⟩ := exists_of_dropBytes?_eq_some hstart
    exact ⟨before, after, rfl, hbefore, (byteLength_append before part).symm⟩
  · rintro ⟨before, after, rfl, rfl, rfl⟩
    rw [slice?, ← byteLength_append, dropBytes?_byteLength_append, takeBytes_byteLength_append]
    exact dropBytes?_byteLength_append before part

example : slice? "aß(".toList 1 2 = none := by decide

example : slice? "aß(".toList 3 1 = none := by decide

/-! ### Cuts at places that were found -/

theorem slice?_front (s t : List Char) : slice? (s ++ t) 0 (byteLength s) = some s :=
  slice?_eq_some_iff.2 ⟨[], t, rfl, rfl, Nat.zero_add _⟩

theorem slice?_middle (s t u : List Char) :
    slice? (s ++ t ++ u) (byteLength s) (byteLength (s ++ t)) = some t :=
  slice?_eq_some_iff.2 ⟨s, u, rfl, rfl, (byteLength_append s t).symm⟩

theorem slice?_back (s t : List Char) :
    slice? (s ++ t) (byteLength s) (byteLength (s ++ t)) = some t :=
  slice?_eq_some_iff.2 ⟨s, [], (List.append_nil _).symm, rfl, (byteLength_append s t).symm⟩

section Enclosed

variable {opening closing : Char} (before inner after : List Char)

theorem byteLength_append_cons (h : opening.utf8Size = 1) :
    byteLength (before ++ opening :: inner) = byteLength before + 1 + byteLength inner := by
  rw [byteLength_append, byteLength_cons, h, Nat.add_assoc]

/-- Between two marks of one byte each a text can be cut. -/
theorem slice?_enclosed (h : opening.utf8Size = 1) :
    slice? (before ++ opening :: (inner ++ closing :: after)) (byteLength before + 1)
      (byteLength before + 1 + byteLength inner) = some inner := by
  have hfront : byteLength (before ++ [opening]) = byteLength before + 1 :=
    byteLength_append_cons before [] h
  exact slice?_eq_some_iff.2 ⟨before ++ [opening], closing :: after, by simp, hfront, by rw [hfront]⟩

/-- And behind them it can be. -/
theorem slice?_behind (h : opening.utf8Size = 1) (hclosing : closing.utf8Size = 1) :
    slice? (before ++ opening :: (inner ++ closing :: after))
      (byteLength before + 1 + byteLength inner + 1)
      (byteLength (before ++ opening :: (inner ++ closing :: after))) = some after := by
  have hfront : byteLength (before ++ opening :: inner ++ [closing]) =
      byteLength before + 1 + byteLength inner + 1 := by
    rw [byteLength_append_cons _ _ hclosing, byteLength_append_cons _ _ h]
    rfl
  have hback := slice?_back (before ++ opening :: inner ++ [closing]) after
  rw [hfront] at hback
  simpa using hback

end Enclosed

/-- The offset of the first character of a class. -/
def offsetOf? (p : Char → Bool) : List Char → Option Nat
  | [] => none
  | c :: rest => if p c then some 0 else (offsetOf? p rest).map (c.utf8Size + ·)

/-- The offset of the last character of a class. -/
def lastOffsetOf? (p : Char → Bool) : List Char → Option Nat
  | [] => none
  | c :: rest =>
      match lastOffsetOf? p rest with
      | some offset => some (c.utf8Size + offset)
      | none => if p c then some 0 else none

section Offsets

variable {p : Char → Bool} {text before after : List Char} {c : Char}

theorem offsetOf?_eq_none (h : ∀ c ∈ text, p c = false) : offsetOf? p text = none := by
  induction text with
  | nil => rfl
  | cons c rest ih =>
    obtain ⟨hc, hrest⟩ := List.forall_mem_cons.1 h
    rw [offsetOf?, hc, ih hrest]
    rfl

theorem offsetOf?_append_cons (h : ∀ c ∈ before, p c = false) (hc : p c = true)
    (after : List Char) : offsetOf? p (before ++ c :: after) = some (byteLength before) := by
  induction before with
  | nil => rw [List.nil_append, offsetOf?, if_pos hc, byteLength_nil]
  | cons d before ih =>
    obtain ⟨hd, hbefore⟩ := List.forall_mem_cons.1 h
    rw [List.cons_append, offsetOf?, hd, ih hbefore]
    rfl

theorem lastOffsetOf?_eq_none (h : ∀ c ∈ text, p c = false) : lastOffsetOf? p text = none := by
  induction text with
  | nil => rfl
  | cons c rest ih =>
    obtain ⟨hc, hrest⟩ := List.forall_mem_cons.1 h
    rw [lastOffsetOf?, ih hrest]
    simp [hc]

theorem lastOffsetOf?_append_cons (before : List Char) (hc : p c = true)
    (h : ∀ c ∈ after, p c = false) :
    lastOffsetOf? p (before ++ c :: after) = some (byteLength before) := by
  induction before with
  | nil =>
    rw [List.nil_append, lastOffsetOf?, lastOffsetOf?_eq_none h]
    simp [hc]
  | cons d before ih =>
    rw [List.cons_append, lastOffsetOf?, ih]
    rfl

end Offsets

section Marks

variable {mark : Char} {text before after : List Char}

theorem forall_beq_eq_false (h : mark ∉ text) : ∀ c ∈ text, (c == mark) = false := by
  intro c hc
  rw [beq_eq_false_iff_ne]
  rintro rfl
  exact h hc

theorem offsetOf?_mark_eq_none (h : mark ∉ text) : offsetOf? (· == mark) text = none :=
  offsetOf?_eq_none (forall_beq_eq_false h)

theorem offsetOf?_mark (h : mark ∉ before) (after : List Char) :
    offsetOf? (· == mark) (before ++ mark :: after) = some (byteLength before) :=
  offsetOf?_append_cons (forall_beq_eq_false h) (beq_self_eq_true mark) after

theorem lastOffsetOf?_mark_eq_none (h : mark ∉ text) : lastOffsetOf? (· == mark) text = none :=
  lastOffsetOf?_eq_none (forall_beq_eq_false h)

theorem lastOffsetOf?_mark (before : List Char) (h : mark ∉ after) :
    lastOffsetOf? (· == mark) (before ++ mark :: after) = some (byteLength before) :=
  lastOffsetOf?_append_cons before (beq_self_eq_true mark) (forall_beq_eq_false h)

/-- What a text holds it holds at a last place. -/
theorem exists_last_of_mem (h : mark ∈ text) :
    ∃ before after, text = before ++ mark :: after ∧ mark ∉ after := by
  obtain ⟨after, before, hreverse, hafter⟩ := List.eq_append_cons_of_mem (List.mem_reverse.2 h)
  refine ⟨before.reverse, after.reverse, ?_, by simpa using hafter⟩
  rw [← List.reverse_reverse text, hreverse]
  simp

end Marks

end RpcBinder
