import RpcBinder.Proofs.Bytes.Comments
import RpcBinder.Proofs.Lexis.Parens

/-!
# The closing parenthesis byte by byte

The search over bytes counts the parentheses that are open, the first one included, and takes one
from them at each that closes.  It comes to a closing one only while the first is open, so the
number is not zero there.

## Main definitions

* `closingFrom?`, `closingParenBytes?` — the search, which may fail or find nothing.

## Main results

* `closingFrom?_utf8` — from every place on the search finds what that over characters does.
* `closingParenBytes?_eq` — **neither an index nor the count of parentheses fails**, whatever
  offset the search begins at.
-/

namespace RpcBinder.Lexis

/-- The search from an offset on, where `depth` parentheses are open and `quote` ends the literal
that is open.  What it finds is an offset or nothing; it fails if an index or a difference does. -/
def closingFrom? (bytes : List UInt8) (depth : Nat) (quote : Option UInt8) (i : Nat) :
    Option (Option Nat) :=
  if i < bytes.length then do
    let b ← bytes[i]?
    match quote with
    | some q =>
        if b == '\\'.toUInt8 then closingFrom? bytes depth quote (i + 2)
        else closingFrom? bytes depth (if b == q then none else quote) (i + 1)
    | none =>
        if b == '"'.toUInt8 || b == '\''.toUInt8 then closingFrom? bytes depth (some b) (i + 1)
        else if b == '('.toUInt8 then closingFrom? bytes (depth + 1) none (i + 1)
        else if b == ')'.toUInt8 then
          let depth ← sub? depth 1
          if depth == 0 then return some i else closingFrom? bytes depth none (i + 1)
        else closingFrom? bytes depth none (i + 1)
  else some none
termination_by bytes.length - i

/-- The search for the parenthesis that closes the one at an offset. -/
def closingParenBytes? (bytes : List UInt8) (opening : Nat) : Option (Option Nat) :=
  if bytes[opening]? == some '('.toUInt8 then closingFrom? bytes 0 none opening else some none

section Steps

variable {bytes after : List UInt8} {b : UInt8} {i : Nat}

theorem closingFrom?_quoted (h : bytes.drop i = b :: after) (depth : Nat) (q : UInt8) :
    closingFrom? bytes depth (some q) i =
      if b == '\\'.toUInt8 then closingFrom? bytes depth (some q) (i + 2)
      else closingFrom? bytes depth (if b == q then none else some q) (i + 1) := by
  rw [closingFrom?, if_pos (lt_length_of_drop_eq h), getElem?_of_drop_eq h]
  rfl

theorem closingFrom?_code (h : bytes.drop i = b :: after) (depth : Nat) :
    closingFrom? bytes depth none i =
      if b == '"'.toUInt8 || b == '\''.toUInt8 then closingFrom? bytes depth (some b) (i + 1)
      else if b == '('.toUInt8 then closingFrom? bytes (depth + 1) none (i + 1)
      else if b == ')'.toUInt8 then
        (sub? depth 1).bind fun depth =>
          if depth == 0 then some (some i) else closingFrom? bytes depth none (i + 1)
      else closingFrom? bytes depth none (i + 1) := by
  rw [closingFrom?, if_pos (lt_length_of_drop_eq h), getElem?_of_drop_eq h]
  rfl

/-- A high byte is passed over. -/
theorem closingFrom?_high (h : bytes.drop i = b :: after) (hb : 0x80 ≤ b) (depth : Nat)
    {quote : Option Char} (hquote : ∀ q ∈ quote, q.toNat < 0x80) :
    closingFrom? bytes depth (quote.map Char.toUInt8) i =
      closingFrom? bytes depth (quote.map Char.toUInt8) (i + 1) := by
  cases quote with
  | none =>
    rw [Option.map_none, closingFrom?_code h]
    simp (disch := decide) only [ne_of_high hb, Bool.or_self, Bool.false_eq_true, if_false]
  | some q =>
    rw [Option.map_some, closingFrom?_quoted h, ne_of_high hb (by decide),
      ne_of_high hb (hquote q rfl)]
    rfl

end Steps

/-- The search over bytes finds what the search over characters does from all places on that are
less than `left` bytes in front of the end. -/
def FindsAlike (bytes : List UInt8) (left : Nat) : Prop :=
  ∀ {high : List UInt8} {text : List Char} {quote : Option Char} {outer i : Nat},
    bytes.drop i = high ++ utf8 text → IsHigh high → (∀ q ∈ quote, q.toNat < 0x80) →
      bytes.length - i < left →
        closingFrom? bytes (outer + 1) (quote.map Char.toUInt8) i =
          some (closingFrom (i + high.length) outer quote text)

section Characters

variable {bytes trail : List UInt8} {lead : UInt8} {c : Char} {rest : List Char} {i outer : Nat}

/-- A character is passed over with its first byte if it changes nothing. -/
theorem FindsAlike.high (ih : FindsAlike bytes (bytes.length - i)) {quote : Option Char}
    (hdrop : bytes.drop i = lead :: (trail ++ utf8 rest)) (hhigh : IsHigh (lead :: trail))
    (hsize : (lead :: trail).length = c.utf8Size) (hquote : ∀ q ∈ quote, q.toNat < 0x80)
    (hpass : closingFrom i outer quote (c :: rest) =
      closingFrom (i + c.utf8Size) outer quote rest) :
    closingFrom? bytes (outer + 1) (quote.map Char.toUInt8) i =
      some (closingFrom i outer quote (c :: rest)) := by
  obtain ⟨hlead, htrail⟩ := List.forall_mem_cons.1 hhigh
  have hlt := lt_length_of_drop_eq hdrop
  rw [closingFrom?_high hdrop hlead _ hquote, hpass,
    ih (drop_succ_of_drop_eq hdrop) htrail hquote (by omega), ← hsize, List.length_cons,
    Nat.add_assoc, Nat.add_comm 1]

theorem FindsAlike.quoted (ih : FindsAlike bytes (bytes.length - i)) {q : Char}
    (hq : q.toNat < 0x80) (hc : c.toNat < 0x80) (hdrop : bytes.drop i = c.toUInt8 :: utf8 rest) :
    closingFrom? bytes (outer + 1) (some q.toUInt8) i =
      some (closingFrom i outer (some q) (c :: rest)) := by
  have hlt := lt_length_of_drop_eq hdrop
  have hrest := drop_succ_of_drop_eq hdrop
  have hsize : c.utf8Size = 1 := utf8Size_of_lt hc
  rw [closingFrom?_quoted hdrop, toUInt8_beq hc (by decide), toUInt8_beq hc hq]
  -- an escape over bytes ends within the next character, and what is left of that one is high
  by_cases hback : c = '\\'
  · subst hback
    rw [if_pos (beq_self_eq_true _)]
    cases rest with
    | nil =>
      have hle : bytes.length ≤ i + 2 := by
        have := List.drop_eq_nil_iff.1 hrest
        omega
      rw [closingFrom?, if_neg (Nat.not_lt_of_le hle), closingFrom_backslash]
    | cons d rest =>
      obtain ⟨lead, trail, hbytes, hencoded⟩ := exists_isEncoded d
      rw [utf8_cons, hbytes, List.cons_append] at hrest
      have hd : (lead :: trail).length = d.utf8Size := hbytes ▸ String.length_utf8EncodeChar d
      have hnext := @ih trail rest (some q) outer (i + 2) (drop_succ_of_drop_eq hrest)
        hencoded.isHigh_trail (by simpa using hq) (by omega)
      have hplace : i + 1 + d.utf8Size = i + 2 + trail.length := by
        rw [← hd, List.length_cons]
        omega
      rw [closingFrom_escape, hsize, hplace]
      exact hnext
  · -- otherwise the literal ends at its own quote and nowhere else
    have hnext := @ih [] rest (if c = q then none else some q) outer (i + 1) hrest isHigh_nil
      (by split <;> simp [hq]) (by omega)
    rw [if_neg (by simpa using hback), closingFrom_quoted hback, hsize]
    rw [List.length_nil, Nat.add_zero] at hnext
    rw [← hnext]
    by_cases hend : c = q <;> simp [hend]

theorem FindsAlike.code (ih : FindsAlike bytes (bytes.length - i)) (hc : c.toNat < 0x80)
    (hdrop : bytes.drop i = c.toUInt8 :: utf8 rest) :
    closingFrom? bytes (outer + 1) none i = some (closingFrom i outer none (c :: rest)) := by
  have hlt := lt_length_of_drop_eq hdrop
  have hnext {quote : Option Char} (outer : Nat) (hquote : ∀ q ∈ quote, q.toNat < 0x80) :
      closingFrom? bytes (outer + 1) (quote.map Char.toUInt8) (i + 1) =
        some (closingFrom (i + c.utf8Size) outer quote rest) := by
    rw [utf8Size_of_lt hc]
    exact ih (drop_succ_of_drop_eq hdrop) isHigh_nil hquote (by omega)
  simp (disch := decide) only [closingFrom?_code hdrop, toUInt8_beq hc]
  by_cases hclose : c = ')'
  · subst hclose
    -- the first parenthesis is open, so one may be taken
    rw [if_neg (by decide), if_neg (by decide), if_pos (by decide), sub?_succ_one,
      Option.bind_some]
    cases outer with
    | zero => rfl
    | succ outer =>
      rw [closingFrom_close_inner]
      exact @hnext none outer nofun
  rw [closingFrom_code hclose]
  by_cases hquote : c = '"' ∨ c = '\''
  · have hopen : c ≠ '(' := by rcases hquote with rfl | rfl <;> decide
    rw [if_pos (by simpa using hquote), if_neg hopen, if_pos hquote]
    exact @hnext (some c) outer (by simpa using hc)
  rw [if_neg (by simpa using hquote), if_neg hquote]
  by_cases hopen : c = '('
  · rw [if_pos (by simpa using hopen), if_pos hopen]
    exact @hnext none (outer + 1) nofun
  · rw [if_neg (by simpa using hopen), if_neg (by simpa using hclose), if_neg hopen]
    exact @hnext none outer nofun

end Characters

/-- From every place on the search finds what the search over characters does.  Never does it come
to a closing parenthesis with none open. -/
theorem closingFrom?_utf8 {bytes high : List UInt8} {text : List Char} {quote : Option Char}
    {outer i : Nat} (hdrop : bytes.drop i = high ++ utf8 text) (hhigh : IsHigh high)
    (hquote : ∀ q ∈ quote, q.toNat < 0x80) :
    closingFrom? bytes (outer + 1) (quote.map Char.toUInt8) i =
      some (closingFrom (i + high.length) outer quote text) := by
  -- strong induction on the bytes left, since an escape passes two of them
  induction hleft : bytes.length - i using Nat.strongRecOn
    generalizing high text quote outer i with
  | ind left ih =>
    have ih : FindsAlike bytes (bytes.length - i) :=
      fun hdrop hhigh hquote hlt => ih _ (hleft ▸ hlt) hdrop hhigh hquote rfl
    cases high with
    | cons b high =>
      -- within a character, where the search finds nothing that it asks for
      obtain ⟨hb, hhigh⟩ := List.forall_mem_cons.1 hhigh
      rw [List.cons_append] at hdrop
      have hlt := lt_length_of_drop_eq hdrop
      rw [closingFrom?_high hdrop hb _ hquote,
        ih (drop_succ_of_drop_eq hdrop) hhigh hquote (by omega), List.length_cons, Nat.add_assoc,
        Nat.add_comm 1]
    | nil =>
      rw [List.nil_append] at hdrop
      rw [List.length_nil, Nat.add_zero]
      cases text with
      | nil =>
        have hle : bytes.length ≤ i := List.drop_eq_nil_iff.1 hdrop
        rw [closingFrom?, if_neg (Nat.not_lt_of_le hle), closingFrom_nil]
      | cons c rest =>
        obtain ⟨lead, trail, hbytes, hencoded⟩ := exists_isEncoded c
        have hsize : (lead :: trail).length = c.utf8Size :=
          hbytes ▸ String.length_utf8EncodeChar c
        rw [utf8_cons, hbytes, List.cons_append] at hdrop
        cases hencoded with
        | ascii hc =>
          cases quote with
          | none => exact ih.code hc hdrop
          | some q => exact ih.quoted (hquote q rfl) hc hdrop
        | high hc hhigh =>
          have hne := ne_of_le_toNat hc
          refine ih.high hdrop hhigh hsize hquote ?_
          cases quote with
          | none => rw [closingFrom_code (hne _ (by decide))]; simp [hne]
          | some q => rw [closingFrom_quoted (hne _ (by decide)), if_neg (hne q (hquote q rfl))]

/-- Around the closing parenthesis stands all of the text. -/
theorem eq_append_of_splitClosingFrom {outer : Nat} {quote : Option Char}
    {text inner after : List Char} (h : splitClosingFrom outer quote text = some (inner, after)) :
    text = inner ++ ')' :: after := by
  fun_induction splitClosingFrom outer quote text generalizing inner after with
  | case1 => cases h
  | case4 rest =>
    obtain ⟨rfl, rfl⟩ := Prod.mk.inj (Option.some.inj h)
    rfl
  | case2 | case3 | case5 | case6 =>
    rename_i ih
    -- a character that is passed over stands in front of what is found further on
    obtain ⟨⟨inner, after⟩, hrest, heq⟩ := Option.map_eq_some_iff.1 h
    obtain ⟨rfl, rfl⟩ := Prod.mk.inj heq
    rw [ih hrest]
    rfl

/-- Between two parentheses, and behind the second one, the text can be cut. -/
theorem exists_closingParen? {rest block after : List Char}
    (h : splitClosing rest = some (block, after)) (before : List Char) :
    ∃ close, closingParen? (before ++ '(' :: rest) (byteLength before) = some close ∧
      slice? (before ++ '(' :: rest) (byteLength before + 1) close = some block ∧
      slice? (before ++ '(' :: rest) (close + 1) (byteLength (before ++ '(' :: rest)) =
        some after := by
  obtain rfl := eq_append_of_splitClosingFrom h
  refine ⟨byteLength before + 1 + byteLength block, ?_, slice?_enclosed before block after rfl,
    slice?_behind before block after rfl rfl⟩
  rw [closingParen?, dropBytes?_byteLength_append]
  exact congrArg (Option.map _) h

theorem drop_utf8_append (before : List Char) (d : Char) (rest : List Char) (hd : d.toNat < 0x80) :
    (utf8 (before ++ d :: rest)).drop (byteLength before) = d.toUInt8 :: utf8 rest := by
  rw [utf8_append, ← length_utf8, List.drop_left, utf8_cons_of_lt hd]

/-- **Neither an index nor the count of parentheses fails**, whatever offset the search begins at,
and it finds what the search over characters does. -/
theorem closingParenBytes?_eq (text : List Char) (opening : Nat) :
    closingParenBytes? (utf8 text) opening = some (closingParen? text opening) := by
  by_cases hopening : (utf8 text)[opening]? = some '('.toUInt8
  · rw [closingParenBytes?, if_pos (beq_iff_eq.2 hopening)]
    obtain ⟨before, rest, rfl, rfl⟩ := exists_of_getElem?_utf8 (by decide) hopening
    have hdrop := drop_utf8_append before '(' rest (by decide)
    have hopen : closingFrom? (utf8 (before ++ '(' :: rest)) 0 none (byteLength before) =
        closingFrom? (utf8 (before ++ '(' :: rest)) 1 none (byteLength before + 1) :=
      closingFrom?_code hdrop 0
    have hnext := @closingFrom?_utf8 _ [] rest none 0 _ (drop_succ_of_drop_eq hdrop) isHigh_nil
      nofun
    rw [hopen, closingParen?_append]
    exact hnext
  · -- no parenthesis opens at this offset, so neither search begins
    rw [closingParenBytes?, if_neg (mt beq_iff_eq.1 hopening), closingParen?]
    split
    · next rest hdrop =>
      obtain ⟨before, rfl, rfl⟩ := exists_of_dropBytes?_eq_some hdrop
      exact absurd (getElem?_of_drop_eq (drop_utf8_append before '(' rest (by decide))) hopening
    · rfl

end RpcBinder.Lexis
