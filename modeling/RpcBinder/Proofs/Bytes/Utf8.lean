import Mathlib.Data.List.Basic
import RpcBinder.FileTree.Basic
import RpcBinder.Text.Bytes

/-!
# The bytes of a text

A scanner that goes over bytes meets each ASCII character as one byte of its own.  All bytes of
another character are above the ASCII ones, so none of them is taken for a character that a
scanner looks for.

## Main definitions

* `utf8` — the bytes of a text.
* `IsHigh` — bytes above the ASCII ones.
* `IsEncoded` — the first byte of a character and those behind it.

## Main results

* `exists_isEncoded` — the bytes of a character are one ASCII byte, or high bytes only.
* `textOfBytes?_utf8` — the bytes of a text make up this text.
-/

namespace RpcBinder

/-- The bytes of a text. -/
def utf8 (text : List Char) : List UInt8 :=
  text.flatMap String.utf8EncodeChar

@[simp] theorem utf8_nil : utf8 [] = [] := rfl

theorem utf8_cons (c : Char) (rest : List Char) :
    utf8 (c :: rest) = String.utf8EncodeChar c ++ utf8 rest := rfl

@[simp] theorem utf8_append (s t : List Char) : utf8 (s ++ t) = utf8 s ++ utf8 t :=
  List.flatMap_append

@[simp] theorem length_utf8 (text : List Char) : (utf8 text).length = byteLength text := by
  induction text with
  | nil => rfl
  | cons c rest ih =>
    rw [utf8_cons, List.length_append, String.length_utf8EncodeChar, ih, byteLength_cons]

/-- The bytes of a text make up this text. -/
theorem textOfBytes?_utf8 (text : List Char) : textOfBytes? (utf8 text) = some text := by
  have hbytes : (⟨(utf8 text).toArray⟩ : ByteArray) = text.utf8Encode :=
    ByteArray.ext List.data_toByteArray.symm
  rw [textOfBytes?, hbytes, String.fromUTF8?, dif_pos ByteArray.isValidUTF8_utf8Encode]
  exact congrArg some String.toList_ofList

/-! ### The bytes of a character -/

/-- All bytes are above the ASCII ones. -/
def IsHigh (bytes : List UInt8) : Prop :=
  ∀ b ∈ bytes, 0x80 ≤ b

/-- The bytes of a character, the first one set apart. -/
inductive IsEncoded (c : Char) : UInt8 → List UInt8 → Prop
  | ascii (h : c.toNat < 0x80) : IsEncoded c c.toUInt8 []
  | high {lead : UInt8} {trail : List UInt8} (h : 0x80 ≤ c.toNat)
      (hbytes : IsHigh (lead :: trail)) : IsEncoded c lead trail

theorem isHigh_nil : IsHigh [] := List.forall_mem_nil _

theorem isHigh_ofNat_cons {n : Nat} {bytes : List UInt8} (hle : 0x80 ≤ n) (hlt : n < 0x100)
    (h : IsHigh bytes) : IsHigh (UInt8.ofNat n :: bytes) := by
  refine List.forall_mem_cons.2 ⟨?_, h⟩
  rw [UInt8.le_iff_toNat_le, UInt8.toNat_ofNat_of_lt' hlt]
  exact hle

/-- A character above the ASCII ones has two, three or four bytes, and all of them are. -/
theorem isHigh_utf8EncodeChar {c : Char} (h : 0x80 ≤ c.toNat) :
    IsHigh (String.utf8EncodeChar c) := by
  have habove : ¬ c.val.toNat ≤ 127 := Nat.not_le_of_lt h
  rw [String.utf8EncodeChar, if_neg habove]
  have hlast := isHigh_ofNat_cons (n := c.val.toNat % 64 + 128) (by omega) (by omega) isHigh_nil
  split
  · exact isHigh_ofNat_cons (by omega) (by omega) hlast
  · have hthird := isHigh_ofNat_cons (n := c.val.toNat / 64 % 64 + 128) (by omega) (by omega) hlast
    split
    · exact isHigh_ofNat_cons (by omega) (by omega) hthird
    · exact isHigh_ofNat_cons (by omega) (by omega)
        (isHigh_ofNat_cons (by omega) (by omega) hthird)

theorem toNat_toUInt8 {c : Char} (h : c.toNat < 0x80) : c.toUInt8.toNat = c.toNat :=
  (UInt32.toNat_toUInt8 c.val).trans (Nat.mod_eq_of_lt (Nat.lt_trans h (by decide)))

theorem utf8Size_of_lt {c : Char} (h : c.toNat < 0x80) : c.utf8Size = 1 :=
  Char.utf8Size_eq_one_iff.2 (UInt32.le_iff_toNat_le.2 (Nat.le_of_lt_succ h))

theorem ne_of_le_toNat {c : Char} (h : 0x80 ≤ c.toNat) (d : Char) (hd : d.toNat < 0x80) :
    c ≠ d := by
  rintro rfl
  omega

/-- A character is one ASCII byte, or high bytes only. -/
theorem exists_isEncoded (c : Char) :
    ∃ lead trail, String.utf8EncodeChar c = lead :: trail ∧ IsEncoded c lead trail := by
  by_cases hascii : c.toNat < 0x80
  · exact ⟨c.toUInt8, [], String.utf8EncodeChar_eq_singleton (utf8Size_of_lt hascii),
      .ascii hascii⟩
  · have hbytes := isHigh_utf8EncodeChar (Nat.le_of_not_lt hascii)
    obtain ⟨lead, trail, heq⟩ := List.exists_cons_of_ne_nil String.utf8EncodeChar_ne_nil
    exact ⟨lead, trail, heq, .high (Nat.le_of_not_lt hascii) (heq ▸ hbytes)⟩

namespace IsEncoded

variable {c d : Char} {lead : UInt8} {trail : List UInt8}

theorem isHigh_trail (h : IsEncoded c lead trail) : IsHigh trail := by
  cases h with
  | ascii => exact isHigh_nil
  | high _ hbytes => exact (List.forall_mem_cons.1 hbytes).2

/-- The first byte tells whether the character is an ASCII character that is looked for. -/
theorem lead_beq (h : IsEncoded c lead trail) (hd : d.toNat < 0x80) :
    (lead == d.toUInt8) = (c == d) := by
  have hdbyte : d.toUInt8.toNat = d.toNat := toNat_toUInt8 hd
  rw [Bool.eq_iff_iff, beq_iff_eq, beq_iff_eq, ← UInt8.toNat_inj, ← Char.toNat_inj, hdbyte]
  cases h with
  | ascii hc => rw [toNat_toUInt8 hc]
  | high hc hbytes =>
    have hlead : 0x80 ≤ lead.toNat := (List.forall_mem_cons.1 hbytes).1
    omega

end IsEncoded

/-- The first byte of a text is an ASCII character if the first character is. -/
theorem head?_utf8_beq {d : Char} (hd : d.toNat < 0x80) (text : List Char) :
    ((utf8 text).head? == some d.toUInt8) = (text.head? == some d) := by
  cases text with
  | nil => rfl
  | cons c rest =>
    obtain ⟨lead, trail, hbytes, hencoded⟩ := exists_isEncoded c
    rw [utf8_cons, hbytes, List.cons_append, List.head?_cons, List.head?_cons,
      Option.some_beq_some, Option.some_beq_some, hencoded.lead_beq hd]

theorem utf8_cons_of_lt {c : Char} (h : c.toNat < 0x80) (rest : List Char) :
    utf8 (c :: rest) = c.toUInt8 :: utf8 rest := by
  obtain ⟨lead, trail, hbytes, hencoded⟩ := exists_isEncoded c
  cases hencoded with
  | ascii => rw [utf8_cons, hbytes, List.singleton_append]
  | high hc => exact absurd h (Nat.not_lt_of_le hc)

/-- The bytes of a text begin with an ASCII word if the text does. -/
theorem isPrefixOf_utf8 {word : List Char} (hword : ∀ c ∈ word, c.toNat < 0x80)
    (text : List Char) : (utf8 word).isPrefixOf (utf8 text) = word.isPrefixOf text := by
  induction word generalizing text with
  | nil => rfl
  | cons d word ih =>
    obtain ⟨hd, hword⟩ := List.forall_mem_cons.1 hword
    rw [utf8_cons_of_lt hd]
    cases text with
    | nil => rfl
    | cons c rest =>
      obtain ⟨lead, trail, hbytes, hencoded⟩ := exists_isEncoded c
      rw [utf8_cons, hbytes, List.cons_append, List.isPrefixOf, List.isPrefixOf,
        Bool.beq_comm, hencoded.lead_beq hd, Bool.beq_comm]
      cases hencoded with
      | ascii => rw [List.nil_append, ih hword]
      | high hc =>
        -- another character, whatever its further bytes are
        have hne : (d == c) = false := by
          rw [beq_eq_false_iff_ne]
          rintro rfl
          omega
        rw [hne, Bool.false_and, Bool.false_and]

/-- **An ASCII byte is a character of its own**: the offset of one that is looked for is the place
of that character. -/
theorem exists_of_getElem?_utf8 {d : Char} (hd : d.toNat < 0x80) {text : List Char} {i : Nat}
    (h : (utf8 text)[i]? = some d.toUInt8) :
    ∃ before rest, text = before ++ d :: rest ∧ byteLength before = i := by
  induction text generalizing i with
  | nil => cases h
  | cons c rest ih =>
    obtain ⟨lead, trail, hbytes, hencoded⟩ := exists_isEncoded c
    have hsize : (lead :: trail).length = c.utf8Size := hbytes ▸ String.length_utf8EncodeChar c
    rw [utf8_cons, hbytes] at h
    by_cases hlt : i < c.utf8Size
    · rw [List.getElem?_append_left (hsize ▸ hlt)] at h
      cases i with
      | zero =>
        have hlead : (lead == d.toUInt8) = true := by simpa using h
        rw [hencoded.lead_beq hd, beq_iff_eq] at hlead
        subst hlead
        exact ⟨[], rest, rfl, rfl⟩
      | succ i =>
        -- the bytes behind the first one are high
        have hmem : d.toUInt8 ∈ trail := List.mem_of_getElem? h
        have hle : 0x80 ≤ d.toUInt8.toNat := hencoded.isHigh_trail _ hmem
        rw [toNat_toUInt8 hd] at hle
        omega
    · rw [List.getElem?_append_right (hsize ▸ Nat.le_of_not_lt hlt), hsize] at h
      obtain ⟨before, rest, rfl, hbefore⟩ := ih h
      refine ⟨c :: before, rest, rfl, ?_⟩
      rw [byteLength_cons, hbefore]
      omega

end RpcBinder
