/-!
# Offsets in bytes

Positions in a text are counted in the bytes of its UTF-8 form.

## Main definitions

* `byteLength` — the size of a text.
* `takeBytes` — a text up to an offset.
* `dropBytes?` — what is left of a text from an offset on.
* `utf8Chars` — the bytes of a text.
-/

namespace RpcBinder

/-- The size of a text in bytes. -/
def byteLength : List Char → Nat
  | [] => 0
  | c :: rest => c.utf8Size + byteLength rest

@[simp] theorem byteLength_nil : byteLength [] = 0 := rfl

@[simp] theorem byteLength_cons (c : Char) (rest : List Char) :
    byteLength (c :: rest) = c.utf8Size + byteLength rest := rfl

@[simp] theorem byteLength_append (s t : List Char) :
    byteLength (s ++ t) = byteLength s + byteLength t := by
  induction s with
  | nil => simp
  | cons c r ih => simp [ih, Nat.add_assoc]

/-- The characters of a text that begin before the offset `n`. -/
def takeBytes : Nat → List Char → List Char
  | 0, _ => []
  | _ + 1, [] => []
  | n + 1, c :: rest => c :: takeBytes (n + 1 - c.utf8Size) rest

/-- Taking the bytes of a first part gives this part. -/
@[simp] theorem takeBytes_byteLength_append (s t : List Char) :
    takeBytes (byteLength s) (s ++ t) = s := by
  induction s with
  | nil => cases t <;> rfl
  | cons c r ih =>
    obtain ⟨n, hn⟩ := Nat.exists_eq_add_one_of_ne_zero
      (Nat.ne_of_gt (Nat.lt_of_lt_of_le c.utf8Size_pos (Nat.le_add_right _ (byteLength r))))
    simp only [byteLength_cons, List.cons_append, hn, takeBytes]
    rw [← hn]
    simpa using ih

/-- The text from the offset `n` on; `none` inside a character or past the end. -/
def dropBytes? : Nat → List Char → Option (List Char)
  | 0, text => some text
  | _ + 1, [] => none
  | n + 1, c :: rest => if c.utf8Size ≤ n + 1 then dropBytes? (n + 1 - c.utf8Size) rest else none

@[simp] theorem dropBytes?_zero (text : List Char) : dropBytes? 0 text = some text := by
  cases text <;> rfl

/-- Dropping the bytes of a first part leaves the second. -/
@[simp] theorem dropBytes?_byteLength_append (s t : List Char) :
    dropBytes? (byteLength s) (s ++ t) = some t := by
  induction s with
  | nil => simp
  | cons c r ih =>
    obtain ⟨n, hn⟩ := Nat.exists_eq_add_one_of_ne_zero
      (Nat.ne_of_gt (Nat.lt_of_lt_of_le c.utf8Size_pos (Nat.le_add_right _ (byteLength r))))
    simp only [byteLength_cons, List.cons_append, hn, dropBytes?]
    rw [if_pos (by omega), ← hn]
    simpa using ih

/-- The bytes of a text, each as the character of its number. -/
def utf8Chars (text : List Char) : List Char :=
  text.flatMap fun c => (String.utf8EncodeChar c).map fun byte => Char.ofNat byte.toNat

end RpcBinder
