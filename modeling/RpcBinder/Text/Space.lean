/-!
# White space

White space is the Unicode property `White_Space`: the ASCII blanks from tab to
carriage return, the space, and nineteen further code points.  Zero width characters
and the separators U+001C to U+001F do not belong to it.

## Main definitions

* `isSpace` — the character class.
* `trimStart`, `trimEndBy`, `trim` — a text without its outer white space.
* `isBlank` — a text of nothing but white space.
* `words` — the maximal runs of other characters.
-/

namespace RpcBinder

/-- White space among all characters. -/
def isSpace (c : Char) : Bool :=
  let n := c.toNat
  (0x09 ≤ n && n ≤ 0x0D) || n == 0x20 || n == 0x85 || n == 0xA0 || n == 0x1680 ||
    (0x2000 ≤ n && n ≤ 0x200A) || n == 0x2028 || n == 0x2029 || n == 0x202F ||
    n == 0x205F || n == 0x3000

/-- The text without its leading white space. -/
def trimStart (text : List Char) : List Char :=
  text.dropWhile isSpace

/-- The text without the characters of the class `p` at its end.  A text that does not end with
one stays as it is. -/
def trimEndBy (p : Char → Bool) (text : List Char) : List Char :=
  if text.getLast?.any p then (text.reverse.dropWhile p).reverse else text

/-- The text without its outer white space. -/
def trim (text : List Char) : List Char :=
  trimEndBy isSpace (trimStart text)

/-- A text of nothing but white space. -/
def isBlank (text : List Char) : Bool :=
  text.all isSpace

/-- The maximal runs of characters other than white space, in order. -/
def words (text : List Char) : List (List Char) :=
  (text.splitOnP isSpace).filter (!·.isEmpty)

@[simp] theorem trimStart_nil : trimStart [] = [] := rfl

@[simp] theorem trim_nil : trim [] = [] := rfl

theorem length_trimStart_le (text : List Char) : (trimStart text).length ≤ text.length :=
  (List.dropWhile_suffix isSpace).length_le

/-- What is left is what the class leaves of the reversed text. -/
theorem trimEndBy_eq (p : Char → Bool) (text : List Char) :
    trimEndBy p text = (text.reverse.dropWhile p).reverse := by
  simp only [trimEndBy]
  split
  · rfl
  · next h =>
    rw [← List.head?_reverse] at h
    cases hr : text.reverse with
    | nil => simpa using hr
    | cons c rest =>
      rw [List.dropWhile_cons_of_neg (by simpa [hr] using h), ← hr, List.reverse_reverse]

theorem length_trimEndBy_le (p : Char → Bool) (text : List Char) :
    (trimEndBy p text).length ≤ text.length := by
  rw [trimEndBy_eq]
  simpa using (List.dropWhile_suffix (l := text.reverse) p).length_le

/-- Trimming never lengthens a text. -/
theorem length_trim_le (text : List Char) : (trim text).length ≤ text.length :=
  Nat.le_trans (length_trimEndBy_le _ _) (length_trimStart_le _)

/-- A text trims to nothing exactly when it is blank. -/
theorem trim_eq_nil_iff (text : List Char) : trim text = [] ↔ isBlank text = true := by
  have h : ∀ l : List Char, l.dropWhile isSpace = [] ↔ l.all isSpace = true := by
    intro l
    induction l with
    | nil => simp
    | cons c r ih => by_cases hc : isSpace c <;> simp [hc, ih]
  simp only [trim, trimEndBy_eq, trimStart, isBlank, List.reverse_eq_nil_iff, h]
  induction text with
  | nil => simp
  | cons c r ih => by_cases hc : isSpace c <;> simp_all

end RpcBinder
