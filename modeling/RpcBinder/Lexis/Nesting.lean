import RpcBinder.Text.Space

/-!
# Nesting of brackets in type and parameter texts

Commas and default values are looked for outside of angle brackets and parentheses.  The
depth never falls below zero, and the `>` of an arrow `->` closes nothing.

## Main definitions

* `isBracket`, `nest` — the brackets, and the depth after one more character.
* `pieces`, `splitTopLevel` — a text cut at its outer commas.
* `cutTopLevel` — a text up to the first outer occurrence of a character.
-/

namespace RpcBinder.Lexis

/-- The characters that open or close a level. -/
def isBracket (c : Char) : Bool :=
  c == '<' || c == '(' || c == '>' || c == ')'

/-- The depth after the character `c`, where `dash` says that a `-` stands before it. -/
def nest (depth : Nat) (dash : Bool) (c : Char) : Nat :=
  if c == '<' || c == '(' then depth + 1
  else if c == ')' || (c == '>' && !dash) then depth - 1
  else depth

/-- The text cut at its outer commas, read at a depth and after a dash or not.  There is
always a first piece. -/
def pieces : Nat → Bool → List Char → List (List Char)
  | _, _, [] => [[]]
  | depth, dash, c :: rest =>
      if c == ',' && depth == 0 then [] :: pieces 0 false rest
      else
        match pieces (nest depth dash c) (c == '-') rest with
        | [] => [[c]]
        | first :: others => (c :: first) :: others

/-- The trimmed entries between the outer commas of a text.  Empty entries stay, except that
nothing follows the last comma if only white space does. -/
def splitTopLevel (text : List Char) : List (List Char) :=
  let entries := (pieces 0 false text).map trim
  if entries.getLast? == some [] then entries.dropLast else entries

/-- The text up to the first `stop` outside of brackets, read at a depth and after a dash
or not. -/
def cutFrom (stop : Char) : Nat → Bool → List Char → List Char
  | _, _, [] => []
  | depth, dash, c :: rest =>
      if c == stop && depth == 0 && !isBracket c then []
      else c :: cutFrom stop (nest depth dash c) (c == '-') rest

/-- The text up to the first `stop` outside of brackets, or all of it.  A bracket is never
outside of brackets. -/
def cutTopLevel (stop : Char) (text : List Char) : List Char :=
  cutFrom stop 0 false text

theorem pieces_ne_nil (depth : Nat) (dash : Bool) (text : List Char) :
    pieces depth dash text ≠ [] := by
  cases text with
  | nil => simp [pieces]
  | cons c r =>
    simp only [pieces]
    split
    · simp
    · split <;> simp

/-- A piece is no longer than the text. -/
theorem length_le_of_mem_pieces {depth : Nat} {dash : Bool} {text piece : List Char}
    (h : piece ∈ pieces depth dash text) : piece.length ≤ text.length := by
  induction text generalizing depth dash piece with
  | nil => simp_all [pieces]
  | cons c r ih =>
    simp only [pieces] at h
    split at h
    · -- a comma at depth zero: an empty piece in front of those of the rest
      rcases List.mem_cons.1 h with rfl | h
      · simp
      · exact Nat.le_succ_of_le (ih h)
    · split at h
      · simp_all
      · next first others e =>
        -- any other character joins the first piece of the rest
        rcases List.mem_cons.1 h with rfl | h
        · simpa using ih (e ▸ List.mem_cons_self)
        · exact Nat.le_succ_of_le (ih (e ▸ List.mem_cons_of_mem _ h))

/-- An entry is no longer than the text. -/
theorem length_le_of_mem_splitTopLevel {text entry : List Char}
    (h : entry ∈ splitTopLevel text) : entry.length ≤ text.length := by
  have mem : entry ∈ (pieces 0 false text).map trim := by
    simp only [splitTopLevel] at h
    split at h
    · exact List.dropLast_subset _ h
    · exact h
  obtain ⟨piece, hp, rfl⟩ := List.mem_map.1 mem
  exact Nat.le_trans (length_trim_le piece) (length_le_of_mem_pieces hp)

end RpcBinder.Lexis
