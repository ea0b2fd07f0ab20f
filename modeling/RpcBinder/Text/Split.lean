/-!
# Splitting a text at a character

## Main definitions

* `splitFirst?`, `splitLast?` — the parts around the first and the last occurrence of a
  character.
-/

namespace RpcBinder

/-- The parts before and after the first occurrence of a character. -/
def splitFirst? (stop : Char) : List Char → Option (List Char × List Char)
  | [] => none
  | c :: rest =>
      if c == stop then some ([], rest)
      else (splitFirst? stop rest).map fun (before, after) => (c :: before, after)

/-- The parts before and after the last occurrence of a character: the first one from the end. -/
def splitLast? (stop : Char) (text : List Char) : Option (List Char × List Char) :=
  (splitFirst? stop text.reverse).map fun (after, before) => (before.reverse, after.reverse)

theorem length_splitFirst? {stop : Char} {text before after : List Char}
    (h : splitFirst? stop text = some (before, after)) :
    text.length = before.length + 1 + after.length := by
  induction text generalizing before with
  | nil => simp [splitFirst?] at h
  | cons c r ih =>
    simp only [splitFirst?] at h
    split at h
    · obtain ⟨rfl, rfl⟩ := by simpa using h
      simp; omega
    · obtain ⟨⟨b, a⟩, hr, e⟩ := Option.map_eq_some_iff.1 h
      obtain ⟨rfl, rfl⟩ := by simpa using e
      simp [ih hr]; omega

theorem length_splitLast? {stop : Char} {text before after : List Char}
    (h : splitLast? stop text = some (before, after)) :
    text.length = before.length + 1 + after.length := by
  obtain ⟨⟨a, b⟩, hr, e⟩ := Option.map_eq_some_iff.1 h
  obtain ⟨rfl, rfl⟩ := by simpa using e
  have := length_splitFirst? hr
  simp only [List.length_reverse] at this ⊢
  omega

/-- What is left of a text after its first part is no longer than the text. -/
theorem length_isPrefixOf? {start text rest : List Char}
    (h : start.isPrefixOf? text = some rest) : text.length = start.length + rest.length := by
  induction start generalizing text with
  | nil =>
    obtain rfl : text = rest := Option.some.inj h
    simp
  | cons c s ih =>
    cases text with
    | nil => nomatch h
    | cons d t =>
      change (if c == d then s.isPrefixOf? t else none) = some rest at h
      split at h
      · simp [ih h]; omega
      · simp at h

end RpcBinder
