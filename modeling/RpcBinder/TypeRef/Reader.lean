import RpcBinder.Lexis.Nesting
import RpcBinder.Text.Split
import RpcBinder.TypeRef.Basic

/-!
# Reading type references

A reference is read from the outside in: a question mark at the end, then a variance at the
front, then the type arguments between the first `<` and the last `>`.  Every text can be
read; one whose brackets do not fit is kept as it is.

## Main definitions

* `TypeRef.Shape`, `TypeRef.shape` — the outermost form of a trimmed text.
* `TypeRef.readTrimmed`, `TypeRef.read` — the reference that a text stands for.
-/

namespace RpcBinder.TypeRef

/-- The outermost form of a reference, its parts not yet read. -/
inductive Shape
  /-- Kept as it is. -/
  | verbatim
  /-- A name. -/
  | named
  /-- A name with type arguments and a tail. -/
  | generic (base inner tail : List Char)
  /-- A question mark behind the rest. -/
  | nullable (rest : List Char)
  /-- A variance in front of the rest. -/
  | projected (variance : Variance) (rest : List Char)

/-- The variance in front of a text, and the rest. -/
def variance? (text : List Char) : Option (Variance × List Char) :=
  match Variance.producer.keyword.isPrefixOf? text with
  | some rest => some (.producer, rest)
  | none => (Variance.consumer.keyword.isPrefixOf? text).map (.consumer, ·)

/-- The outermost form of a trimmed text. -/
def shape (text : List Char) : Shape :=
  if text.getLast? == some '?' then .nullable text.dropLast
  else
    match variance? text with
    | some (variance, rest) => .projected variance rest
    | none =>
        if text.isEmpty || text == ['*'] then .verbatim
        else
          match splitFirst? '<' text with
          | some (base, after) =>
              match splitLast? '>' after with
              | some (inner, tail) => .generic base inner tail
              | none => .verbatim
          | none => if text.contains '>' then .verbatim else .named

theorem length_variance? {text rest : List Char} {variance : Variance}
    (h : variance? text = some (variance, rest)) : rest.length < text.length := by
  simp only [variance?] at h
  split at h
  · next r hr =>
    obtain ⟨rfl, rfl⟩ := by simpa using h
    have := length_isPrefixOf? hr
    simp [Variance.keyword] at this
    omega
  · obtain ⟨r, hr, e⟩ := Option.map_eq_some_iff.1 h
    obtain ⟨rfl, rfl⟩ := by simpa using e
    have := length_isPrefixOf? hr
    simp [Variance.keyword] at this
    omega

theorem length_of_shape_nullable {text rest : List Char} (h : shape text = .nullable rest) :
    rest.length < text.length := by
  simp only [shape] at h
  repeat' split at h
  all_goals try cases h
  next mark =>
    cases text with
    | nil => simp at mark
    | cons c r => simp

theorem length_of_shape_projected {text rest : List Char} {variance : Variance}
    (h : shape text = .projected variance rest) : rest.length < text.length := by
  simp only [shape] at h
  repeat' split at h
  all_goals try cases h
  next e => exact length_variance? e

theorem length_of_shape_generic {text base inner tail : List Char}
    (h : shape text = .generic base inner tail) : inner.length < text.length := by
  simp only [shape] at h
  repeat' split at h
  all_goals try cases h
  have first : ∃ after, splitFirst? '<' text = some (base, after) ∧
      splitLast? '>' after = some (inner, tail) := ⟨_, by assumption, by assumption⟩
  obtain ⟨after, first, last⟩ := first
  have := length_splitFirst? first
  have := length_splitLast? last
  omega

/-- The reference that a trimmed text stands for. -/
def readTrimmed (text : List Char) : TypeRef :=
  match _outer : shape text with
  | .verbatim => .verbatim text
  | .named => .named text
  | .generic base inner tail =>
      .generic (trim base)
        ((Lexis.splitTopLevel inner).attach.map fun ⟨entry, _⟩ => readTrimmed entry) tail
  | .nullable rest => .nullable (readTrimmed (trim rest))
  | .projected variance rest => .projected variance (readTrimmed (trim rest))
termination_by text.length
decreasing_by
  · next hm =>
    have := length_of_shape_generic _outer
    have := Lexis.length_le_of_mem_splitTopLevel hm
    omega
  · have := length_of_shape_nullable _outer
    have := length_trim_le rest
    omega
  · have := length_of_shape_projected _outer
    have := length_trim_le rest
    omega

/-- The reference that a text stands for. -/
def read (text : List Char) : TypeRef :=
  readTrimmed (trim text)

end RpcBinder.TypeRef
