import RpcBinder.Text.Bytes

/-!
# Patterns

A pattern describes a stretch of text and names parts of it.  Where it can match in several
ways, one is preferred: the left branch of a choice, and as many rounds of a repetition as
possible.

A pattern is written as a sequence with `++`, a choice with `|||`, and a string literal
for its own characters.

## Main definitions

* `Cursor` — a place in a text.
* `Span` — a stretch of text between two places.
* `Pattern` — patterns over a type of part names.
-/

namespace RpcBinder

/-- A place in a text. -/
structure Cursor where
  /-- The place is the start of the text or follows a line feed. -/
  atLineStart : Bool
  /-- The text from the place on. -/
  rest : List Char
  /-- The size in bytes of that text. -/
  left : Nat
  left_eq : left = byteLength rest := by rfl

namespace Cursor

/-- The start of a text. -/
def ofText (text : List Char) : Cursor :=
  ⟨true, text, byteLength text, rfl⟩

/-- The character at the place, and the place after it. -/
def next? : Cursor → Option (Char × Cursor)
  | ⟨_, [], _, _⟩ => none
  | ⟨_, c :: rest, left, h⟩ =>
      some (c, ⟨c == '\n', rest, left - c.utf8Size, by simp [h]⟩)

/-- The place is the end of the text or precedes a line feed. -/
def atLineEnd (place : Cursor) : Bool :=
  match place.rest with
  | [] => true
  | c :: _ => c == '\n'

/-- Moving on leaves less of the text. -/
theorem left_lt_of_next? {place next : Cursor} {c : Char} (h : place.next? = some (c, next)) :
    next.left < place.left := by
  obtain ⟨_, text, left, rfl⟩ := place
  cases text with
  | nil => simp [next?] at h
  | cons d rest =>
    simp only [next?, Option.some.injEq, Prod.mk.injEq] at h
    obtain ⟨rfl, rfl⟩ := h
    have := d.utf8Size_pos
    simp only [byteLength_cons]
    omega

/-- What `f` says of the place after a character of a class, if the next one is of the class. -/
def past {α : Type} (p : Char → Bool) (place : Cursor) (f : Cursor → Option α) : Option α :=
  match place.next? with
  | some (c, next) => if p c then f next else none
  | none => none

/-- The places after any number of characters of a class, the farthest first, in front of
`nearer` ones. -/
def reach (p : Char → Bool) (place : Cursor) (nearer : List Cursor) : List Cursor :=
  match _h : place.next? with
  | some (c, next) => if p c then reach p next (place :: nearer) else place :: nearer
  | none => place :: nearer
termination_by place.left
decreasing_by exact left_lt_of_next? _h

/-- What is said of the place past a character depends on no other place. -/
theorem past_congr {α : Type} (p : Char → Bool) (place : Cursor) {f g : Cursor → Option α}
    (h : ∀ c next, place.next? = some (c, next) → f next = g next) :
    place.past p f = place.past p g := by
  simp only [past]
  split
  · next c next hn => rw [h c next hn]
  · rfl

end Cursor

/-- A stretch of text between two places. -/
structure Span where
  /-- Where it begins. -/
  start : Cursor
  /-- Where it ends. -/
  stop : Cursor

/-- The characters of a stretch. -/
def Span.text (span : Span) : List Char :=
  takeBytes (span.start.left - span.stop.left) span.start.rest

/-- Patterns whose parts are named by `κ`. -/
inductive Pattern (κ : Type)
  /-- Nothing. -/
  | empty
  /-- Nothing, at the start of a line. -/
  | lineStart
  /-- Nothing, at the end of a line. -/
  | lineEnd
  /-- One character of a class. -/
  | one (p : Char → Bool)
  /-- Any number of characters of a class, as many as possible. -/
  | stretch (p : Char → Bool)
  /-- One pattern after the other. -/
  | seq (first second : Pattern κ)
  /-- Either pattern, the first if possible. -/
  | either (first second : Pattern κ)
  /-- Any number of rounds of a pattern, each of at least one character and as many as
  possible. -/
  | many (body : Pattern κ)
  /-- A pattern whose stretch is a named part.  It stands in no repetition. -/
  | part (name : κ) (body : Pattern κ)

namespace Pattern

variable {κ : Type}

/-- The characters of a text, one after the other. -/
def literal : List Char → Pattern κ
  | [] => .empty
  | [c] => .one (· == c)
  | c :: rest => .seq (.one (· == c)) (literal rest)

instance : Append (Pattern κ) := ⟨seq⟩

instance : OrOp (Pattern κ) := ⟨either⟩

instance : Coe String (Pattern κ) := ⟨fun s => literal s.toList⟩

/-- At least one character of a class. -/
def stretch1 (p : Char → Bool) : Pattern κ :=
  one p ++ stretch p

/-- A pattern or nothing. -/
def maybe (body : Pattern κ) : Pattern κ :=
  body ||| empty

/-- A choice among words, the first that fits. -/
def anyOf : List String → Pattern κ
  | [] => .one fun _ => false
  | [word] => literal word.toList
  | word :: words => .either (literal word.toList) (anyOf words)

end Pattern

end RpcBinder
