import RpcBinder.Lexis.Region

/-!
# Brace depth

How many braces are open at an offset of a text without comments.  Braces in literals do
not count, and a closing brace too many leaves the depth at zero.  A text is asked at one
offset after the other while a tracker reads it once.

A tracker takes an escape and the three quotes of a raw string in one go, so it may come to
stand behind the offset that it is asked for.

## Main definitions

* `braceStep`, `braceDepth` — the depth after code.
* `Within`, `Within.read` — what a tracker knows of its place, and what it reads in one go.
* `DepthTracker`, `DepthTracker.advance`, `DepthTracker.depths` — the depths at a series of
  offsets.
-/

namespace RpcBinder.Lexis

/-- The depth after one more character of code. -/
def braceStep (depth : Nat) (c : Char) : Nat :=
  if c == '{' then depth + 1
  else if c == '}' then depth - 1
  else depth

/-- The depth after characters of code. -/
def braceDepth (code : List Char) : Nat :=
  code.foldl braceStep 0

/-- What a place in a text without comments lies in. -/
inductive Within
  /-- Code. -/
  | code
  /-- A literal that ends at `quote`. -/
  | quoted (quote : Char)
  /-- A raw string. -/
  | rawString
  deriving DecidableEq, Repr, Inhabited

namespace Within

/-- How many characters are read along with the character `c` that stands before `rest`, and
what the place behind them lies in. -/
def read (within : Within) (c : Char) (rest : List Char) : Nat × Within :=
  match within with
  | .code =>
      if c == '"' && startsWithTwoQuotes rest then (2, .rawString)
      else if c == '"' || c == '\'' then (0, .quoted c)
      else (0, .code)
  | .quoted quote =>
      if c == '\\' then (1, .quoted quote)
      else if c == quote || c == '\n' then (0, .code)
      else (0, .quoted quote)
  | .rawString =>
      if c == '"' && startsWithTwoQuotes rest then (2, .code)
      else (0, .rawString)

/-- The depth after a character.  Outside of code it does not change. -/
def depthAfter (within : Within) (depth : Nat) (c : Char) : Nat :=
  match within with
  | .code => braceStep depth c
  | _ => depth

end Within

/-- A text that has been read up to an offset. -/
structure DepthTracker where
  /-- The part that has not been read. -/
  pending : List Char
  /-- The size in bytes of the part that has been read. -/
  offset : Nat
  /-- The depth after that part. -/
  depth : Nat
  /-- What the place behind that part lies in. -/
  within : Within

namespace DepthTracker

/-- The tracker before the first character of a text. -/
def ofText (text : List Char) : DepthTracker :=
  ⟨text, 0, 0, .code⟩

/-- Reads every character that stands before the offset `target`.  The first `along` characters
are read in any case, because they belong to what was read before. -/
def advanceFrom (target : Nat) : Within → Nat → List Char → Nat → Nat → DepthTracker
  | within, _, [], offset, depth => ⟨[], offset, depth, within⟩
  | within, along + 1, c :: pending, offset, depth =>
      advanceFrom target within along pending (offset + c.utf8Size) depth
  | within, 0, c :: pending, offset, depth =>
      if offset < target then
        let (along, next) := within.read c pending
        advanceFrom target next along pending (offset + c.utf8Size) (within.depthAfter depth c)
      else ⟨c :: pending, offset, depth, within⟩

/-- Reads on to the offset `target`; an offset that has been passed changes nothing. -/
def advance (tracker : DepthTracker) (target : Nat) : DepthTracker :=
  advanceFrom target tracker.within 0 tracker.pending tracker.offset tracker.depth

/-- The depths at a series of offsets.  After a larger offset a smaller one finds the
tracker where it stands. -/
def depths : DepthTracker → List Nat → List Nat
  | _, [] => []
  | tracker, target :: targets =>
      let next := tracker.advance target
      next.depth :: next.depths targets

end DepthTracker

end RpcBinder.Lexis
