import RpcBinder.Pattern.Search

/-!
# Globs

A glob describes the paths of files: a star stands for anything within a name, two stars for
any directories on the way, a question mark for one byte, brackets for one byte out of a class,
and braces for one of several globs.  Paths are compared byte by byte.

## Main definitions

* `GlobPiece` — the pieces of a glob.
* `GlobPiece.patterns` — the patterns over bytes that pieces stand for.
* `Glob`, `Glob.ofPieces`, `Glob.accepts` — the paths that a glob describes.
-/

namespace RpcBinder

/-- A piece of a glob. -/
inductive GlobPiece
  /-- A character that stands for itself. -/
  | literal (c : Char)
  /-- One byte other than a slash. -/
  | any
  /-- Any number of bytes other than slashes. -/
  | run
  /-- One byte out of ranges of characters, or outside of them. -/
  | oneOf (negated : Bool) (ranges : List (Char × Char))
  /-- Any directories in front, if there are any. -/
  | leading
  /-- A slash, or any directories between two slashes. -/
  | between
  /-- A slash and whatever is behind it. -/
  | trailing
  /-- One of several globs. -/
  | alternates (branches : List (List GlobPiece))
  deriving Repr, Inhabited

namespace GlobPiece

/-- The ranges of bytes in a range of characters.  A character of several bytes stands for any
one of them, and a range leads from the last byte of its first character to the first byte of
its last one. -/
def byteRanges (range : Char × Char) : List (Char × Char) :=
  let first := utf8Chars [range.1]
  let last := utf8Chars [range.2]
  let alone := fun bytes : List Char => bytes.map fun byte => (byte, byte)
  if range.1 == range.2 then alone first
  else
    alone first.dropLast ++ (first.getLast?.toList.zip last.head?.toList) ++ alone last.tail

/-- The byte lies in one of the ranges. -/
def inRanges (ranges : List (Char × Char)) (byte : Char) : Bool :=
  ranges.any fun range => range.1 ≤ byte && byte ≤ range.2

/-- Any bytes. -/
def anything : Pattern Unit :=
  .stretch fun _ => true

/-- A slash. -/
def slash : Pattern Unit :=
  .one (· == '/')

/-- One pattern after the other. -/
def inOrder (patterns : List (Pattern Unit)) : Pattern Unit :=
  patterns.foldr .seq .empty

mutual

/-- The patterns that a piece stands for, one after the other. -/
def patterns : GlobPiece → List (Pattern Unit)
  | .literal c => (utf8Chars [c]).map fun byte => .one (· == byte)
  | .any => [.one (· != '/')]
  | .run => [.stretch (· != '/')]
  | .oneOf negated ranges =>
      let bytes := ranges.flatMap byteRanges
      [.one fun byte => inRanges bytes byte != negated]
  | .leading => [.maybe slash ||| (anything ++ slash)]
  | .between => [slash ||| (slash ++ anything ++ slash)]
  | .trailing => [slash, anything]
  | .alternates branches =>
      match choices branches with
      | [] => []
      | first :: others => [others.foldl .either first]

/-- The patterns that pieces stand for, one after the other. -/
def allPatterns : List GlobPiece → List (Pattern Unit)
  | [] => []
  | piece :: pieces => patterns piece ++ allPatterns pieces

/-- The patterns that the branches of a choice stand for.  A branch without any is none. -/
def choices : List (List GlobPiece) → List (Pattern Unit)
  | [] => []
  | branch :: branches =>
      match allPatterns branch with
      | [] => choices branches
      | found => inOrder found :: choices branches

end

end GlobPiece

/-- The description of paths, as a pattern over bytes. -/
abbrev Glob := Pattern Unit

namespace Glob

/-- The glob of pieces.  Directories in front alone describe every path. -/
def ofPieces : List GlobPiece → Glob
  | [.leading] => GlobPiece.anything
  | pieces => GlobPiece.inOrder (GlobPiece.allPatterns pieces)

/-- The glob describes a path as a whole. -/
def accepts (glob : Glob) (path : List Char) : Bool :=
  glob.matchesAll (utf8Chars path)

end Glob

end RpcBinder
