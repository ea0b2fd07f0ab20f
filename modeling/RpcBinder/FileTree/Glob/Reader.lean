import RpcBinder.FileTree.Glob.Basic

/-!
# Reading globs

A backslash stands before a character that stands for itself.  Two stars speak of directories
only where they are a whole segment.  A bracket that is never closed stands for itself, and so
do all later ones; braces have to fit.

## Main definitions

* `ClassReading`, `readClass` — the class behind an opening bracket.
* `GlobReading` — what has been read of a glob.
* `readPieces?` — the pieces of a glob.
-/

namespace RpcBinder

/-- What stands behind an opening bracket. -/
inductive ClassReading
  /-- No class, as nothing closes it. -/
  | unclosed
  /-- A range that runs backwards. -/
  | backwards
  /-- The ranges of a class, and the text behind it. -/
  | closed (ranges : List (Char × Char)) (after : List Char)

/-- Reads the members of a class.  `ranges` are the ranges so far, the latest first, and
`pending` is the latest one if a dash has been read behind it.  A bracket or a dash that comes
first is a member, and so is a dash that comes last. -/
def readMembers (pending : Option (Char × Char)) (ranges : List (Char × Char)) :
    List Char → ClassReading
  | [] => .unclosed
  | c :: rest =>
      match pending with
      | some range =>
          if c == ']' then .closed (('-', '-') :: range :: ranges) rest
          else if c < range.1 then .backwards
          else readMembers none ((range.1, c) :: ranges) rest
      | none =>
          match ranges with
          | [] => readMembers none [(c, c)] rest
          | latest :: others =>
              if c == ']' then .closed ranges rest
              else if c == '-' then readMembers (some latest) others rest
              else readMembers none ((c, c) :: ranges) rest

/-- Reads a class behind its opening bracket: whether it is negated, and its members. -/
def readClass (text : List Char) : Bool × ClassReading :=
  match text with
  | '!' :: rest => (true, readMembers none [] rest)
  | '^' :: rest => (true, readMembers none [] rest)
  | rest => (false, readMembers none [] rest)

/-- What has been read of a glob. -/
structure GlobReading where
  /-- The character read last. -/
  before : Option Char := none
  /-- The pieces of the branch that is being read, the latest first. -/
  pieces : List GlobPiece := []
  /-- The open braces, the inner ones first: the branches read so far, the latest first, and the
  pieces in front of the brace, the latest first. -/
  braces : List (List (List GlobPiece) × List GlobPiece) := []
  /-- A bracket has been found that is never closed. -/
  noClasses : Bool := false

namespace GlobReading

/-- Adds a piece, at the end of which a character stands. -/
def add (reading : GlobReading) (piece : GlobPiece) (c : Char) : GlobReading :=
  { reading with pieces := piece :: reading.pieces, before := some c }

/-- The text is within braces. -/
def withinBraces (reading : GlobReading) : Bool :=
  !reading.braces.isEmpty

/-- The character is a comma or a brace that ends a branch. -/
def endsBranch (reading : GlobReading) (c : Char) : Bool :=
  reading.withinBraces && (c == ',' || c == '\x7d')

/-- Two stars may stand for directories: in front of them is a slash or the begin of a
branch. -/
def startsSegment (reading : GlobReading) : Bool :=
  match reading.before with
  | some c => c == '/' || (reading.withinBraces && (c == ',' || c == '\x7b'))
  | none => false

/-- Adds two stars that are not a whole segment. -/
def addStars (reading : GlobReading) : GlobReading :=
  (reading.add .run '*').add .run '*'

/-- Adds the directories between two slashes, or what is behind a slash, in place of the slash.
Directories at the begin, and what is behind a slash, take in what follows. -/
def addDirectories (reading : GlobReading) (piece : GlobPiece) (c : Char) : GlobReading :=
  match reading.pieces with
  | .leading :: _ => { reading with before := some c }
  | .trailing :: _ => { reading with before := some c }
  | _ :: others => { reading with pieces := piece :: others, before := some c }
  | [] => reading.add piece c

/-- Reads on behind two stars. -/
def addDoubleStar (reading : GlobReading) (rest : List Char) : GlobReading × List Char :=
  if reading.pieces.isEmpty then
    match rest with
    | [] => (reading.add .leading '*', [])
    | '/' :: rest => (reading.add .leading '/', rest)
    | rest => (reading.addStars, rest)
  else if !reading.startsSegment then (reading.addStars, rest)
  else
    match rest with
    | [] => (reading.addDirectories .trailing '*', [])
    | '/' :: rest => (reading.addDirectories .between '/', rest)
    | c :: rest =>
        if reading.endsBranch c then (reading.addDirectories .trailing '*', c :: rest)
        else (reading.addStars, c :: rest)

/-- Opens a brace. -/
def openBrace (reading : GlobReading) : GlobReading :=
  { reading with
    braces := ([], reading.pieces) :: reading.braces, pieces := [], before := some '\x7b' }

/-- Ends a branch at a comma.  Outside of braces the comma stands for itself. -/
def addComma (reading : GlobReading) : GlobReading :=
  match reading.braces with
  | [] => reading.add (.literal ',') ','
  | (branches, inFront) :: outer =>
      { reading with
        braces := (reading.pieces.reverse :: branches, inFront) :: outer, pieces := [],
        before := some ',' }

/-- Closes a brace, if one is open. -/
def closeBrace? (reading : GlobReading) : Option GlobReading :=
  match reading.braces with
  | [] => none
  | (branches, inFront) :: outer =>
      some { reading with
        braces := outer
        pieces := .alternates (reading.pieces.reverse :: branches).reverse :: inFront
        before := some '\x7d' }

/-- The pieces, if no brace is open. -/
def finish? (reading : GlobReading) : Option (List GlobPiece) :=
  if reading.withinBraces then none else some reading.pieces.reverse

/-- Reads on to the end of a text, in at most a number of steps. -/
def readOn? : Nat → GlobReading → List Char → Option (List GlobPiece)
  | _, reading, [] => reading.finish?
  | 0, _, _ => none
  | steps + 1, reading, '?' :: rest => readOn? steps (reading.add .any '?') rest
  | steps + 1, reading, '*' :: '*' :: rest =>
      let (reading, rest) := reading.addDoubleStar rest
      readOn? steps reading rest
  | steps + 1, reading, '*' :: rest => readOn? steps (reading.add .run '*') rest
  | steps + 1, reading, '[' :: rest =>
      if reading.noClasses then readOn? steps (reading.add (.literal '[') '[') rest
      else
        match readClass rest with
        | (negated, .closed ranges after) =>
            readOn? steps (reading.add (.oneOf negated ranges) ']') after
        | (_, .unclosed) =>
            readOn? steps ({ reading with noClasses := true }.add (.literal '[') '[') rest
        | (_, .backwards) => none
  | steps + 1, reading, '\x7b' :: rest => readOn? steps reading.openBrace rest
  | steps + 1, reading, '\x7d' :: rest => do readOn? steps (← reading.closeBrace?) rest
  | steps + 1, reading, ',' :: rest => readOn? steps reading.addComma rest
  | steps + 1, reading, '\\' :: rest =>
      match rest with
      | [] => none
      | c :: rest => readOn? steps (reading.add (.literal c) c) rest
  | steps + 1, reading, c :: rest => readOn? steps (reading.add (.literal c) c) rest

end GlobReading

/-- The pieces of a glob; none if its braces do not fit, a range runs backwards, or a backslash
stands at the end. -/
def readPieces? (text : List Char) : Option (List GlobPiece) :=
  GlobReading.readOn? text.length {} text

end RpcBinder
