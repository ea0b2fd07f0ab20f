import RpcBinder.Failure
import RpcBinder.Path

/-!
# File trees

A file tree says what is where, counted from the root, and which directory is the current one.

## Main definitions

* `Location`, `Entry`, `FileTree` — places, what is at a place, and all of it.
* `Entry.lines` — the lines of a file.
* `FileTree.locate` — the place that a path leads to.
* `FileTree.entryAt` — what a path leads to.
* `FileTree.readText` — the text of a file.
-/

namespace RpcBinder

/-- A place, by the names on the way from the root to it. -/
abbrev Location := List String

/-- What is at a place. -/
inductive Entry
  /-- A file with a text. -/
  | text (content : String)
  /-- A file whose bytes are no text. -/
  | binary (bytes : List UInt8)
  /-- A directory. -/
  | directory
  deriving DecidableEq, Repr, Inhabited

/-- The lines of a series of characters or bytes.  A line ends with a line feed, or a carriage
return and a line feed, and the last one may be without. -/
def linesBy {α : Type} [BEq α] (feed ret : α) (units : List α) : List (List α) :=
  let pieces := units.splitOn feed
  let ended := pieces.dropLast.map fun line =>
    if line.getLast? == some ret then line.dropLast else line
  ended ++ (pieces.getLast?.toList.filter (!·.isEmpty))

/-- The text that bytes make up, if they do. -/
def textOfBytes? (bytes : List UInt8) : Option (List Char) :=
  (String.fromUTF8? ⟨bytes.toArray⟩).map String.toList

/-- The lines of a file up to the first one that is no text. -/
def Entry.lines : Entry → List (List Char)
  | .text content => linesBy '\n' '\r' content.toList
  | .binary bytes =>
      (((linesBy 10 13 bytes).map textOfBytes?).takeWhile Option.isSome).filterMap id
  | .directory => []

/-- All files and directories. -/
structure FileTree where
  /-- What is at each place but the root, which is a directory. -/
  entries : List (Location × Entry)
  /-- The current directory. -/
  here : Location
  deriving DecidableEq, Repr

namespace FileTree

/-- What is at a place. -/
def get? (tree : FileTree) (location : Location) : Option Entry :=
  if location.isEmpty then some .directory else tree.entries.lookup location

/-- A step from a place: nowhere for a dot, out for two, and in for a name. -/
def step (location : Location) (segment : String) : Location :=
  if segment == "." then location
  else if segment == ".." then location.dropLast
  else location ++ [segment]

/-- A step needs a directory to start from, and a name of at most 255 bytes. -/
def checkStep (tree : FileTree) (location : Location) (segment : String) : Except FileError Unit :=
  match tree.get? location with
  | none => .error .notFound
  | some .directory => if segment.utf8ByteSize ≤ 255 then .ok () else .error .nameTooLong
  | some _ => .error .notDirectory

/-- The place behind a series of steps.  The last one need not be anything. -/
def walk (tree : FileTree) (location : Location) : List String → Except FileError Location
  | [] => .ok location
  | segment :: segments => do
      tree.checkStep location segment
      tree.walk (step location segment) segments

/-- The place from which a path leads on. -/
def origin (tree : FileTree) (path : Path) : Location :=
  if path.isAbsolute then [] else tree.here

/-- A path must say something in less than 4096 bytes, and may not hold the character that ends
it. -/
def checkPath (path : Path) : Except FileError Unit :=
  if path.text.toList.contains '\x00' then .error .nulCharacter
  else if path.text.isEmpty then .error .notFound
  else if 4096 ≤ path.text.utf8ByteSize then .error .nameTooLong
  else .ok ()

/-- The place that a path leads to. -/
def locate (tree : FileTree) (path : Path) : Except FileError Location := do
  checkPath path
  tree.walk (tree.origin path) path.segments

/-- What a path leads to.  Behind a slash at the end there must be a directory. -/
def entryAt (tree : FileTree) (path : Path) : Except FileError Entry := do
  match tree.get? (← tree.locate path) with
  | none => throw .notFound
  | some .directory => return .directory
  | some entry => if path.endsWithSlash then throw .notDirectory else return entry

/-- A path leads to something. -/
def pathExists (tree : FileTree) (path : Path) : Bool :=
  match tree.entryAt path with
  | .ok _ => true
  | .error _ => false

/-- A path leads to a directory. -/
def isDirectory (tree : FileTree) (path : Path) : Bool :=
  match tree.entryAt path with
  | .ok .directory => true
  | _ => false

/-- The text of the file that a path leads to. -/
def readText (tree : FileTree) (path : Path) : Except FileError String := do
  match ← tree.entryAt path with
  | .text content => return content
  | .binary _ => throw .notText
  | .directory => throw .isDirectory

/-- The tree with something at a place. -/
def put (tree : FileTree) (location : Location) (entry : Entry) : FileTree :=
  { tree with entries := (location, entry) :: tree.entries.filter (·.1 != location) }

/-- The tree without what is at a place and below it. -/
def erase (tree : FileTree) (location : Location) : FileTree :=
  { tree with entries := tree.entries.filter fun entry => !location.isPrefixOf entry.1 }

/-- The tree without what is below a place. -/
def clear (tree : FileTree) (location : Location) : FileTree :=
  { tree with entries := tree.entries.filter fun entry =>
      entry.1 == location || !location.isPrefixOf entry.1 }

end FileTree

end RpcBinder
