import RpcBinder.FileTree.Basic

/-!
# Changing a file tree

An action that fails may have changed the tree before.

## Main definitions

* `FileAction` — actions on a tree.
* `FileAction.makeDirectory`, `FileAction.makeDirectories` — new directories.
* `FileAction.removeDirectory` — a directory with all that is in it.
* `FileAction.writeText` — a file with a text.
-/

namespace RpcBinder

/-- An action that reads and changes a file tree, and may fail. -/
abbrev FileAction := ExceptT FileError (StateM FileTree)

namespace FileAction

/-- What can be read off the tree. -/
def query {α : Type} (f : FileTree → Except FileError α) : FileAction α := do
  match f (← get) with
  | .ok answer => return answer
  | .error error => throw error

/-- The directory in which the last step of a path is taken, and that step; without steps the
path leads to the root. -/
def lastStep (path : Path) (tree : FileTree) : Except FileError (Location × Option String) := do
  FileTree.checkPath path
  let directory ← tree.walk (tree.origin path) path.segments.dropLast
  match path.segments.getLast? with
  | none => return (directory, none)
  | some segment => do
      tree.checkStep directory segment
      return (directory, some segment)

/-- A segment that is the name of something in a directory. -/
def isName (segment : String) : Bool :=
  segment != "." && segment != ".."

/-- Makes a directory where nothing is yet. -/
def makeDirectory (path : Path) : FileAction Unit := do
  let (directory, last) ← query (lastStep path)
  match last with
  | none => throw .alreadyExists
  | some segment =>
      let location := directory ++ [segment]
      if isName segment && ((← get).get? location).isNone then
        modify (·.put location .directory)
      else throw .alreadyExists

/-- Makes a directory unless there is one. -/
def ensureDirectory (path : Path) : FileAction Unit :=
  tryCatch (makeDirectory path) fun error => do
    if (← get).isDirectory path then return () else throw error

/-- Makes the first directory of a list unless there is one.  The others lie around it, from
the inside out, and are made first where they are missing. -/
def makeAll : List Path → FileAction Unit
  | [] => throw .noAncestor
  | path :: around =>
      if path.text.isEmpty then return ()
      else
        tryCatch (makeDirectory path) fun error => do
          if error == .notFound then
            makeAll around
            ensureDirectory path
          else if (← get).isDirectory path then return ()
          else throw error

/-- Makes a directory, and those around it, where they are missing. -/
def makeDirectories (path : Path) : FileAction Unit :=
  makeAll path.ancestors

/-- Removes a directory with all that is in it.  First it is emptied, which may remove what its
path leads through; then the directory is taken for removed.  A directory that is not named
cannot be removed itself. -/
def removeDirectory (path : Path) : FileAction Unit := do
  if (← query (·.entryAt path)) != .directory then throw .notDirectory
  let location ← query (·.locate path)
  modify (·.clear location)
  match lastStep path (← get) with
  | .error _ => return ()
  | .ok (_, none) => throw .isRoot
  | .ok (_, some ".") => throw .namedByDot
  | .ok (_, some "..") => throw .notEmpty
  | .ok (_, some _) => modify (·.erase location)

/-- Writes a text to a file, which may be new. -/
def writeText (path : Path) (content : String) : FileAction Unit := do
  let (directory, last) ← query (lastStep path)
  match last with
  | none => throw .isDirectory
  | some segment =>
      let location := directory ++ [segment]
      let there := (← get).get? location
      if !isName segment || there == some .directory then throw .isDirectory
      else if path.endsWithSlash then
        throw (if there.isNone then .isDirectory else .notDirectory)
      else modify (·.put location (.text content))

end FileAction

end RpcBinder
