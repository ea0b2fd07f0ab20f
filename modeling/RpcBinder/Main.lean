import RpcBinder.Command.Run
import Std.Data.HashMap

/-!
# The program

The files that a call can read are looked up first, the call runs on the tree that they make,
and then the files on disk are brought in line with the tree that comes out.

## Main definitions

* `lookUp`, `treeFor` — the files on disk as a tree.
* `bringInLine` — the files on disk after a call.
* `main` — the program.
-/

namespace RpcBinder.Program

/-- What has been looked up. -/
abbrev Found := Std.HashMap Location Entry

/-- The absolute path of a place. -/
def placeText (location : Location) : String :=
  "/" ++ String.intercalate "/" location

/-- The names on the way to the current directory. -/
def currentLocation : IO Location := do
  return (Path.mk (toString (← IO.currentDir))).segments

/-- The entry for a file: what it holds if it is `wanted`. -/
def fileEntry (location : Location) (wanted : Bool) : IO Entry := do
  if wanted then
    let bytes ← IO.FS.readBinFile (placeText location)
    match String.fromUTF8? bytes with
    | some content => return .text content
    | none => return .binary bytes.toList
  else return .binary []

/-- Looks up a place itself. -/
def probe (wanted : String → Bool) (found : Found) (location : Location) : IO Found := do
  if found.contains location then return found
  try
    let place := (← IO.currentDir) / placeText location
    if ← place.isDir then return found.insert location .directory
    else if ← place.pathExists then
      return found.insert location (← fileEntry location (wanted (location.getLast?.getD "")))
    else return found
  catch _ => return found

/-- Looks up everything below a directory.  Links to directories are not followed. -/
partial def lookUpBelow (wanted : String → Bool) (found : Found) (location : Location) :
    IO Found := do
  try
    let place := (← IO.currentDir) / placeText location
    let mut found := found
    for child in ← place.readDir do
      let inner := location ++ [child.fileName]
      let linked := (← child.path.symlinkMetadata).type == .symlink
      let isDirectory ← child.path.isDir
      if !(linked && isDirectory) then
        found ← probe wanted found inner
        if isDirectory then found ← lookUpBelow wanted found inner
    return found
  catch _ => return found

/-- The names of the lists of ignored files and of repositories, within a directory. -/
def ignoreNames : List Location :=
  [[".ignore"], [".gitignore"], [".jj"], [".git"], [".git", "info"], [".git", "info", "exclude"]]

/-- The directories around a place, from the inside out. -/
def outward (place : Location) : List Location :=
  (List.range place.length).reverse.map place.take

/-- The places on the way that a path describes, and the one that it leads to. -/
def placesOf (here : Location) (path : Path) : List Location :=
  let origin := if path.isAbsolute then [] else here
  (List.range (path.segments.length + 1)).map fun count =>
    (path.segments.take count).foldl FileTree.step origin

/-- Looks up the places on the way that a path describes, and those around them. -/
def lookUpWay (wanted : String → Bool) (here : Location) (found : Found) (path : Path) :
    IO Found := do
  let mut found := found
  for place in placesOf here path do
    for outer in place :: outward place do
      found ← probe wanted found outer
  return found

/-- Looks up what belongs to repositories in whose place a file stands. -/
def lookUpLinked (wanted : String → Bool) (here : Location) (found : Found) : IO Found := do
  let mut found := found
  for (location, entry) in found.toList do
    if location.getLast? == some ".git" then
      if let some git := IgnoreLists.pointer? "gitdir: " entry then
        found ← lookUpWay wanted here found (Path.join ⟨git⟩ "commondir")
        if let some common := IgnoreLists.linked? ⟨found.toList, here⟩ entry then
          found ← lookUpWay wanted here found (common.join "info/exclude")
  return found

/-- Looks up what a path leads to, with everything below and the lists of ignored files
around. -/
def lookUp (wanted : String → Bool) (here : Location) (found : Found) (path : Path) :
    IO Found := do
  let mut found ← lookUpWay wanted here found path
  match (placesOf here path).getLast? with
  | none => return found
  | some location =>
      for outer in outward location do
        for name in ignoreNames do
          found ← probe wanted found (outer ++ name)
      if found.get? location == some .directory then
        found ← lookUpBelow wanted found location
      lookUpLinked wanted here found

/-- A name says that the file has to be read: it has one of the endings, or lists ignored
files. -/
def isWanted (extensions : List String) (name : String) : Bool :=
  SourceSet.hasExtension extensions ⟨name⟩ ||
    [".ignore", ".gitignore", ".git", "commondir", "exclude"].contains name

/-- The tree of what has been looked up. -/
def treeOf (here : Location) (found : Found) : FileTree :=
  ⟨found.toList.filter (!·.1.isEmpty), here⟩

/-- The tree with the files that a call can read or replace. -/
def treeFor (here : Location) (call : Call) : IO FileTree := do
  let found ← match call.sources.config with
    | some path => lookUpWay (fun _ => true) here {} path
    | none => pure {}
  match call.resolve (treeOf here found) with
  | .error _ => return treeOf here found
  | .ok config => do
      let wanted := isWanted config.extensions
      let mut found := found
      for root in [config.apiRoot, config.clientRoot, config.serverRoot] do
        found ← lookUp wanted here found root
      if call.command == .generate then
        found ← lookUp wanted here found config.outputDir
      return treeOf here found

/-- Removes from disk what is no longer in the tree, from the inside out. -/
def removeMissing (before after : FileTree) : IO Unit := do
  let gone := before.entries.filter fun (place, _) => (after.get? place).isNone
  for (place, entry) in gone.mergeSort fun a b => b.1.length ≤ a.1.length do
    if entry == .directory then IO.FS.removeDir (placeText place)
    else IO.FS.removeFile (placeText place)

/-- Writes to disk what is new in the tree, from the outside in. -/
def writeNew (before after : FileTree) : IO Unit := do
  let fresh := after.entries.filter fun (place, entry) => before.get? place != some entry
  for (place, entry) in fresh.mergeSort fun a b => a.1.length ≤ b.1.length do
    match entry with
    | .directory => IO.FS.createDir (placeText place)
    | .text content => IO.FS.writeFile (placeText place) content
    | .binary _ => pure ()

/-- Brings the files on disk in line with a tree. -/
def bringInLine (before after : FileTree) : IO Unit := do
  removeMissing before after
  writeNew before after

/-- Makes the directory for log files.  A call does not depend on it. -/
def makeLogDirectory : IO Unit := do
  let directory := logDirectory (← IO.getEnv "KWIRE_LOG_DIR") (← IO.getEnv "HOME")
  try IO.FS.createDirAll directory.text catch _ => pure ()

/-- Runs a call on the files on disk. -/
def runCall (call : Call) : IO Outcome := do
  makeLogDirectory
  let before ← treeFor (← currentLocation) call
  let (outcome, after) := call.run before
  bringInLine before after
  return outcome

/-- How the program is called. -/
def usage : String :=
  "usage: kwire <check|dump|generate> [--config FILE] [--api DIR] [--client DIR] " ++
    "[--server DIR]\n       kwire generate [--out DIR]\n       kwire --version\n"

end RpcBinder.Program

/-- Does what the arguments ask for. -/
def main (arguments : List String) : IO UInt32 := do
  let outcome ← match RpcBinder.Request.parse? arguments with
    | none => do
        IO.eprint RpcBinder.Program.usage
        pure RpcBinder.Outcome.misuse
    | some .version => pure (RpcBinder.Outcome.success RpcBinder.versionLine)
    | some (.call call) => RpcBinder.Program.runCall call
  IO.print outcome.output
  IO.eprint outcome.complaint
  return outcome.exitCode.toUInt32
