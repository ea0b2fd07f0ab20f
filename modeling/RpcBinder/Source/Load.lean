import RpcBinder.FileTree.Ignore.Basic
import RpcBinder.Source.SourceSet

/-!
# Loading source files

The source files below a directory are those with an accepted ending that can be read and that
no list of ignored files leaves out.  What lies in a directory that is left out is left out,
too.

## Main definitions

* `SourceSet.load` — the source files below a path.
-/

namespace RpcBinder.SourceSet

/-- What is found by names below a directory is reached: neither it nor a directory on the way
is left out. -/
def reached (lists : IgnoreLists) (root : Path) (location : Location) (names : List String)
    (isDirectory : Bool) : Bool :=
  (List.range names.length).all fun count =>
    !lists.ignores (viewsOf root location (names.take (count + 1)))
      (isDirectory || count + 1 < names.length)

/-- The path of a file has one of the accepted endings. -/
def hasExtension (extensions : List String) (path : Path) : Bool :=
  match path.extension? with
  | some ending => extensions.contains ending
  | none => false

/-- The files below a directory that hold a text, under the path of the directory. -/
def filesBelow (tree : FileTree) (root : Path) (location : Location) : List SourceFile :=
  let lists := IgnoreLists.ofTree tree
  tree.entries.filterMap fun (place, entry) =>
    if location.isPrefixOf place && location.length < place.length then
      match entry with
      | .text content =>
          let names := place.drop location.length
          if reached lists root location names false then
            some ⟨names.foldl Path.join root, content⟩
          else none
      | _ => none
    else none

/-- A path that is a single dash stands for the input of the program. -/
def isInput (path : Path) : Bool :=
  path.components == [.named "-"]

/-- The files with a text to which a path leads: the file itself, or those below the
directory.  The input of the program is not among the files. -/
def filesAt (tree : FileTree) (root : Path) : List SourceFile :=
  if isInput root then [] else
  match tree.entryAt root, tree.locate root with
  | .ok .directory, .ok location => filesBelow tree root location
  | .ok (.text content), _ => [⟨root, content⟩]
  | _, _ => []

/-- The source files to which a path leads; there are none if it leads nowhere. -/
def load (tree : FileTree) (root : Path) (extensions : List String) : SourceSet :=
  ofFiles ((filesAt tree root).filter fun file => hasExtension extensions file.path)

end RpcBinder.SourceSet
