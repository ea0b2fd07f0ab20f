import RpcBinder.FileTree.Basic
import RpcBinder.FileTree.Ignore.Rule

/-!
# Ignored files

A directory may hold a list of what a search should leave out, for itself and everything below
it: the file `.ignore`, and within a repository also `.gitignore` and the repository's
`info/exclude`.  Of all lists that say something of a file the nearest one counts, and within a
list the last line that does.

A list speaks of paths from its own directory on.  What such a path is depends on how the
search writes the directory and the file.

## Main definitions

* `IgnoreLists`, `IgnoreLists.ofTree` — all lists of a tree.
* `View`, `viewsOf` — a path as the lists around it see it.
* `IgnoreLists.ignores` — whether something is left out.
-/

namespace RpcBinder

/-- Lists of rules by the directories that they are for. -/
abbrev RuleLists := List (Location × List IgnoreRule)

/-- The lists of a tree. -/
structure IgnoreLists where
  /-- The files `.ignore`. -/
  ignore : RuleLists
  /-- The files `.gitignore`. -/
  gitignore : RuleLists
  /-- The files `info/exclude` of repositories. -/
  exclude : RuleLists
  /-- The directories with a repository. -/
  repositories : List Location

namespace IgnoreLists

/-- The lists under a name, by the directories that they are for. -/
def named (tree : FileTree) (name : String) : RuleLists :=
  tree.entries.filterMap fun (location, entry) =>
    if location.getLast? == some name then some (location.dropLast, readRules entry.lines)
    else none

/-- The path in the first line of a file behind a mark, if there is one. -/
def pointer? (mark : String) (entry : Entry) : Option String := do
  let rest ← mark.toList.isPrefixOf? (← entry.lines.head?)
  return String.ofList rest

/-- The path of what belongs to a repository, if a file stands in its place that names a path
where another file names the one in question. -/
def linked? (tree : FileTree) (entry : Entry) : Option Path := do
  let git ← pointer? "gitdir: " entry
  let common ← pointer? "" (← (tree.entryAt (Path.join ⟨git⟩ "commondir")).toOption)
  return if common.toList.head? == some '.' then Path.join ⟨git⟩ common else ⟨common⟩

/-- The list of a repository, by what stands under the name `.git`. -/
def excluded (tree : FileTree) (location : Location) : Entry → List IgnoreRule
  | .directory =>
      ((tree.get? (location ++ ["info", "exclude"])).map fun entry => readRules entry.lines).getD []
  | entry =>
      (do
        let common ← linked? tree entry
        let list ← (tree.entryAt (common.join "info/exclude")).toOption
        return readRules list.lines).getD []

/-- The lists of a tree. -/
def ofTree (tree : FileTree) : IgnoreLists where
  ignore := named tree ".ignore"
  gitignore := named tree ".gitignore"
  exclude := tree.entries.filterMap fun (location, entry) =>
    if location.getLast? == some ".git" then
      some (location.dropLast, excluded tree location entry)
    else none
  repositories := tree.entries.filterMap fun (location, _) =>
    if location.getLast? == some ".git" || location.getLast? == some ".jj" then
      some location.dropLast
    else none

end IgnoreLists

/-- A path as the lists of a directory around it see it. -/
structure View where
  /-- The directory. -/
  directory : Location
  /-- The path from the directory on. -/
  path : List Char

namespace View

/-- The text without a first part, or as it is if it does not begin with it. -/
def without (start text : List Char) : List Char :=
  (start.isPrefixOf? text).getD text

/-- The text without a dot and a slash at its start. -/
def withoutDot (text : List Char) : List Char :=
  without ['.', '/'] text

/-- The path without the directory in front of it, as both are written. -/
def fromDirectory (directory path : List Char) : List Char :=
  without ['/'] (without (withoutDot directory) path)

/-- The path is written as a single dot. -/
def isDot (path : List Char) : Bool :=
  Path.components ⟨String.ofList path⟩ == [.current]

/-- The path from a directory on.  A directory written as a dot takes nothing away, and neither
does any from a bare name. -/
def relative (directory path : List Char) : List Char :=
  let path := withoutDot path
  if isDot (withoutDot directory) || !path.contains '/' then path
  else fromDirectory directory path

/-- The text of the path that leads on from a path by names. -/
def textOf (root : Path) (names : List String) : List Char :=
  (names.foldl Path.join root).text.toList

/-- What is found below the root of a search, as the directories from there on see it. -/
def inner (root : Path) (location : Location) (names : List String) : List View :=
  (List.range names.length).reverse.map fun count =>
    ⟨location ++ names.take count,
      relative (textOf root (names.take count)) (withoutDot (textOf root names))⟩

/-- What is found below the root of a search, as the directories around the root see it. -/
def outer (root : Path) (location : Location) (names : List String) : List View :=
  let path := withoutDot (textOf root names)
  let below := if isDot root.text.toList then path else fromDirectory root.text.toList path
  let whole := ((location.foldl Path.join ⟨"/"⟩).join (String.ofList below)).text.toList
  (List.range location.length).reverse.map fun count =>
    ⟨location.take count, relative (textOf ⟨"/"⟩ (location.take count)) whole⟩

end View

/-- What is found below the root of a search, as all directories around it see it, the nearest
one first. -/
def viewsOf (root : Path) (location : Location) (names : List String) : List View :=
  View.inner root location names ++ View.outer root location names

namespace IgnoreLists

/-- What the first of a series of directories whose list says something of a path says. -/
def verdict? (lists : RuleLists) (views : List View) (isDirectory : Bool) : Option Bool :=
  views.findSome? fun view =>
    (lists.lookup view.directory).bind fun rules =>
      rules.findSome? (·.verdict? view.path isDirectory)

/-- The directories up to and with the first one that holds a repository. -/
def withinRepository (lists : IgnoreLists) : List View → List View
  | [] => []
  | view :: views =>
      if lists.repositories.contains view.directory then [view]
      else view :: lists.withinRepository views

/-- The lists leave out what the directories around it see. -/
def ignores (lists : IgnoreLists) (views : List View) (isDirectory : Bool) : Bool :=
  let within := lists.withinRepository views
  let keeps? :=
    verdict? lists.ignore views isDirectory <|>
      if views.any (lists.repositories.contains ·.directory) then
        verdict? lists.gitignore within isDirectory <|> verdict? lists.exclude within isDirectory
      else none
  keeps? == some false

end IgnoreLists

end RpcBinder
