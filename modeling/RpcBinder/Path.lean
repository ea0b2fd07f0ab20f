import RpcBinder.Text.Split

/-!
# Paths

A path is kept as it is written.  Its components are what it says about places: doubled and
closing slashes and inner dots say nothing.

## Main definitions

* `Path`, `Path.Component`, `Path.components` — paths and their components.
* `Path.le` — the order of paths, by their components.
* `Path.join`, `Path.parent?` — the path of something within, and of what is around.
* `Path.extension?` — the ending of a file's name.
-/

namespace RpcBinder

/-- A path as it is written. -/
structure Path where
  /-- The text. -/
  text : String
  deriving DecidableEq, Repr, Inhabited

namespace Path

/-- A step of a path. -/
inductive Component
  /-- The root of all directories. -/
  | root
  /-- The directory itself, at the start of a path. -/
  | current
  /-- The directory around. -/
  | parent
  /-- Something within the directory. -/
  | named (name : String)
  deriving DecidableEq, Repr, Inhabited

/-- The path begins at the root. -/
def isAbsolute (path : Path) : Bool :=
  path.text.toList.head? == some '/'

/-- The path ends with a slash. -/
def endsWithSlash (path : Path) : Bool :=
  path.text.toList.getLast? == some '/'

/-- What stands between the slashes of a path, as far as it is something. -/
def segments (path : Path) : List String :=
  ((path.text.toList.splitOn '/').filter (!·.isEmpty)).map String.ofList

/-- The component that a segment stands for; an inner dot stands for none. -/
def componentOf? (segment : String) : Option Component :=
  if segment == "." then none
  else if segment == ".." then some .parent
  else some (.named segment)

/-- The components of a path. -/
def components (path : Path) : List Component :=
  let segments := path.segments
  let inner := segments.filterMap componentOf?
  if path.isAbsolute then .root :: inner
  else if segments.head? == some "." then .current :: inner
  else inner

/-- The first component comes before the second, which differs from it. -/
def Component.lt : Component → Component → Bool
  | .root, _ => true
  | _, .root => false
  | .current, _ => true
  | _, .current => false
  | .parent, _ => true
  | _, .parent => false
  | .named a, .named b => a < b

/-- Lists of components in the order of their first difference. -/
def componentsLe : List Component → List Component → Bool
  | [], _ => true
  | _ :: _, [] => false
  | a :: as, b :: bs => if a == b then componentsLe as bs else a.lt b

/-- The first path does not come after the second. -/
def le (a b : Path) : Bool :=
  componentsLe a.components b.components

/-- The path of something within a directory.  An absolute path stays as it is, and a slash is
written only where there is none. -/
def join (directory : Path) (within : String) : Path :=
  if within.toList.head? == some '/' then ⟨within⟩
  else if directory.text.isEmpty || directory.endsWithSlash then ⟨directory.text ++ within⟩
  else ⟨directory.text ++ "/" ++ within⟩

/-- The text of a component that is not the root. -/
def Component.text : Component → String
  | .root => ""
  | .current => "."
  | .parent => ".."
  | .named name => name

/-- The path with the given components. -/
def ofComponents : List Component → Path
  | .root :: inner => ⟨"/" ++ String.intercalate "/" (inner.map Component.text)⟩
  | components => ⟨String.intercalate "/" (components.map Component.text)⟩

/-- The path with all components but the last.  The root and the empty path have none. -/
def parent? (path : Path) : Option Path :=
  match path.components with
  | [] => none
  | [.root] => none
  | components => some (ofComponents components.dropLast)

/-- The path and the paths around it, from the inside out. -/
def ancestors (path : Path) : List Path :=
  let components := path.components
  let inner := match components with
    | .root :: inner => inner
    | inner => inner
  path :: (List.range inner.length).map fun count =>
    ofComponents (components.take (components.length - 1 - count))

/-- The part of a name behind its last dot, unless that dot is its first character. -/
def nameExtension? (name : String) : Option String :=
  match splitLast? '.' name.toList with
  | some (before, ending) => if before.isEmpty then none else some (String.ofList ending)
  | none => none

/-- The ending of the name of a file. -/
def extension? (path : Path) : Option String :=
  match path.components.getLast? with
  | some (.named name) => nameExtension? name
  | _ => none

end Path

end RpcBinder
