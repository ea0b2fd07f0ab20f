import RpcBinder.Marker
import RpcBinder.Table

/-!
# The types of a project

An index leads from a simple name to every type that it could stand for, in the order in
which these were recorded.

## Main definitions

* `TypeIndex`, `TypeIndex.insert`, `TypeIndex.declare`, `TypeIndex.seed` — the index.
* `TypeIndex.candidates?`, `TypeIndex.contains`, `TypeIndex.unique?`,
  `TypeIndex.isAmbiguous` — what it says of a name.
-/

namespace RpcBinder

/-- The qualified names of the known types, by simple name. -/
structure TypeIndex where
  /-- The candidates of each simple name, without repetition. -/
  candidates : Table String (List String)
  deriving DecidableEq, Repr

namespace TypeIndex

/-- The index without types. -/
def empty : TypeIndex := ⟨.empty⟩

/-- The index with one more candidate for a simple name. -/
def insert (index : TypeIndex) (simple fqn : String) : TypeIndex :=
  ⟨index.candidates.alter simple fun known => addNew fqn (known.getD [])⟩

/-- The index with a declaration found in a package. -/
def declare (index : TypeIndex) (package simple : String) : TypeIndex :=
  index.insert simple (qualifiedName package simple)

/-- The index with built-in types next to what is there: a declared type of the same simple
name is not replaced, the name becomes ambiguous. -/
def seed (index : TypeIndex) (markers : Markers) : TypeIndex :=
  markers.foldl (fun index marker => index.insert marker.simpleName marker.fqn) index

/-- The candidates of a simple name. -/
def candidates? (index : TypeIndex) (simple : String) : Option (List String) :=
  index.candidates.get? simple

/-- A type is a candidate for a simple name. -/
def contains (index : TypeIndex) (simple fqn : String) : Bool :=
  ((index.candidates? simple).getD []).contains fqn

/-- The candidate of a simple name that has exactly one. -/
def unique? (index : TypeIndex) (simple : String) : Option String :=
  match index.candidates? simple with
  | some [fqn] => some fqn
  | _ => none

/-- A simple name has several candidates. -/
def isAmbiguous (index : TypeIndex) (simple : String) : Bool :=
  1 < ((index.candidates? simple).getD []).length

/-- The number of simple names. -/
def size (index : TypeIndex) : Nat :=
  index.candidates.size

end TypeIndex

end RpcBinder
