import RpcBinder.Text.Space
import RpcBinder.Table

/-!
# The scope of a file

What a source file says about names: the package that it belongs to and its imports.

## Main definitions

* `Scope` — a package with explicit imports, wildcard imports and aliases.
* `Scope.recordImport` — one more import.
* `Scope.explicitImport?` — the explicit import of a simple name.
-/

namespace RpcBinder

/-- The package and the imports of a file. -/
structure Scope where
  /-- The package, empty for the default one. -/
  package : String
  /-- Types imported one by one, in order and without repetition. -/
  explicit : List String := []
  /-- Packages of which everything is imported, in order and without repetition. -/
  wildcards : List String := []
  /-- Types imported under another name, by that name. -/
  aliases : Table String String := .empty
  deriving DecidableEq, Repr

namespace Scope

/-- The scope with one more import.  White space around the path and the alias does not
count, an import without a path is none, and a blank alias is none either. -/
def recordImport (scope : Scope) (path : String) (as? : Option String) : Scope :=
  let path := trim path.toList
  let as := trim ((as?.getD "").toList)
  if path.isEmpty then scope
  else if !as.isEmpty then
    { scope with aliases := scope.aliases.insert (String.ofList as) (String.ofList path) }
  else
    match ".*".toList.isSuffixOf? path with
    | some package => { scope with wildcards := addNew (String.ofList package) scope.wildcards }
    | none => { scope with explicit := addNew (String.ofList path) scope.explicit }

/-- The first explicit import whose last segment is a name. -/
def explicitImport? (scope : Scope) (name : String) : Option String :=
  scope.explicit.find? fun path => ('.' :: name.toList).isSuffixOf path.toList

end Scope

end RpcBinder
