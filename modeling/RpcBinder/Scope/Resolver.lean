import RpcBinder.Scope.Basic
import RpcBinder.Scope.TypeIndex
import RpcBinder.TypeRef.Reader

/-!
# Resolving names

A simple name in a file stands for a type that its scope or the index of the project knows.
The rules are tried in a fixed order, and a name that none of them covers stays as it is.

## Main definitions

* `ResolutionRule`, `Resolution` — a qualified name and the rule that gave it.
* `Resolver.resolve` — the resolution of a name.
* `Resolver.qualify` — a type reference with its names resolved.
-/

namespace RpcBinder

/-- The rules, in the order in which they are tried. -/
inductive ResolutionRule
  /-- The name holds a dot. -/
  | alreadyQualified
  /-- The name is an alias. -/
  | aliased
  /-- The name is the last segment of an explicit import. -/
  | explicitImport
  /-- A package imported as a whole is known to declare the name. -/
  | wildcardImport
  /-- The file's own package is known to declare the name. -/
  | samePackage
  /-- Only one type of that name is known. -/
  | globallyUnique
  /-- None of the above. -/
  | unresolved
  deriving DecidableEq, Repr, Inhabited

/-- What a name stands for, and why. -/
structure Resolution where
  /-- The qualified name. -/
  fqn : String
  /-- The rule that gave it. -/
  rule : ResolutionRule
  deriving DecidableEq, Repr, Inhabited

/-- A file's view of names: its own scope and the types of the project. -/
structure Resolver where
  /-- The scope of the file. -/
  scope : Scope
  /-- The types of the project. -/
  index : TypeIndex

namespace Resolver

/-- The first package imported as a whole that is known to declare a name, as the qualified
name in it. -/
def wildcard? (resolver : Resolver) (name : String) : Option String :=
  (resolver.scope.wildcards.map (qualifiedName · name)).find? (resolver.index.contains name)

/-- The name in the file's own package, if that is known to declare it. -/
def samePackage? (resolver : Resolver) (name : String) : Option String :=
  let fqn := qualifiedName resolver.scope.package name
  if resolver.index.contains name fqn then some fqn else none

/-- What a name stands for. -/
def resolve (resolver : Resolver) (name : String) : Resolution :=
  if name.toList.contains '.' then ⟨name, .alreadyQualified⟩
  else
    match resolver.scope.aliases.get? name with
    | some fqn => ⟨fqn, .aliased⟩
    | none =>
        match resolver.scope.explicitImport? name with
        | some fqn => ⟨fqn, .explicitImport⟩
        | none =>
            match resolver.wildcard? name with
            | some fqn => ⟨fqn, .wildcardImport⟩
            | none =>
                match resolver.samePackage? name with
                | some fqn => ⟨fqn, .samePackage⟩
                | none =>
                    match resolver.index.unique? name with
                    | some fqn => ⟨fqn, .globallyUnique⟩
                    | none => ⟨name, .unresolved⟩

/-- The qualified name that a simple name stands for, as a text. -/
def qualifyName (resolver : Resolver) (name : List Char) : List Char :=
  (resolver.resolve (String.ofList name)).fqn.toList

/-- The text of a type reference with its names qualified. -/
def qualify (resolver : Resolver) (text : List Char) : List Char :=
  ((TypeRef.read text).mapNames resolver.qualifyName).render

end Resolver

end RpcBinder
