import RpcBinder.Declaration.Shape
import RpcBinder.Lexis.Braces
import RpcBinder.Scope.Basic

/-!
# The names that a source brings

A source says which names it may use by its package and its imports, and it brings names of its
own by the types that it declares.  Only types outside of all braces can be imported by their
simple names.

## Main definitions

* `scopeOf` — the package and the imports of a source.
* `topLevelTypes` — the names of the types that it declares.
-/

namespace RpcBinder.Declaration

/-- The package and the imports of a source without comments.  The first package directive
counts, and there may be none. -/
def scopeOf (source : List Char) : Scope :=
  let package := (Shape.package.find? source).map (·.part .package)
  (Shape.importing.findAll source).foldl
    (fun scope found =>
      scope.recordImport (String.ofList (found.part .path))
        ((found.part? .alias).map String.ofList))
    { package := String.ofList (package.getD []) }

/-- The simple names of the types declared outside of all braces of a source without
comments, in order. -/
def topLevelTypes (source : List Char) : List String :=
  let found := Shape.type.findAll source
  let length := byteLength source
  let offsets := found.map fun declared => length - declared.start.left
  let depths := (Lexis.DepthTracker.ofText source).depths offsets
  (found.zip depths).filterMap fun (declared, depth) =>
    if depth == 0 then some (String.ofList (declared.part .name)) else none

end RpcBinder.Declaration
