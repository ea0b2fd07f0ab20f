import RpcBinder.Text.Space

/-!
# Names and built-in types

A type is known by its simple name within its package and by its qualified name everywhere.
A dot stands between a package and the names below it; the default package is empty.

A marker is a type that is known without a declaration.  Some markers are streams: a method
that returns one delivers its results one after the other.

## Main definitions

* `qualifiedName` — the name of a type with its package.
* `Marker` — a built-in type.
* `Markers` — a series of them, `Markers.addPackage` and its like.
* `Markers.isStreaming` — whether a qualified type is a stream of something.
* `Markers.kotlin` — the built-in types of Kotlin.
-/

namespace RpcBinder

/-- The qualified name of a simple name in a package. -/
def qualifiedName (package simple : String) : String :=
  if package.isEmpty then simple else package ++ "." ++ simple

/-- A built-in type. -/
structure Marker where
  /-- Its simple name. -/
  simpleName : String
  /-- Its qualified name. -/
  fqn : String
  /-- It is a stream. -/
  streaming : Bool
  deriving DecidableEq, Repr, Inhabited

/-- Built-in types in order. -/
abbrev Markers := List Marker

namespace Markers

/-- One more type that is no stream. -/
def add (markers : Markers) (simpleName fqn : String) : Markers :=
  markers ++ [⟨simpleName, fqn, false⟩]

/-- One more stream. -/
def addStream (markers : Markers) (simpleName fqn : String) : Markers :=
  markers ++ [⟨simpleName, fqn, true⟩]

/-- The types of a package, none of them a stream. -/
def addPackage (markers : Markers) (package : String) (simpleNames : List String) : Markers :=
  markers ++ simpleNames.map fun simple => ⟨simple, qualifiedName package simple, false⟩

/-- The type text is `base` with type arguments. -/
def isGenericOf (base type : String) : Bool :=
  match base.toList.isPrefixOf? type.toList with
  | some rest => (trimStart rest).head? == some '<'
  | none => false

/-- The qualified type is a stream of something: a stream marker with type arguments, under
its qualified name or, where that could not be found, its simple one. -/
def isStreaming (markers : Markers) (type : String) : Bool :=
  markers.any fun marker =>
    marker.streaming && (isGenericOf marker.fqn type || isGenericOf marker.simpleName type)

/-- The built-in types of Kotlin and the stream of its coroutine library. -/
def kotlin : Markers :=
  addStream
    (addPackage
      (addPackage [] "kotlin"
        ["Int", "Long", "Short", "Byte", "Float", "Double", "Boolean", "Char", "Unit", "String",
          "Any"])
      "kotlin.collections"
      ["List", "Set", "Map", "MutableList", "MutableSet", "MutableMap", "Collection", "Iterable"])
    "Flow" "kotlinx.coroutines.flow.Flow"

end Markers

end RpcBinder
