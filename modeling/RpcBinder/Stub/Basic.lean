import RpcBinder.Catalog
import RpcBinder.Path

/-!
# Stubs

A generator makes the text of a stub out of a service and an anchor.  The stub's place below
the output directory follows from the package and the class of the anchor.

## Main definitions

* `StubOptions`, `Generator`, `Stub` — how stubs are made, and what they are.
* `stubPath` — the place of a stub.
* `render` — the stubs of a list of bindings.
-/

namespace RpcBinder

/-- Flags that are handed to a generator. -/
structure StubOptions where
  /-- Names are obfuscated. -/
  obfuscated : Bool := true
  /-- The stub carries information for debugging. -/
  debugInfo : Bool := false
  deriving DecidableEq, Repr, Inhabited

/-- A maker of stubs, which may give up on an anchor with a message. -/
structure Generator where
  /-- The ending of the files, without the dot. -/
  extension : String
  /-- The text of a stub. -/
  generate : StubOptions → Side → Service → Anchor → Except String String

/-- A file to be written. -/
structure Stub where
  /-- Its path. -/
  path : Path
  /-- Its text. -/
  text : String
  deriving DecidableEq, Repr, Inhabited

/-- The segments of a package that are something. -/
def packageSegments (package : String) : List String :=
  ((package.toList.splitOn '.').filter (!·.isEmpty)).map String.ofList

/-- The path of an anchor's stub: a directory for each segment of its package, and a file that
is named like the generated class. -/
def stubPath (outputDir : Path) (anchor : Anchor) (extension : String) : Path :=
  ((packageSegments anchor.package).foldl Path.join outputDir).join
    (anchor.implName ++ "." ++ extension)

/-- The stub of a binding. -/
def renderOne (outputDir : Path) (options : StubOptions) (generator : Generator) (side : Side)
    (binding : Binding) : Except Failure Stub :=
  match generator.generate options side binding.service binding.anchor with
  | .ok text => .ok ⟨stubPath outputDir binding.anchor generator.extension, text⟩
  | .error message => .error (.generator binding.anchor.className message)

/-- The stubs of bindings in order.  The first one on which the generator gives up makes it
fail. -/
def render (outputDir : Path) (options : StubOptions) (generator : Generator) (side : Side)
    (bindings : List Binding) : Except Failure (List Stub) :=
  bindings.mapM (renderOne outputDir options generator side)

end RpcBinder
