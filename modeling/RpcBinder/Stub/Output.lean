import RpcBinder.Analysis.Basic
import RpcBinder.FileTree.Action
import RpcBinder.Stub.Basic

/-!
# Writing stubs

All stubs are made before the first file is touched, so a pass that fails leaves the output
directory as it was.  Then the directory is replaced as a whole.

## Main definitions

* `renderAll` — the stubs of both sides.
* `writeStubs` — the output directory with stubs and nothing else.
* `generateStubs` — both together.
-/

namespace RpcBinder

/-- The stubs of an analysis, those of clients first.  Both sides are bound before the first
stub is made. -/
def renderAll (outputDir : Path) (options : StubOptions) (client server : Generator)
    (analysis : Analysis) : Except Failure (List Stub) := do
  let catalog := analysis.catalog
  let clientBindings ← catalog.bind .client analysis.clientAnchors
  let serverBindings ← catalog.bind .server analysis.serverAnchors
  let clientStubs ← render outputDir options client .client clientBindings
  let serverStubs ← render outputDir options server .server serverBindings
  return clientStubs ++ serverStubs

/-- Writes a stub, with the directories that it needs. -/
def writeStub (stub : Stub) : FileAction Path := do
  match stub.path.parent? with
  | some directory => FileAction.makeDirectories directory
  | none => pure ()
  FileAction.writeText stub.path stub.text
  return stub.path

/-- Replaces the output directory by stubs.  The answer lists their paths. -/
def writeStubs (outputDir : Path) (stubs : List Stub) : FileAction (List Path) := do
  if (← get).pathExists outputDir then FileAction.removeDirectory outputDir
  FileAction.makeDirectories outputDir
  stubs.mapM writeStub

/-- Makes the stubs of an analysis and replaces the output directory by them. -/
def generateStubs (outputDir : Path) (options : StubOptions) (client server : Generator)
    (analysis : Analysis) (tree : FileTree) : Except Failure (List Path) × FileTree :=
  match renderAll outputDir options client server analysis with
  | .error failure => (.error failure, tree)
  | .ok stubs =>
      let (written, tree) := (writeStubs outputDir stubs).run.run tree
      (written.mapError .file, tree)

end RpcBinder
