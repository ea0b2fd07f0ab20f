import RpcBinder.Command.Arguments
import RpcBinder.Project
import RpcBinder.Stub.Descriptor
import RpcBinder.Stub.Output

/-!
# Running commands

## Main definitions

* `SourceOptions.resolve` — the configuration of a call.
* `Outcome` — how a call ends.
* `runCommand` — a call on a file tree.
* `logDirectory` — where the program keeps its log files.
-/

namespace RpcBinder

/-- The configuration of a call: the one in the file, or the usual one, with the given
directories.  A side without a directory is not generated. -/
def SourceOptions.resolve (options : SourceOptions) (tree : FileTree) : Except Failure Config := do
  let config ← match options.config with
    | some path => Config.load tree path
    | none => pure {}
  let clientRoot := options.client.getD config.clientRoot
  let serverRoot := options.server.getD config.serverRoot
  return { config with
    apiRoot := options.api.getD config.apiRoot
    clientRoot, serverRoot
    generateClient := config.generateClient && !clientRoot.text.isEmpty
    generateServer := config.generateServer && !serverRoot.text.isEmpty }

/-- The configuration of a call with its output directory. -/
def Call.resolve (call : Call) (tree : FileTree) : Except Failure Config := do
  let config ← call.sources.resolve tree
  return { config with outputDir := call.out.getD config.outputDir }

/-- The services and anchors of an analysis as an object. -/
def Analysis.toJson (analysis : Analysis) : Json :=
  Json.ofMembers [("services", .array (analysis.services.map Service.toJson)),
    ("clientAnchors", .array (analysis.clientAnchors.map Anchor.toJson)),
    ("serverAnchors", .array (analysis.serverAnchors.map Anchor.toJson))]

/-- Binds every anchor of a project and counts what there is. -/
def runCheck (tree : FileTree) (config : Config) : Except Failure String := do
  let analysis ← runAnalysis .kotlin tree config
  let clients ← analysis.catalog.bind .client analysis.clientAnchors
  let servers ← analysis.catalog.bind .server analysis.serverAnchors
  return toString analysis.services.length ++ " services, " ++ toString clients.length ++
    " client anchors, " ++ toString servers.length ++ " server anchors, " ++
    toString analysis.warnings.length ++ " warnings\n"

/-- Writes down what the sources of a project declare. -/
def runDump (tree : FileTree) (config : Config) : Except Failure String := do
  return (← runAnalysis .kotlin tree config).toJson.pretty ++ "\n"

/-- Writes a descriptor for every anchor of a project, and lists their paths. -/
def runGenerate (tree : FileTree) (config : Config) : Except Failure String × FileTree :=
  match runAnalysis .kotlin tree config with
  | .error failure => (.error failure, tree)
  | .ok analysis =>
      let (written, tree) :=
        generateStubs config.outputDir config.stubOptions descriptorGenerator descriptorGenerator
          analysis tree
      (written.map fun paths => String.join (paths.map fun path => path.text ++ "\n"), tree)

/-- How a call ends. -/
inductive Outcome
  /-- The arguments break a rule. -/
  | misuse
  /-- There is something to print. -/
  | success (output : String)
  /-- Something went wrong. -/
  | failure (cause : Failure)
  deriving DecidableEq, Repr, Inhabited

namespace Outcome

/-- The outcome of a computation of what to print. -/
def ofExcept : Except Failure String → Outcome
  | .ok output => .success output
  | .error cause => .failure cause

/-- The exit code. -/
def exitCode : Outcome → Nat
  | .misuse => 2
  | .success _ => 0
  | .failure _ => 1

/-- What is printed as the result. -/
def output : Outcome → String
  | .success output => output
  | _ => ""

/-- What is printed as a complaint. -/
def complaint : Outcome → String
  | .failure cause => "Error: " ++ cause.message ++ "\n"
  | _ => ""

end Outcome

/-- The name of the program with its version, in a line. -/
def versionLine : String :=
  "kwire 0.3.0\n"

/-- A call on a file tree. -/
def Call.run (call : Call) (tree : FileTree) : Outcome × FileTree :=
  match call.resolve tree with
  | .error cause => (.failure cause, tree)
  | .ok config =>
      match call.command with
      | .check => (.ofExcept (runCheck tree config), tree)
      | .dump => (.ofExcept (runDump tree config), tree)
      | .generate =>
          let (output, tree) := runGenerate tree config
          (.ofExcept output, tree)

/-- What a list of arguments asks for, done on a file tree. -/
def runCommand (arguments : List String) (tree : FileTree) : Outcome × FileTree :=
  match Request.parse? arguments with
  | none => (.misuse, tree)
  | some .version => (.success versionLine, tree)
  | some (.call call) => call.run tree

/-- The directory for log files: the one that is asked for, or else one below the home
directory, which is the current one if it is not known. -/
def logDirectory (asked home : Option String) : Path :=
  match asked with
  | some directory => ⟨directory⟩
  | none => Path.join ⟨home.getD "."⟩ ".kwire/logs"

end RpcBinder
