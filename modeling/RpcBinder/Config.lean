import RpcBinder.Failure
import RpcBinder.Json.Basic
import RpcBinder.Json.Reader
import RpcBinder.PackageFilter
import RpcBinder.Path
import RpcBinder.Stub.Basic

/-!
# Configurations

The settings of a pass, which may stand in a JSON file.

## Main definitions

* `Config`, `Config.toJson`, `Config.ofJson?` — settings and their JSON form.
* `Config.validate` — the check before a pass.
* `Config.parse` — the settings in a file's text.
-/

namespace RpcBinder

/-- The settings of a pass. -/
structure Config where
  /-- Where the interfaces of services are. -/
  apiRoot : Path := ⟨""⟩
  /-- Where the client anchors are. -/
  clientRoot : Path := ⟨""⟩
  /-- Where the server anchors are. -/
  serverRoot : Path := ⟨""⟩
  /-- Where stubs are written. -/
  outputDir : Path := ⟨"build/generated/rpc"⟩
  /-- Names are obfuscated. -/
  obfuscated : Bool := true
  /-- Clients are generated. -/
  generateClient : Bool := true
  /-- Servers are generated. -/
  generateServer : Bool := true
  /-- Stubs carry information for debugging. -/
  debugInfo : Bool := false
  /-- The packages to include; none means all. -/
  includePackages : List String := []
  /-- The packages to exclude. -/
  excludePackages : List String := []
  /-- The endings of source files; none means the usual one. -/
  sourceExtensions : List String := []
  deriving DecidableEq, Repr, Inhabited

namespace Config

open Json

/-- The names of the settings, in order. -/
def fieldNames : List String :=
  ["apiSourcePath", "clientSourcePath", "serverSourcePath", "outputDir", "obfuscationEnabled",
    "generateClient", "generateServer", "generateDebugInfo", "includePackages",
    "excludePackages", "sourceExtensions"]

/-- The settings as an object. -/
def toJson (config : Config) : Json :=
  ofMembers (fieldNames.zip
    [string config.apiRoot.text, string config.clientRoot.text, string config.serverRoot.text,
      string config.outputDir.text, .bool config.obfuscated, .bool config.generateClient,
      .bool config.generateServer, .bool config.debugInfo, strings config.includePackages,
      strings config.excludePackages, strings config.sourceExtensions])

/-- The path that a value names. -/
def pathOf? (value : Json) : Option Path :=
  value.asString?.map Path.mk

/-- The settings that a value describes.  Each of them may be missing and then has its
default. -/
def ofJson? (value : Json) : Option Config := do
  let [api, client, server, output, obfuscated, withClient, withServer, debug, included, excluded,
    extensions] ← value.fields? fieldNames | none
  let usual : Config := {}
  return {
    apiRoot := ← withDefault usual.apiRoot api pathOf?
    clientRoot := ← withDefault usual.clientRoot client pathOf?
    serverRoot := ← withDefault usual.serverRoot server pathOf?
    outputDir := ← withDefault usual.outputDir output pathOf?
    obfuscated := ← withDefault usual.obfuscated obfuscated asBool?
    generateClient := ← withDefault usual.generateClient withClient asBool?
    generateServer := ← withDefault usual.generateServer withServer asBool?
    debugInfo := ← withDefault usual.debugInfo debug asBool?
    includePackages := ← withDefault usual.includePackages included (asList? asString?)
    excludePackages := ← withDefault usual.excludePackages excluded (asList? asString?)
    sourceExtensions := ← withDefault usual.sourceExtensions extensions (asList? asString?) }

/-- The first blank entry of the package filters. -/
def blankFilter? (config : Config) : Option String :=
  (config.includePackages ++ config.excludePackages).find? fun entry => isBlank entry.toList

/-- Settings must name an output directory, and no entry of a package filter may be blank. -/
def validate (config : Config) : Except ConfigFault Unit :=
  if config.outputDir.text.isEmpty then .error .emptyOutputDir
  else
    match config.blankFilter? with
    | some entry => .error (.blankFilter entry)
    | none => .ok ()

/-- The settings in the text of a file. -/
def parse (text : String) : Except Failure Config :=
  match (Json.parse? text).bind ofJson? with
  | none => .error .json
  | some config =>
      match config.validate with
      | .ok () => .ok config
      | .error fault => .error (.config fault)

/-- The filter of packages. -/
def packageFilter (config : Config) : PackageFilter :=
  ⟨config.includePackages, config.excludePackages⟩

/-- The flags for a generator. -/
def stubOptions (config : Config) : StubOptions :=
  ⟨config.obfuscated, config.debugInfo⟩

/-- The endings of source files. -/
def extensions (config : Config) : List String :=
  if config.sourceExtensions.isEmpty then ["kt"] else config.sourceExtensions

end Config

end RpcBinder
