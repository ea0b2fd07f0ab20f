import RpcBinder.Analysis.Basic
import RpcBinder.Config
import RpcBinder.Source.Load

/-!
# Projects on disk

A configuration says where the sources of a project are.

## Main definitions

* `Config.load` — the configuration in a file.
* `loadSources` — the sources of a project, with warnings for what is missing.
* `runAnalysis` — the analysis of a project.
-/

namespace RpcBinder

/-- The configuration in a file. -/
def Config.load (tree : FileTree) (path : Path) : Except Failure Config :=
  match tree.readText path with
  | .error error => .error (.file error)
  | .ok text => Config.parse text

/-- The sources below a directory, or a warning if it does not exist. -/
def loadRole (tree : FileTree) (extensions : List String) (role : SourceRole) (root : Path) :
    SourceSet × List Warning :=
  if tree.pathExists root then (SourceSet.load tree root extensions, [])
  else (.empty, [.missingRoot role root])

/-- The sources below a directory if they are wanted. -/
def loadRoleIf (wanted : Bool) (tree : FileTree) (extensions : List String) (role : SourceRole)
    (root : Path) : Option SourceSet × List Warning :=
  if wanted then
    let (sources, warnings) := loadRole tree extensions role root
    (some sources, warnings)
  else (none, [])

/-- The sources of a project, and the warnings for directories that do not exist. -/
def loadSources (tree : FileTree) (config : Config) : ProjectSources × List Warning :=
  let extensions := config.extensions
  let (api, apiWarnings) := loadRole tree extensions .api config.apiRoot
  let (client, clientWarnings) :=
    loadRoleIf config.generateClient tree extensions .client config.clientRoot
  let (server, serverWarnings) :=
    loadRoleIf config.generateServer tree extensions .server config.serverRoot
  (⟨api, client, server⟩, apiWarnings ++ clientWarnings ++ serverWarnings)

/-- The analysis of a project, with the warnings for missing directories first. -/
def runAnalysis (markers : Markers) (tree : FileTree) (config : Config) :
    Except Failure Analysis :=
  match config.validate with
  | .error fault => .error (.config fault)
  | .ok () =>
      let (sources, warnings) := loadSources tree config
      (Analysis.analyze markers config.packageFilter sources).map fun analysis =>
        { analysis with warnings := warnings ++ analysis.warnings }

end RpcBinder
