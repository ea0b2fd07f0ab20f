import RpcBinder.Analysis.Warning
import RpcBinder.Catalog
import RpcBinder.Declaration.Anchor
import RpcBinder.Declaration.Scope
import RpcBinder.Declaration.Service
import RpcBinder.Lexis.Comments
import RpcBinder.PackageFilter
import RpcBinder.Source.SourceSet

/-!
# The analysis of a project

All sources are read before the first type is resolved: the index of types covers every file
of every set.  What lies outside of the filtered packages is read too, and only left out of
the result.

## Main definitions

* `SourceUnit`, `SourceUnit.ofFile`, `indexOf` — sources prepared for the search.
* `Analysis` — what a project declares.
* `analyze` — the analysis of a project.
* `parseServices`, `parseAnchors` — the declarations of a single set.
-/

namespace RpcBinder.Analysis

/-- A source file prepared for the search. -/
structure SourceUnit where
  /-- The file. -/
  file : SourceFile
  /-- Its text with the comments blanked. -/
  text : List Char
  /-- Its package and imports. -/
  scope : Scope
  /-- The types that it declares outside of braces. -/
  declared : List String

/-- A file prepared for the search. -/
def SourceUnit.ofFile (file : SourceFile) : SourceUnit :=
  let text := Lexis.stripComments file.text.toList
  { file, text, scope := Declaration.scopeOf text, declared := Declaration.topLevelTypes text }

/-- The files of a set prepared for the search. -/
def prepare (sources : SourceSet) : List SourceUnit :=
  sources.files.map SourceUnit.ofFile

/-- The index with the types that a unit declares. -/
def SourceUnit.declareIn (unit : SourceUnit) (index : TypeIndex) : TypeIndex :=
  unit.declared.foldl (fun index simple => index.declare unit.scope.package simple) index

/-- The index of the types that units declare, and of the built-in types behind them. -/
def indexOf (markers : Markers) (units : List SourceUnit) : TypeIndex :=
  (units.foldl (fun index unit => unit.declareIn index) TypeIndex.empty).seed markers

/-- A unit's view of names. -/
def SourceUnit.resolver (unit : SourceUnit) (index : TypeIndex) : Resolver :=
  ⟨unit.scope, index⟩

/-- The services of units in order.  The first method that cannot be read makes it fail. -/
def servicesOf (markers : Markers) (index : TypeIndex) (units : List SourceUnit) :
    Except Failure (List Service) := do
  let found ← units.mapM fun unit =>
    (Declaration.servicesOf (unit.resolver index) markers unit.text).mapError
      fun fault => Failure.malformedParameter fault.fragment
  return found.flatten

/-- The anchors of one side in units, in order. -/
def anchorsOf (side : Side) (index : TypeIndex) (units : List SourceUnit) : List Anchor :=
  units.flatMap fun unit => Declaration.anchorsOf (unit.resolver index) side unit.text

/-- A text holds another one. -/
def mentions (text part : List Char) : Bool :=
  match text with
  | [] => part.isEmpty
  | c :: rest => part.isPrefixOf (c :: rest) || mentions rest part

/-- The warning that units declare nothing of a kind. -/
def noDeclarations (kind : DeclarationKind) (units : List SourceUnit) : Warning :=
  .noDeclarations kind (units.map fun unit =>
    ⟨unit.file.path, mentions unit.file.text.toList kind.tag.toList⟩)

/-- A warning if nothing was found. -/
def warnIfNone {α : Type} (found : List α) (kind : DeclarationKind) (units : List SourceUnit) :
    List Warning :=
  if found.isEmpty then [noDeclarations kind units] else []

/-- A warning for every interface that was seen before, `seen` or further left in the list. -/
def duplicates (seen : List String) : List String → List Warning
  | [] => []
  | fqn :: fqns =>
      if seen.contains fqn then .duplicateService fqn :: duplicates seen fqns
      else duplicates (fqn :: seen) fqns

/-- The kind of a side's anchors. -/
def anchorKind : Side → DeclarationKind
  | .client => .clientAnchor
  | .server => .serverAnchor

/-- The anchors of a side that a filter lets through, and a warning if there are none.  A side
that is not generated has neither. -/
def analyzeSide (side : Side) (filter : PackageFilter) (index : TypeIndex) :
    Option (List SourceUnit) → List Anchor × List Warning
  | none => ([], [])
  | some units =>
      let anchors := (anchorsOf side index units).filter (filter.allows ·.package)
      (anchors, warnIfNone anchors (anchorKind side) units)

end Analysis

/-- The sources of a project. -/
structure ProjectSources where
  /-- The interfaces of services. -/
  api : SourceSet
  /-- The client anchors, if clients are generated. -/
  client : Option SourceSet := none
  /-- The server anchors, if servers are generated. -/
  server : Option SourceSet := none
  deriving DecidableEq, Repr

/-- What a project declares. -/
structure Analysis where
  /-- The services in order. -/
  services : List Service
  /-- The client anchors in order. -/
  clientAnchors : List Anchor
  /-- The server anchors in order. -/
  serverAnchors : List Anchor
  /-- The warnings in order. -/
  warnings : List Warning
  deriving DecidableEq, Repr

namespace Analysis

/-- The catalog of the services. -/
def catalog (analysis : Analysis) : Catalog :=
  .ofServices analysis.services

/-- The anchors of a side. -/
def anchors (analysis : Analysis) : Side → List Anchor
  | .client => analysis.clientAnchors
  | .server => analysis.serverAnchors

/-- The services of prepared units that a filter lets through. -/
def allowedServices (markers : Markers) (filter : PackageFilter) (index : TypeIndex)
    (units : List SourceUnit) : Except Failure (List Service) := do
  return (← servicesOf markers index units).filter (filter.allows ·.package)

/-- The analysis of the sources of a project. -/
def analyze (markers : Markers) (filter : PackageFilter) (sources : ProjectSources) :
    Except Failure Analysis := do
  let api := prepare sources.api
  let client := sources.client.map prepare
  let server := sources.server.map prepare
  let index := indexOf markers (api ++ client.getD [] ++ server.getD [])
  let services ← allowedServices markers filter index api
  let (clientAnchors, clientWarnings) := analyzeSide .client filter index client
  let (serverAnchors, serverWarnings) := analyzeSide .server filter index server
  return {
    services, clientAnchors, serverAnchors
    warnings := warnIfNone services .service api ++
      duplicates [] (services.map Service.interfaceFqn) ++ clientWarnings ++ serverWarnings }

/-- The services of a single set, whose own types alone are known. -/
def parseServices (markers : Markers) (filter : PackageFilter) (sources : SourceSet) :
    Except Failure (List Service) :=
  let units := prepare sources
  allowedServices markers filter (indexOf markers units) units

/-- The anchors of a single set, whose own types alone are known. -/
def parseAnchors (markers : Markers) (filter : PackageFilter) (side : Side)
    (sources : SourceSet) : List Anchor :=
  let units := prepare sources
  (anchorsOf side (indexOf markers units) units).filter (filter.allows ·.package)

end Analysis

end RpcBinder
