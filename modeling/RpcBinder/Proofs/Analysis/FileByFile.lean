import RpcBinder.Analysis.Basic
import RpcBinder.Proofs.Declaration.View
import RpcBinder.Proofs.Text.Parts

/-!
# Analyses file by file

What an analysis finds in a file depends on the text of the file and on the pairs of names that
the project records, and not on the order in which they were recorded or on the files and sets
from which they came.  Without a filter the services of an analysis are those of its files, one
file after the other, and so are the anchors of each side.

## Main definitions

* `indexSteps`, `registeredPairs` — how the index of a project grows, and what it records.
* `fileServices`, `fileAnchors` — what a project finds in one of its files.
* `IsByFile` — an analysis that is put together file by file.

## Main results

* `isByFile_of_analyze` — an analysis without a filter is put together file by file.
* `declarations_eq_of_same_pairs` — the order of an index and the other files do not matter.
-/

namespace RpcBinder.Analysis

/-- The steps by which a unit's types come into an index. -/
def SourceUnit.steps (unit : SourceUnit) : List IndexStep :=
  unit.declared.map (.declare unit.scope.package)

/-- The steps by which the index of units grows. -/
def indexSteps (markers : Markers) (units : List SourceUnit) : List IndexStep :=
  units.flatMap SourceUnit.steps ++ [.seed markers]

/-- The index of units is built by steps. -/
theorem indexOf_eq_build (markers : Markers) (units : List SourceUnit) :
    indexOf markers units = TypeIndex.build (indexSteps markers units) := by
  have hunit (unit : SourceUnit) (index : TypeIndex) :
      unit.declareIn index = unit.steps.foldl TypeIndex.apply index := by
    rw [SourceUnit.declareIn, SourceUnit.steps, List.foldl_map]
    rfl
  have hunits (index : TypeIndex) :
      units.foldl (fun index unit => unit.declareIn index) index =
        (units.flatMap SourceUnit.steps).foldl TypeIndex.apply index := by
    simp only [hunit, List.foldl_flatMap]
  rw [indexOf, TypeIndex.build, indexSteps, List.foldl_append, hunits]
  rfl

/-- The prepared files of all sets of a project. -/
def projectUnits (sources : ProjectSources) : List SourceUnit :=
  prepare sources.api ++ (sources.client.map prepare).getD [] ++
    (sources.server.map prepare).getD []

/-- The pairs of a simple and a qualified name that the index of a project records. -/
def registeredPairs (markers : Markers) (sources : ProjectSources) : List (String × String) :=
  recordedPairs (indexSteps markers (projectUnits sources))

/-- The index of a project. -/
def projectIndex (markers : Markers) (sources : ProjectSources) : TypeIndex :=
  indexOf markers (projectUnits sources)

/-- The services that a project finds in a file. -/
def fileServices (markers : Markers) (sources : ProjectSources) (file : SourceFile) :
    Except Failure (List Service) :=
  let unit := SourceUnit.ofFile file
  (Declaration.servicesOf (unit.resolver (projectIndex markers sources)) markers unit.text).mapError
    fun fault => Failure.malformedParameter fault.fragment

/-- The anchors of a side that a project finds in a file. -/
def fileAnchors (markers : Markers) (sources : ProjectSources) (side : Side)
    (file : SourceFile) : List Anchor :=
  let unit := SourceUnit.ofFile file
  Declaration.anchorsOf (unit.resolver (projectIndex markers sources)) side unit.text

/-- The files in which the anchors of a side are looked for. -/
def anchorFiles (sources : ProjectSources) : Side → List SourceFile
  | .client => (sources.client.map SourceSet.files).getD []
  | .server => (sources.server.map SourceSet.files).getD []

/-- An analysis of a project is put together from what the project finds in each file. -/
structure IsByFile (markers : Markers) (sources : ProjectSources) (analysis : Analysis) :
    Prop where
  /-- The services are those of the files with interfaces, in order. -/
  services : ∃ found, List.Forall₂ (fun services file =>
      fileServices markers sources file = .ok services) found sources.api.files ∧
    analysis.services = found.flatten
  /-- The anchors of a side are those of its files, in order. -/
  anchors : ∀ side, analysis.anchors side =
    (anchorFiles sources side).flatMap (fileAnchors markers sources side)

/-! ### One analysis -/

theorem filter_allows_empty {α : Type} (package : α → String) (xs : List α) :
    xs.filter (fun x => ({} : PackageFilter).allows (package x)) = xs :=
  List.filter_eq_self.2 fun _ _ => rfl

theorem fst_analyzeSide (side : Side) (index : TypeIndex) (units : Option (List SourceUnit)) :
    (analyzeSide side {} index units).1 = anchorsOf side index (units.getD []) := by
  cases units with
  | none => rfl
  | some units => exact filter_allows_empty Anchor.package _

theorem allowedServices_empty (markers : Markers) (index : TypeIndex) (units : List SourceUnit) :
    allowedServices markers {} index units = servicesOf markers index units := by
  unfold allowedServices
  cases servicesOf markers index units with
  | error failure => rfl
  | ok services => exact congrArg Except.ok (filter_allows_empty Service.package services)

theorem anchorsOf_prepare (markers : Markers) (sources : ProjectSources) (side : Side)
    (set : Option SourceSet) :
    anchorsOf side (projectIndex markers sources) ((set.map prepare).getD []) =
      ((set.map SourceSet.files).getD []).flatMap (fileAnchors markers sources side) := by
  cases set with
  | none => rfl
  | some set => exact List.flatMap_map _ _ set.files

theorem servicesOf_prepare {markers : Markers} {sources : ProjectSources}
    {services : List Service}
    (h : servicesOf markers (projectIndex markers sources) (prepare sources.api) = .ok services) :
    ∃ found, List.Forall₂ (fun services file =>
        fileServices markers sources file = .ok services) found sources.api.files ∧
      services = found.flatten := by
  unfold servicesOf at h
  rw [prepare, List.mapM_map] at h
  cases hfound : sources.api.files.mapM (fileServices markers sources) with
  | error failure => exact absurd (hfound ▸ h) nofun
  | ok found =>
    have hflatten : found.flatten = services := Except.ok.inj (hfound ▸ h)
    exact ⟨found, forall₂_of_mapM_eq_ok hfound, hflatten.symm⟩

theorem analyze_eq (markers : Markers) (filter : PackageFilter) (sources : ProjectSources) :
    let index := projectIndex markers sources
    let client := sources.client.map prepare
    let server := sources.server.map prepare
    analyze markers filter sources =
      allowedServices markers filter index (prepare sources.api) >>= fun services =>
        pure {
          services
          clientAnchors := (analyzeSide .client filter index client).1
          serverAnchors := (analyzeSide .server filter index server).1
          warnings := warnIfNone services .service (prepare sources.api) ++
            duplicates [] (services.map Service.interfaceFqn) ++
            (analyzeSide .client filter index client).2 ++
            (analyzeSide .server filter index server).2 } := rfl

/-- An analysis without a filter is put together file by file. -/
theorem isByFile_of_analyze {markers : Markers} {sources : ProjectSources} {analysis : Analysis}
    (h : analyze markers {} sources = .ok analysis) : IsByFile markers sources analysis := by
  rw [analyze_eq, allowedServices_empty] at h
  cases hservices : servicesOf markers (projectIndex markers sources) (prepare sources.api) with
  | error failure =>
    rw [hservices] at h
    cases h
  | ok services =>
    rw [hservices] at h
    obtain rfl := Except.ok.inj h
    refine ⟨servicesOf_prepare hservices, fun side => ?_⟩
    cases side with
    | client => exact (fst_analyzeSide _ _ _).trans (anchorsOf_prepare markers sources _ _)
    | server => exact (fst_analyzeSide _ _ _).trans (anchorsOf_prepare markers sources _ _)

/-! ### Two analyses -/

theorem alike_of_recordedPairs {first second : List IndexStep}
    (h : ∀ pair, pair ∈ recordedPairs first ↔ pair ∈ recordedPairs second) (scope : Scope) :
    Resolver.Alike ⟨scope, TypeIndex.build first⟩ ⟨scope, TypeIndex.build second⟩ :=
  Resolver.alike_of_contains (TypeIndex.isTidy_build first) (TypeIndex.isTidy_build second)
    (TypeIndex.contains_build_congr h) scope

theorem alike_of_registeredPairs {markers : Markers} {first second : ProjectSources}
    (h : ∀ pair, pair ∈ registeredPairs markers first ↔ pair ∈ registeredPairs markers second)
    (unit : SourceUnit) :
    (unit.resolver (projectIndex markers first)).Alike
      (unit.resolver (projectIndex markers second)) := by
  rw [projectIndex, projectIndex, indexOf_eq_build, indexOf_eq_build]
  exact alike_of_recordedPairs h unit.scope

theorem fileServices_congr {markers : Markers} {first second : ProjectSources}
    (h : ∀ pair, pair ∈ registeredPairs markers first ↔ pair ∈ registeredPairs markers second)
    (file : SourceFile) : fileServices markers first file = fileServices markers second file := by
  rw [fileServices, fileServices, Declaration.servicesOf_congr (alike_of_registeredPairs h _)]

theorem fileAnchors_congr {markers : Markers} {first second : ProjectSources}
    (h : ∀ pair, pair ∈ registeredPairs markers first ↔ pair ∈ registeredPairs markers second)
    (side : Side) (file : SourceFile) :
    fileAnchors markers first side file = fileAnchors markers second side file :=
  Declaration.anchorsOf_congr (alike_of_registeredPairs h _) side _

/-- **What a file yields depends on its text and on the set of the recorded pairs.**  Under
indexes that recorded the same pairs, in whatever order and however often, names, types and
sources are read alike.  So two analyses without a filter, each of which is put together from
what its project finds in each file, hold the same for a file that both of them read in the
same role. -/
theorem declarations_eq_of_same_pairs (markers : Markers) :
    (∀ first second : List IndexStep,
      (∀ pair, pair ∈ recordedPairs first ↔ pair ∈ recordedPairs second) →
      ∀ scope : Scope,
        let one : Resolver := ⟨scope, TypeIndex.build first⟩
        let other : Resolver := ⟨scope, TypeIndex.build second⟩
        (∀ name, one.resolve name = other.resolve name) ∧
        (∀ text, one.qualify text = other.qualify text) ∧
        (∀ source, Declaration.servicesOf one markers source =
          Declaration.servicesOf other markers source) ∧
        ∀ side source, Declaration.anchorsOf one side source =
          Declaration.anchorsOf other side source) ∧
    ∀ (first second : ProjectSources) (one other : Analysis),
      (∀ pair, pair ∈ registeredPairs markers first ↔ pair ∈ registeredPairs markers second) →
      analyze markers {} first = .ok one →
      analyze markers {} second = .ok other →
      IsByFile markers first one ∧ IsByFile markers second other ∧
      (∀ file ∈ first.api.files, file ∈ second.api.files → ∃ services,
        fileServices markers first file = .ok services ∧
        fileServices markers second file = .ok services) ∧
      ∀ side, ∀ file ∈ anchorFiles first side, file ∈ anchorFiles second side →
        fileAnchors markers first side file = fileAnchors markers second side file := by
  constructor
  · -- two indices of the same pairs answer every question on names alike
    intro first second hpairs scope one other
    have halike : one.Alike other := alike_of_recordedPairs hpairs scope
    exact ⟨halike.resolve, halike.qualify, Declaration.servicesOf_congr halike markers,
      Declaration.anchorsOf_congr halike⟩
  · -- either analysis is put together from what its files give one by one
    intro first second one other hpairs hone hother
    have hparts := isByFile_of_analyze hone
    refine ⟨hparts, isByFile_of_analyze hother, fun file hfirst _ => ?_, fun side file _ _ =>
      fileAnchors_congr hpairs side file⟩
    obtain ⟨found, hfound, -⟩ := hparts.services
    obtain ⟨services, -, hservices⟩ := exists_related_of_mem hfound hfirst
    exact ⟨services, hservices, fileServices_congr hpairs file ▸ hservices⟩

deriving instance DecidableEq for SourceUnit

theorem declarations_eq_of_same_pairs_example :
    let scope : Scope := { package := "c", wildcards := ["b"] }
    let steps : List IndexStep := [.declare "a" "X", .insert "X" "b.X"]
    let others : List IndexStep := [.seed [⟨"X", "b.X", true⟩], .insert "X" "a.X", .declare "b" "X"]
    let service : SourceFile := ⟨⟨"A.kt"⟩, "package a\n@RpcService(\"A\")\ninterface A"⟩
    let anchor : SourceFile := ⟨⟨"C.kt"⟩, "@RpcClient abstract class C:A"⟩
    let first : ProjectSources := ⟨⟨[service]⟩, some ⟨[anchor]⟩, none⟩
    let second : ProjectSources := ⟨⟨[service]⟩, some ⟨[service, anchor]⟩, none⟩
    let found : Analysis := ⟨[⟨"A", "a", "A", []⟩], [⟨"", "C", "a.A", none, true⟩], [], []⟩
    ((∀ pair, pair ∈ recordedPairs steps ↔ pair ∈ recordedPairs others) ∧
      Resolver.resolve ⟨scope, .build steps⟩ "X" = Resolver.resolve ⟨scope, .build others⟩ "X") ∧
    (∀ pair, pair ∈ registeredPairs [] first ↔ pair ∈ registeredPairs [] second) ∧
    analyze [] {} first = .ok found ∧ analyze [] {} second = .ok found ∧
    fileAnchors [] first .client anchor = fileAnchors [] second .client anchor := by
  intro scope steps others service anchor first second found
  have hsteps (pair : String × String) :
      pair ∈ recordedPairs steps ↔ pair ∈ recordedPairs others := by
    have hsame : recordedPairs others = ("X", "b.X") :: recordedPairs steps := by decide
    have hold : ("X", "b.X") ∈ recordedPairs steps := by decide
    rw [hsame, List.mem_cons, or_iff_right_of_imp (· ▸ hold)]
  -- Each file is prepared once here, and not again for every analysis.
  have hservice : SourceUnit.ofFile service =
      ⟨service, service.text.toList, { package := "a" }, ["A"]⟩ := by decide +kernel
  have hanchor : SourceUnit.ofFile anchor =
      ⟨anchor, anchor.text.toList, { package := "" }, ["C"]⟩ := by decide +kernel
  have hapi : prepare ⟨[service]⟩ = [_] := congrArg ([·]) hservice
  have hclient : prepare ⟨[anchor]⟩ = [_] := congrArg ([·]) hanchor
  have hboth : prepare ⟨[service, anchor]⟩ = [_, _] := congrArg₂ ([·, ·]) hservice hanchor
  have hpairs (pair : String × String) :
      pair ∈ registeredPairs [] first ↔ pair ∈ registeredPairs [] second := by
    have hfirst : registeredPairs [] first = [("A", "a.A"), ("C", "C")] := by
      simp only [registeredPairs, projectUnits, first, Option.map_some, Option.map_none, hapi,
        hclient]
      decide
    have hsecond : registeredPairs [] second = ("A", "a.A") :: registeredPairs [] first := by
      rw [hfirst]
      simp only [registeredPairs, projectUnits, second, Option.map_some, hapi, hboth]
      decide
    have hold : ("A", "a.A") ∈ registeredPairs [] first := by rw [hfirst]; decide
    rw [hsecond, List.mem_cons, or_iff_right_of_imp (· ▸ hold)]
  have hone : analyze [] {} first = .ok found := by
    simp only [analyze, first, Option.map_some, hapi, hclient]
    decide +kernel
  have hother : analyze [] {} second = .ok found := by
    simp only [analyze, second, Option.map_some, hapi, hboth]
    decide +kernel
  obtain ⟨hindex, hproject⟩ := declarations_eq_of_same_pairs []
  obtain ⟨hresolve, -⟩ := hindex steps others hsteps scope
  obtain ⟨-, -, -, hanchors⟩ := hproject first second found found hpairs hone hother
  have hread : anchor ∈ anchorFiles second .client := List.mem_cons_of_mem _ List.mem_cons_self
  exact ⟨⟨hsteps, hresolve "X"⟩, hpairs, hone, hother,
    hanchors .client anchor List.mem_cons_self hread⟩

end RpcBinder.Analysis
