import RpcBinder.Command.Run
import RpcBinder.Proofs.Catalog
import RpcBinder.Proofs.Stub.Distinct

/-!
# What the commands agree on

All commands analyze the sources that their options name, whatever the output directory.  Checking
and generating bind the anchors of both sides before anything else, so both fail with the first
anchor that has no service.  Dumping binds nothing, and so it does not notice.

## Main definitions

* `SourceOptions.analyze` — the analysis that options ask for.
* `Analysis.firstUnserved?` — the first anchor without a service.
* `Call.IsProper` — a call whose output directory, if it has one, is named.

## Main results

* `Call.isProper_of_parse?` — arguments make proper calls only.
* `Call.resolve_bind_eq` — the analysis of a proper call does not depend on its output directory.
* `runCommand_unserved` — how each command ends on an anchor without a service.
* `dump_misses_unserved` — sources that are dumped and neither checked nor generated.
-/

namespace RpcBinder

/-! ### The first anchor without a service -/

/-- The first anchor whose interface has no service, with its side.  Those of clients come
first. -/
def Analysis.firstUnserved? (analysis : Analysis) : Option (Side × Anchor) :=
  (sidedAnchors analysis).find? fun sided => sided.2.interfaceFqn ∉ analysis.catalog.interfaces

/-- The failure of an anchor without a service. -/
def unknownInterface (sided : Side × Anchor) : Failure :=
  .unknownInterface sided.1 sided.2.className sided.2.interfaceFqn

section Unserved

variable {analysis : Analysis} {first : Side × Anchor} {tree : FileTree} {config : Config}

theorem exists_firstUnserved? {side : Side} {anchor : Anchor}
    (hmem : anchor ∈ analysis.anchors side)
    (hnone : anchor.interfaceFqn ∉ analysis.catalog.interfaces) :
    ∃ first, analysis.firstUnserved? = some first := by
  rw [← Option.isSome_iff_exists, Analysis.firstUnserved?, List.find?_isSome]
  exact ⟨(side, anchor), mem_sidedAnchors.2 hmem, decide_eq_true hnone⟩

/-- Whatever comes behind the binding of both sides, the first anchor without a service makes it
fail. -/
theorem bind_sides_unserved {α : Type} (h : analysis.firstUnserved? = some first)
    (f : List Binding → List Binding → Except Failure α) :
    (analysis.catalog.bind .client analysis.clientAnchors >>= fun clients =>
      analysis.catalog.bind .server analysis.serverAnchors >>= f clients) =
        .error (unknownInterface first) := by
  have hclient := errorOf?_bind analysis.services .client analysis.clientAnchors
  have hserver := errorOf?_bind analysis.services .server analysis.serverAnchors
  rw [Analysis.firstUnserved?, sidedAnchors, List.find?_append, List.find?_map, List.find?_map,
    Option.or_eq_some_iff, Option.map_eq_some_iff, Option.map_eq_some_iff] at h
  -- the first one is a client, or else all clients are bound and it is a server
  obtain ⟨anchor, hfirst, rfl⟩ | ⟨hnone, anchor, hfirst, rfl⟩ := h
  · rw [Function.comp_def, Analysis.catalog] at hfirst
    rw [hfirst] at hclient
    rw [Analysis.catalog, errorOf?_eq_some.1 hclient]
    rfl
  · rw [Option.map_eq_none_iff, Function.comp_def, Analysis.catalog] at hnone
    rw [Function.comp_def, Analysis.catalog] at hfirst
    rw [hnone] at hclient
    rw [hfirst] at hserver
    obtain ⟨bindings, hbindings⟩ := errorOf?_eq_none.1 hclient
    rw [Analysis.catalog, hbindings, errorOf?_eq_some.1 hserver]
    rfl

theorem runCheck_unserved (hanalysis : runAnalysis .kotlin tree config = .ok analysis)
    (h : analysis.firstUnserved? = some first) :
    runCheck tree config = .error (unknownInterface first) := by
  rw [runCheck, hanalysis]
  exact bind_sides_unserved h _

theorem runGenerate_unserved (hanalysis : runAnalysis .kotlin tree config = .ok analysis)
    (h : analysis.firstUnserved? = some first) :
    runGenerate tree config = (.error (unknownInterface first), tree) := by
  have hrender : renderAll config.outputDir config.stubOptions descriptorGenerator
      descriptorGenerator analysis = .error (unknownInterface first) := bind_sides_unserved h _
  rw [runGenerate, hanalysis]
  simp only [generateStubs, hrender]
  rfl

end Unserved

/-! ### Calls -/

/-- A call whose output directory, if it has one, is named. -/
def Call.IsProper (call : Call) : Prop :=
  ∀ path, call.out = some path → path.text.isEmpty = false

theorem of_once?_eq_some {given : Option Path} {value : String} {path : Option Path}
    (h : once? given value = some path) : path = some ⟨value⟩ ∧ value.isEmpty = false := by
  unfold once? at h
  split at h
  · cases h
  · next hvalue =>
    rw [Bool.or_eq_true, not_or, Bool.not_eq_true, Bool.not_eq_true] at hvalue
    exact ⟨(Option.some.inj h).symm, hvalue.2⟩

section Calls

variable {call next : Call}

theorem Call.isProper_of_set? {option value : String} (hcall : call.IsProper)
    (h : call.set? option value = some next) : next.IsProper := by
  unfold Call.set? at h
  -- the fifth option is the output directory, the last case no option at all
  split at h
  case h_5 =>
    split at h
    · obtain ⟨path, honce, rfl⟩ := Option.map_eq_some_iff.1 h
      obtain ⟨rfl, hvalue⟩ := of_once?_eq_some honce
      rintro _ ⟨⟩
      exact hvalue
    · cases h
  case h_6 => cases h
  all_goals
    obtain ⟨path, -, rfl⟩ := Option.map_eq_some_iff.1 h
    exact hcall

theorem Call.isProper_of_withOptions? {arguments : List String} (hcall : call.IsProper)
    (h : call.withOptions? arguments = some next) : next.IsProper := by
  fun_induction Call.withOptions? call arguments with
  | case1 call | case2 call =>
    obtain rfl := Option.some.inj h
    exact hcall
  | case3 | case5 | case6 => cases h
  | case4 call argument rest _ option value _ ih | case7 call option _ _ value rest _ ih =>
    obtain ⟨step, hstep, hrest⟩ := Option.bind_eq_some_iff.1 h
    exact ih step (isProper_of_set? hcall hstep) hrest

/-- Arguments make proper calls only. -/
theorem Call.isProper_of_parse? {arguments : List String}
    (h : Request.parse? arguments = some (.call call)) : call.IsProper := by
  cases arguments with
  | nil => cases h
  | cons argument rest =>
    rw [Request.parse?] at h
    split at h
    · cases h
    · obtain ⟨command, -, h⟩ := Option.bind_eq_some_iff.1 h
      obtain ⟨_, hoptions, h⟩ := Option.bind_eq_some_iff.1 h
      obtain rfl : _ = call := Request.call.inj (Option.some.inj h)
      have hbare : ({ command } : Call).IsProper := nofun
      exact isProper_of_withOptions? hbare hoptions

end Calls

/-! ### The analysis of a call -/

/-- The analysis that options ask for. -/
def SourceOptions.analyze (options : SourceOptions) (tree : FileTree) : Except Failure Analysis :=
  options.resolve tree >>= runAnalysis .kotlin tree

theorem Config.outputDir_of_validate {config : Config} (h : config.validate = .ok ()) :
    config.outputDir.text.isEmpty = false := by
  unfold Config.validate at h
  split at h
  · cases h
  · next hnamed => exact Bool.not_eq_true _ ▸ hnamed

theorem Config.outputDir_of_load {tree : FileTree} {path : Path} {config : Config}
    (h : Config.load tree path = .ok config) : config.outputDir.text.isEmpty = false := by
  unfold Config.load at h
  split at h
  · cases h
  · unfold Config.parse at h
    split at h
    · cases h
    · split at h
      · next hvalid =>
        obtain rfl := Except.ok.inj h
        exact outputDir_of_validate hvalid
      · cases h

/-- There is an output directory before any is given: a configuration file without one is not
accepted. -/
theorem SourceOptions.outputDir_of_resolve {options : SourceOptions} {tree : FileTree}
    {config : Config} (h : options.resolve tree = .ok config) :
    config.outputDir.text.isEmpty = false := by
  unfold SourceOptions.resolve at h
  cases hconfig : options.config with
  | none =>
    rw [hconfig] at h
    obtain rfl := Except.ok.inj h
    rfl
  | some path =>
    rw [hconfig] at h
    obtain ⟨base, hbase, h⟩ := bind_eq_ok.1 h
    obtain rfl := Except.ok.inj h
    have hnamed : base.outputDir.text.isEmpty = false := Config.outputDir_of_load hbase
    exact hnamed

/-- The analysis of a project does not depend on the name of its output directory. -/
theorem runAnalysis_congr {config : Config} {path : Path}
    (hconfig : config.outputDir.text.isEmpty = false) (hpath : path.text.isEmpty = false)
    (markers : Markers) (tree : FileTree) :
    runAnalysis markers tree { config with outputDir := path } =
      runAnalysis markers tree config := by
  have hvalid : ({ config with outputDir := path } : Config).validate = config.validate := by
    simp only [Config.validate, Config.blankFilter?, hconfig, hpath]
  rw [runAnalysis, runAnalysis, hvalid]
  rfl

/-- The analysis of a proper call does not depend on its output directory. -/
theorem Call.resolve_bind_eq {call : Call} (h : call.IsProper) (tree : FileTree) :
    call.resolve tree >>= runAnalysis .kotlin tree = call.sources.analyze tree := by
  rw [Call.resolve, SourceOptions.analyze]
  cases hconfig : call.sources.resolve tree with
  | error failure => rfl
  | ok config =>
    have hnamed := SourceOptions.outputDir_of_resolve hconfig
    cases hout : call.out with
    | none => rfl
    | some path => exact runAnalysis_congr hnamed (h path hout) .kotlin tree

section Runs

variable {call : Call} {tree : FileTree} {analysis : Analysis} (hcall : call.IsProper)

include hcall

theorem Call.run_dump (hanalysis : call.sources.analyze tree = .ok analysis)
    (hcommand : call.command = .dump) :
    call.run tree = (.success (analysis.toJson.pretty ++ "\n"), tree) := by
  rw [← resolve_bind_eq hcall] at hanalysis
  obtain ⟨config, hconfig, hrun⟩ := bind_eq_ok.1 hanalysis
  rw [run, hconfig]
  simp only [hcommand, runDump, hrun]
  rfl

theorem Call.run_unserved {first : Side × Anchor}
    (hanalysis : call.sources.analyze tree = .ok analysis) (hcommand : call.command ≠ .dump)
    (hfirst : analysis.firstUnserved? = some first) :
    call.run tree = (.failure (unknownInterface first), tree) := by
  rw [← resolve_bind_eq hcall] at hanalysis
  obtain ⟨config, hconfig, hrun⟩ := bind_eq_ok.1 hanalysis
  rw [run, hconfig]
  cases hname : call.command with
  | check =>
    dsimp only
    rw [runCheck_unserved hrun hfirst]
    rfl
  | dump => exact absurd hname hcommand
  | generate =>
    dsimp only
    rw [runGenerate_unserved hrun hfirst]
    rfl

/-- What is checked successfully was analyzed. -/
theorem Call.exists_analyze_of_run_check {output : String} (hcommand : call.command = .check)
    (h : (call.run tree).1 = .success output) :
    ∃ analysis, call.sources.analyze tree = .ok analysis := by
  rw [← resolve_bind_eq hcall]
  unfold run at h
  cases hconfig : call.resolve tree with
  | error failure =>
    rw [hconfig] at h
    cases h
  | ok config =>
    simp only [hconfig, hcommand] at h
    cases hrun : runAnalysis .kotlin tree config with
    | error failure =>
      rw [runCheck, hrun] at h
      cases h
    | ok analysis => exact ⟨analysis, hrun⟩

end Runs

theorem runCommand_eq {arguments : List String} {call : Call}
    (h : Request.parse? arguments = some (.call call)) (tree : FileTree) :
    runCommand arguments tree = call.run tree := by
  rw [runCommand, h]

/-- **How the commands end on sources with an anchor that has no service.**  Checking and generating
fail with the first such anchor, whatever the output directory is, and leave the file tree as it
was; dumping succeeds.  Sources that are checked successfully are dumped successfully. -/
theorem runCommand_unserved (tree : FileTree) (sources : SourceOptions) :
    (∀ analysis side anchor, sources.analyze tree = .ok analysis →
      anchor ∈ analysis.anchors side →
      (∀ service ∈ analysis.services, service.interfaceFqn ≠ anchor.interfaceFqn) →
      ∃ first, analysis.firstUnserved? = some first ∧
        ∀ arguments call, Request.parse? arguments = some (.call call) → call.sources = sources →
          (call.command ≠ .dump →
            runCommand arguments tree = (.failure (unknownInterface first), tree) ∧
              (runCommand arguments tree).1.exitCode = 1) ∧
          (call.command = .dump →
            runCommand arguments tree = (.success (analysis.toJson.pretty ++ "\n"), tree))) ∧
    ∀ checked check dumped dump, Request.parse? checked = some (.call check) →
      Request.parse? dumped = some (.call dump) → check.command = .check →
      dump.command = .dump → check.sources = sources → dump.sources = sources →
      ∀ output, (runCommand checked tree).1 = .success output →
        ∃ analysis, sources.analyze tree = .ok analysis ∧
          runCommand dumped tree = (.success (analysis.toJson.pretty ++ "\n"), tree) := by
  constructor
  · -- an anchor that is not listed: the first such one is what both commands report
    intro analysis side anchor hanalysis hmem hnone
    have hunlisted : anchor.interfaceFqn ∉ analysis.catalog.interfaces := by
      rw [Analysis.catalog, mem_interfaces_iff]
      rintro ⟨service, hservice, hsame⟩
      exact hnone service hservice hsame
    obtain ⟨first, hfirst⟩ := exists_firstUnserved? hmem hunlisted
    refine ⟨first, hfirst, ?_⟩
    rintro arguments call hparse rfl
    have hcall := Call.isProper_of_parse? hparse
    rw [runCommand_eq hparse]
    refine ⟨fun hcommand => ?_, Call.run_dump hcall hanalysis⟩
    rw [Call.run_unserved hcall hanalysis hcommand hfirst]
    exact ⟨rfl, rfl⟩
  · -- both commands analyze the same sources, so what `check` accepts `dump` prints
    rintro checked check dumped dump hchecked hdumped hcheck hdump rfl hsame output hrun
    rw [runCommand_eq hchecked] at hrun
    obtain ⟨analysis, hanalysis⟩ :=
      Call.exists_analyze_of_run_check (Call.isProper_of_parse? hchecked) hcheck hrun
    refine ⟨analysis, hanalysis, ?_⟩
    rw [runCommand_eq hdumped]
    exact Call.run_dump (Call.isProper_of_parse? hdumped) (hsame ▸ hanalysis) hdump

/-- A service, and an anchor of an interface that is none. -/
def unservedTree : FileTree :=
  ⟨[(["api"], .directory), (["api", "A.kt"], .text "@RpcService(\"a\")\ninterface A"),
    (["client"], .directory),
    (["client", "C.kt"], .text "@RpcClient abstract class C:Missing")], []⟩

/-- The directories of its sources. -/
def unservedSources : SourceOptions :=
  { api := some ⟨"api"⟩, client := some ⟨"client"⟩ }

/-- What is declared there. -/
def unservedAnalysis : Analysis :=
  ⟨[⟨"a", "", "A", []⟩], [⟨"", "C", "Missing", none, true⟩], [], []⟩

theorem SourceSet.load_eq_singleton {tree : FileTree} {root : Path} {extensions : List String}
    {file : SourceFile}
    (h : ((filesAt tree root).filter fun file => hasExtension extensions file.path).filter
      (fun file => !isBlank file.text.toList) = [file]) :
    load tree root extensions = ⟨[file]⟩ := by
  rw [load, ofFiles, h, List.mergeSort_singleton]

/-- A source of interfaces and one of client anchors. -/
def twoSources (api client : String) : FileTree :=
  ⟨[(["api"], .directory), (["api", "A.kt"], .text api), (["client"], .directory),
    (["client", "C.kt"], .text client)], []⟩

theorem analyze_twoSources {api client : String} (hapi : isBlank api.toList = false)
    (hclient : isBlank client.toList = false) {analysis : Analysis}
    (h : Analysis.analyze .kotlin {} ⟨⟨[⟨⟨"api/A.kt"⟩, api⟩]⟩,
      some ⟨[⟨⟨"client/C.kt"⟩, client⟩]⟩, none⟩ = .ok analysis) :
    unservedSources.analyze (twoSources api client) = .ok analysis := by
  let config : Config :=
    { apiRoot := ⟨"api"⟩, clientRoot := ⟨"client"⟩, generateServer := false }
  have hconfig : unservedSources.resolve (twoSources api client) = .ok config := rfl
  -- each of the two roots holds its one file, which is not blank
  have hsources : loadSources (twoSources api client) config =
      (⟨⟨[⟨⟨"api/A.kt"⟩, api⟩]⟩, some ⟨[⟨⟨"client/C.kt"⟩, client⟩]⟩, none⟩, []) := by
    have hfound : (twoSources api client).pathExists ⟨"api"⟩ ∧
        (twoSources api client).pathExists ⟨"client"⟩ := ⟨rfl, rfl⟩
    have hloadApi : SourceSet.load (twoSources api client) ⟨"api"⟩ ["kt"] =
        ⟨[⟨⟨"api/A.kt"⟩, api⟩]⟩ := by
      refine SourceSet.load_eq_singleton ?_
      have hfiles : SourceSet.filesAt (twoSources api client) ⟨"api"⟩ = [⟨⟨"api/A.kt"⟩, api⟩] := rfl
      have hextension : SourceSet.hasExtension ["kt"] ⟨"api/A.kt"⟩ = true := rfl
      simp [hfiles, hextension, hapi]
    have hloadClient : SourceSet.load (twoSources api client) ⟨"client"⟩ ["kt"] =
        ⟨[⟨⟨"client/C.kt"⟩, client⟩]⟩ := by
      refine SourceSet.load_eq_singleton ?_
      have hfiles : SourceSet.filesAt (twoSources api client) ⟨"client"⟩ =
          [⟨⟨"client/C.kt"⟩, client⟩] := rfl
      have hextension : SourceSet.hasExtension ["kt"] ⟨"client/C.kt"⟩ = true := rfl
      simp [hfiles, hextension, hclient]
    simp [loadSources, loadRole, loadRoleIf, config, Config.extensions, hfound, hloadApi,
      hloadClient]
  refine bind_eq_ok.2 ⟨config, hconfig, ?_⟩
  have hvalid : config.validate = .ok () := rfl
  have hfilter : config.packageFilter = {} := rfl
  simp only [runAnalysis, hvalid, hsources, hfilter, h]
  rfl

theorem analyze_unservedTree : unservedSources.analyze unservedTree = .ok unservedAnalysis :=
  analyze_twoSources (by decide +kernel) (by decide +kernel) (by decide +kernel)

theorem runCommand_unserved_example :
    let arguments := ["--api", "api", "--client=client"]
    let failure : Failure := .unknownInterface .client "C" "Missing"
    unservedSources.analyze unservedTree = .ok unservedAnalysis ∧
    runCommand ("check" :: arguments) unservedTree = (.failure failure, unservedTree) ∧
    runCommand ("generate" :: "--out" :: "stubs" :: arguments) unservedTree =
      (.failure failure, unservedTree) ∧
    (runCommand ["check"] ⟨[], []⟩).1 =
      .success "0 services, 0 client anchors, 0 server anchors, 2 warnings\n" ∧
    ∃ output, (runCommand ["dump"] ⟨[], []⟩).1 = .success output := by
  intro arguments failure
  have hcheck : Request.parse? ("check" :: arguments) =
      some (.call { command := .check, sources := unservedSources }) := by decide +kernel
  have hgenerate : Request.parse? ("generate" :: "--out" :: "stubs" :: arguments) =
      some (.call { command := .generate, sources := unservedSources, out := some ⟨"stubs"⟩ }) := by
    decide +kernel
  -- the anchor that nothing serves is the one that the failure names
  obtain ⟨first, hfirst, hrun⟩ := (runCommand_unserved unservedTree unservedSources).1 _ .client
    ⟨"", "C", "Missing", none, true⟩ analyze_unservedTree List.mem_cons_self (by decide +kernel)
  obtain rfl : (Side.client, ⟨"", "C", "Missing", none, true⟩) = first :=
    Option.some.inj (by rw [← hfirst]; decide +kernel)
  -- nothing at all is accepted by `check`, and so printed by `dump`
  have hempty : (runCommand ["check"] ⟨[], []⟩).1 =
      .success "0 services, 0 client anchors, 0 server anchors, 2 warnings\n" := by decide +kernel
  obtain ⟨analysis, -, hdump⟩ := (runCommand_unserved ⟨[], []⟩ {}).2 ["check"]
    { command := .check } ["dump"] { command := .dump } rfl rfl rfl rfl rfl rfl _ hempty
  exact ⟨analyze_unservedTree, ((hrun _ _ hcheck rfl).1 nofun).1,
    ((hrun _ _ hgenerate rfl).1 nofun).1, hempty, _, congrArg Prod.fst hdump⟩

/-- Sources that are dumped and neither checked nor generated: no service has the interface of the
client anchor, and dumping them does not fail. -/
theorem dump_misses_unserved :
    let arguments := ["--api", "api", "--client", "client"]
    let failure : Failure := .unknownInterface .client "C" "Missing"
    (runCommand ("check" :: arguments) unservedTree).1 = .failure failure ∧
    (runCommand ("generate" :: arguments) unservedTree).1 = .failure failure ∧
    (runCommand ("dump" :: arguments) unservedTree).1 =
      .success (unservedAnalysis.toJson.pretty ++ "\n") := by
  intro arguments failure
  have hfirst : unservedAnalysis.firstUnserved? =
      some (.client, ⟨"", "C", "Missing", none, true⟩) := rfl
  have hcheck : Request.parse? ("check" :: arguments) =
      some (.call { command := .check, sources := unservedSources }) := rfl
  have hgenerate : Request.parse? ("generate" :: arguments) =
      some (.call { command := .generate, sources := unservedSources }) := rfl
  have hdump : Request.parse? ("dump" :: arguments) =
      some (.call { command := .dump, sources := unservedSources }) := rfl
  rw [runCommand_eq hcheck, runCommand_eq hgenerate, runCommand_eq hdump,
    Call.run_unserved (Call.isProper_of_parse? hcheck) analyze_unservedTree nofun hfirst,
    Call.run_unserved (Call.isProper_of_parse? hgenerate) analyze_unservedTree nofun hfirst,
    Call.run_dump (Call.isProper_of_parse? hdump) analyze_unservedTree rfl]
  exact ⟨rfl, rfl, rfl⟩

end RpcBinder
