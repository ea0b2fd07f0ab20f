import RpcBinder.Proofs.Analysis.Duplicates
import RpcBinder.Proofs.Command.Agreement
import RpcBinder.Proofs.Stub.Generation

/-!
# Services that a generator gives up on

A service must have a route and an interface name that are not blank.  The interface of a service
that is read off a source is named by a word, so only its route can be at fault; and a route is any
text in quotes.  Checking does not look at routes, so of the projects that are checked successfully
generating fails exactly on those with an anchor whose service has a blank route.

## Main definitions

* `blankRouteFailure?` — the failure of an anchor whose service has a blank route.

## Main results

* `Service.validate_eq`, `descriptorGenerator_generate_eq` — what a named service can be at fault
  for.
* `generator_fails_iff_blankRoute` — **what generators give up on**, service by service and for
  whole projects.
* `check_accepts_blankRoute` — a project that is checked and not generated.
-/

namespace RpcBinder

/-! ### Named services -/

theorem isBlank_eq_false_of_isRun {text : List Char} (h : IsRun isWord text) :
    isBlank text = false := by
  obtain ⟨c, rest, rfl⟩ := List.exists_cons_of_ne_nil h.ne_nil
  rw [isBlank, List.all_cons, isSpace_of_isWord (h.forall_char c List.mem_cons_self)]
  rfl

/-- The interface of the service is named by a word. -/
def Service.IsNamed (service : Service) : Prop :=
  IsRun isWord service.interface.toList

section Named

variable {service : Service}

/-- A named service is valid unless its route is blank. -/
theorem Service.validate_eq (h : service.IsNamed) :
    service.validate = if isBlank service.route.toList then
      .error (.blankRoute service.interfaceFqn) else .ok () := by
  rw [validate, isBlank_eq_false_of_isRun h]
  rfl

/-- The descriptor of a named service is written unless its route is blank. -/
theorem descriptorGenerator_generate_eq (h : service.IsNamed) (options : StubOptions) (side : Side)
    (anchor : Anchor) :
    descriptorGenerator.generate options side service anchor =
      if isBlank service.route.toList then
        .error (ServiceFault.blankRoute service.interfaceFqn).message
      else .ok (descriptor options side service anchor).pretty := by
  rw [descriptorGenerator]
  dsimp only
  rw [Service.validate_eq h]
  cases isBlank service.route.toList <;> rfl

end Named

/-! ### Failures of an analysis -/

/-- The failure of an anchor whose service has a blank route. -/
def blankRouteFailure? (services : List Service) (anchor : Anchor) : Option Failure := do
  let service ← serviceOf? services anchor.interfaceFqn
  if isBlank service.route.toList then
    some (.generator anchor.className (ServiceFault.blankRoute service.interfaceFqn).message)
  else none

theorem blankRouteFailure?_eq_some_iff {services : List Service} {anchor : Anchor}
    {failure : Failure} :
    blankRouteFailure? services anchor = some failure ↔
      ∃ service, serviceOf? services anchor.interfaceFqn = some service ∧
        isBlank service.route.toList = true ∧
          failure = .generator anchor.className
            (ServiceFault.blankRoute service.interfaceFqn).message := by
  unfold blankRouteFailure?
  cases serviceOf? services anchor.interfaceFqn with
  | none => simp
  | some service =>
    simp only [Option.bind_eq_bind, Option.bind_some, Option.some.injEq, exists_eq_left',
      Option.ite_none_right_eq_some]
    exact and_congr_right fun _ => eq_comm

theorem mem_of_serviceOf? {services : List Service} {interfaceFqn : String} {service : Service}
    (h : serviceOf? services interfaceFqn = some service) : service ∈ services :=
  List.mem_reverse.1 (List.mem_of_find?_eq_some h)

/-- Among named services a descriptor fails for nothing but a blank route. -/
theorem renderFailure?_descriptorGenerator {services : List Service}
    (h : ∀ service ∈ services, service.IsNamed) (options : StubOptions) (side : Side)
    (anchor : Anchor) :
    renderFailure? services options side descriptorGenerator anchor =
      blankRouteFailure? services anchor := by
  unfold renderFailure? blankRouteFailure?
  cases hservice : serviceOf? services anchor.interfaceFqn with
  | none => rfl
  | some service =>
    have hnamed := h service (mem_of_serviceOf? hservice)
    simp only [Option.bind_eq_bind, Option.bind_some,
      descriptorGenerator_generate_eq hnamed options side anchor]
    cases isBlank service.route.toList <;> rfl

section Analyses

variable {analysis : Analysis}

/-- If every anchor has a service, all anchors can be bound. -/
theorem filterMap_bindFailure?_eq_nil (h : analysis.firstUnserved? = none) (side : Side) :
    (analysis.anchors side).filterMap (bindFailure? analysis.services side) = [] := by
  refine List.filterMap_eq_nil_iff.2 fun anchor hmem => ?_
  have hserved := List.find?_eq_none.1 h (side, anchor) (mem_sidedAnchors.2 hmem)
  rw [decide_eq_true_eq, Analysis.catalog, ← serviceOf?_eq_none_iff] at hserved
  obtain ⟨service, hservice⟩ := Option.ne_none_iff_exists'.1 hserved
  rw [bindFailure?, hservice]

/-- If every anchor has a service, nothing goes wrong but blank routes. -/
theorem failures_descriptorGenerator (hnamed : ∀ service ∈ analysis.services, service.IsNamed)
    (hserved : analysis.firstUnserved? = none) (options : StubOptions) :
    failures options descriptorGenerator descriptorGenerator analysis =
      (sidedAnchors analysis).filterMap fun sided =>
        blankRouteFailure? analysis.services sided.2 := by
  have hclient : analysis.clientAnchors.filterMap (bindFailure? analysis.services .client) = [] :=
    filterMap_bindFailure?_eq_nil hserved .client
  have hserver : analysis.serverAnchors.filterMap (bindFailure? analysis.services .server) = [] :=
    filterMap_bindFailure?_eq_nil hserved .server
  have hrender (side : Side) :
      renderFailure? analysis.services options side descriptorGenerator =
        blankRouteFailure? analysis.services :=
    funext fun anchor => renderFailure?_descriptorGenerator hnamed options side anchor
  rw [failures, hclient, hserver, hrender, hrender, sidedAnchors, List.filterMap_append,
    List.filterMap_map, List.filterMap_map]
  rfl

end Analyses

/-! ### Runs -/

section Runs

variable {call : Call} {tree : FileTree} {config : Config} {analysis : Analysis}

/-- The services of a project are named, whatever its sources look like. -/
theorem isNamed_of_analyze {sources : SourceOptions}
    (h : sources.analyze tree = .ok analysis) : ∀ service ∈ analysis.services, service.IsNamed := by
  intro service hmem
  obtain ⟨config, -, hrun⟩ := bind_eq_ok.1 h
  unfold runAnalysis at hrun
  split at hrun
  · cases hrun
  · generalize loadSources tree config = loaded at hrun
    obtain ⟨loaded, warnings⟩ := loaded
    dsimp only at hrun
    cases hanalyze : Analysis.analyze .kotlin config.packageFilter loaded with
    | error failure =>
      rw [hanalyze] at hrun
      cases hrun
    | ok base =>
      rw [hanalyze] at hrun
      obtain rfl := Except.ok.inj hrun
      exact Analysis.isRun_interface_of_analyze hanalyze hmem

/-- What is checked successfully has a service for every anchor. -/
theorem Call.firstUnserved?_of_run_check (hcall : call.IsProper)
    (hanalysis : call.sources.analyze tree = .ok analysis) (hcommand : call.command = .check)
    {output : String} (h : (call.run tree).1 = .success output) :
    analysis.firstUnserved? = none := by
  cases hfirst : analysis.firstUnserved? with
  | none => rfl
  | some first =>
    have hrun := Call.run_unserved hcall hanalysis (by rw [hcommand]; nofun) hfirst
    rw [hrun] at h
    cases h

/-- What has a service for every anchor is checked successfully. -/
theorem Call.run_check_served (hcall : call.IsProper)
    (hanalysis : call.sources.analyze tree = .ok analysis) (hcommand : call.command = .check)
    (hserved : analysis.firstUnserved? = none) :
    ∃ output, call.run tree = (.success output, tree) := by
  -- no anchor is unserved, so the anchors of either side bind
  have hbound (side : Side) : ∃ bindings,
      analysis.catalog.bind side (analysis.anchors side) = .ok bindings := by
    rw [Analysis.catalog, bind_eq, filterMap_bindFailure?_eq_nil hserved]
    exact ⟨_, rfl⟩
  obtain ⟨clients, hclients⟩ := hbound .client
  obtain ⟨servers, hservers⟩ := hbound .server
  rw [← resolve_bind_eq hcall] at hanalysis
  obtain ⟨config, hconfig, hrun⟩ := bind_eq_ok.1 hanalysis
  have hcheck : ∃ output, runCheck tree config = .ok output :=
    ⟨_, bind_eq_ok.2 ⟨analysis, hrun, bind_eq_ok.2
      ⟨clients, hclients, bind_eq_ok.2 ⟨servers, hservers, rfl⟩⟩⟩⟩
  obtain ⟨output, houtput⟩ := hcheck
  rw [run, hconfig]
  simp only [hcommand, houtput]
  exact ⟨output, rfl⟩

/-- Where nothing goes wrong for the analysis, only a file can be at fault. -/
theorem runGenerate_of_failures_eq_nil (hanalysis : runAnalysis .kotlin tree config = .ok analysis)
    (h : failures config.stubOptions descriptorGenerator descriptorGenerator analysis = [])
    (className message : String) :
    (runGenerate tree config).1 ≠ .error (.generator className message) := by
  rw [runGenerate, hanalysis]
  simp only [generateStubs, renderAll_eq, h, unlessFailed]
  generalize (writeStubs config.outputDir (stubsOf config.outputDir config.stubOptions
    descriptorGenerator descriptorGenerator analysis)).run.run tree = ended
  obtain ⟨_ | _, after⟩ := ended <;> simp [Except.map, Except.mapError]

theorem runGenerate_of_failures_eq_cons
    (hanalysis : runAnalysis .kotlin tree config = .ok analysis) {failure : Failure}
    {later : List Failure}
    (h : failures config.stubOptions descriptorGenerator descriptorGenerator analysis =
      failure :: later) : runGenerate tree config = (.error failure, tree) := by
  rw [runGenerate, hanalysis]
  simp only [generateStubs, renderAll_eq, h, unlessFailed]
  rfl

/-- What has a service for every anchor is generated by a run in which nothing goes wrong for the
analysis but blank routes. -/
theorem Call.exists_run_generate (hcall : call.IsProper)
    (hanalysis : call.sources.analyze tree = .ok analysis) (hcommand : call.command = .generate)
    (hserved : analysis.firstUnserved? = none) :
    ∃ config, runAnalysis .kotlin tree config = .ok analysis ∧
      failures config.stubOptions descriptorGenerator descriptorGenerator analysis =
        (sidedAnchors analysis).filterMap (fun sided =>
          blankRouteFailure? analysis.services sided.2) ∧
      call.run tree = (.ofExcept (runGenerate tree config).1, (runGenerate tree config).2) := by
  have hnamed := isNamed_of_analyze hanalysis
  rw [← resolve_bind_eq hcall] at hanalysis
  obtain ⟨config, hconfig, hrun⟩ := bind_eq_ok.1 hanalysis
  refine ⟨config, hrun, failures_descriptorGenerator hnamed hserved config.stubOptions, ?_⟩
  rw [run, hconfig]
  simp only [hcommand]

/-- Generating fails with the first anchor whose service has a blank route. -/
theorem Call.run_generate_blankRoute (hcall : call.IsProper)
    (hanalysis : call.sources.analyze tree = .ok analysis) (hcommand : call.command = .generate)
    (hserved : analysis.firstUnserved? = none) {failure : Failure}
    (hfirst : ((sidedAnchors analysis).findSome? fun sided =>
      blankRouteFailure? analysis.services sided.2) = some failure) :
    call.run tree = (.failure failure, tree) := by
  obtain ⟨config, hrun, hfailures, hend⟩ :=
    Call.exists_run_generate hcall hanalysis hcommand hserved
  rw [← List.head?_filterMap, ← hfailures] at hfirst
  obtain ⟨later, hall⟩ := List.head?_eq_some_iff.1 hfirst
  rw [hend, runGenerate_of_failures_eq_cons hrun hall]
  rfl

/-- Without such an anchor it fails for a file if at all. -/
theorem Call.run_generate_ne_generator (hcall : call.IsProper)
    (hanalysis : call.sources.analyze tree = .ok analysis) (hcommand : call.command = .generate)
    (hserved : analysis.firstUnserved? = none)
    (hnone : ((sidedAnchors analysis).findSome? fun sided =>
      blankRouteFailure? analysis.services sided.2) = none) (className message : String) :
    (call.run tree).1 ≠ .failure (.generator className message) := by
  obtain ⟨config, hrun, hfailures, hend⟩ :=
    Call.exists_run_generate hcall hanalysis hcommand hserved
  rw [← List.head?_filterMap, ← hfailures, List.head?_eq_none_iff] at hnone
  have hnever := runGenerate_of_failures_eq_nil hrun hnone className message
  rw [hend]
  generalize runGenerate tree config = ended at hnever
  obtain ⟨_ | _, after⟩ := ended
  · simpa [Outcome.ofExcept] using hnever
  · nofun

end Runs

/-- **What generators give up on.**  The services of a source are valid, and their descriptors are
written, exactly unless their routes are blank.  If a project is checked successfully, generating
it fails for a service exactly if an anchor is bound to one with a blank route: it names the first
such anchor, and leaves the file tree as it was. -/
theorem generator_fails_iff_blankRoute (resolver : Resolver) (markers : Markers)
    (source : List Char) (tree : FileTree) :
    (∀ services, Declaration.servicesOf resolver markers source = .ok services →
      ∀ service ∈ services,
        service.validate = (if isBlank service.route.toList then
          .error (.blankRoute service.interfaceFqn) else .ok ()) ∧
        ∀ options side anchor, descriptorGenerator.generate options side service anchor =
          if isBlank service.route.toList then
            .error (ServiceFault.blankRoute service.interfaceFqn).message
          else .ok (descriptor options side service anchor).pretty) ∧
    ∀ checked check generated generate output,
      Request.parse? checked = some (.call check) →
      Request.parse? generated = some (.call generate) → check.command = .check →
      generate.command = .generate → check.sources = generate.sources →
      (runCommand checked tree).1 = .success output →
        ∃ analysis, check.sources.analyze tree = .ok analysis ∧
          (∀ failure, ((sidedAnchors analysis).findSome? fun sided =>
              blankRouteFailure? analysis.services sided.2) = some failure →
            runCommand generated tree = (.failure failure, tree)) ∧
          ((∃ className message,
              (runCommand generated tree).1 = .failure (.generator className message)) ↔
            ∃ side, ∃ anchor ∈ analysis.anchors side, ∃ service,
              serviceOf? analysis.services anchor.interfaceFqn = some service ∧
                isBlank service.route.toList = true) := by
  constructor
  · -- the names come from words, so only the route can be blank
    intro services hservices service hmem
    have hnamed : service.IsNamed := Analysis.isRun_interface_of_servicesOf hservices hmem
    exact ⟨Service.validate_eq hnamed, descriptorGenerator_generate_eq hnamed⟩
  · intro checked check generated generate output hchecked hgenerated hcheck hgenerate hsame
      houtput
    rw [runCommand_eq hchecked] at houtput
    rw [runCommand_eq hgenerated]
    have hchecks := Call.isProper_of_parse? hchecked
    obtain ⟨analysis, hanalysis⟩ := Call.exists_analyze_of_run_check hchecks hcheck houtput
    -- what `check` accepts leaves no anchor unserved, so `generate` gets as far as the stubs
    have hserved := Call.firstUnserved?_of_run_check hchecks hanalysis hcheck houtput
    have hproper := Call.isProper_of_parse? hgenerated
    have hsources : generate.sources.analyze tree = .ok analysis := hsame ▸ hanalysis
    refine ⟨analysis, hanalysis, fun failure hfirst =>
      Call.run_generate_blankRoute hproper hsources hgenerate hserved hfirst, ?_⟩
    -- the anchors are taken in order, and the first blank route is reported
    cases hfirst : (sidedAnchors analysis).findSome? fun sided =>
      blankRouteFailure? analysis.services sided.2 with
    | none =>
      have hnever := Call.run_generate_ne_generator hproper hsources hgenerate hserved hfirst
      refine iff_of_false (fun ⟨className, message, hfailure⟩ => hnever _ _ hfailure) ?_
      rintro ⟨side, anchor, hmem, service, hservice, hblank⟩
      have hnone := List.findSome?_eq_none_iff.1 hfirst (side, anchor) (mem_sidedAnchors.2 hmem)
      rw [blankRouteFailure?_eq_some_iff.2 ⟨service, hservice, hblank, rfl⟩] at hnone
      cases hnone
    | some failure =>
      obtain ⟨⟨side, anchor⟩, hmem, hfailure⟩ := List.exists_of_findSome?_eq_some hfirst
      obtain ⟨service, hservice, hblank, rfl⟩ := blankRouteFailure?_eq_some_iff.1 hfailure
      have hrun := Call.run_generate_blankRoute hproper hsources hgenerate hserved hfirst
      exact iff_of_true ⟨_, _, congrArg Prod.fst hrun⟩
        ⟨side, anchor, mem_sidedAnchors.1 hmem, service, hservice, hblank⟩

/-- A service with a blank route, and an anchor of its interface. -/
def blankRouteTree : FileTree :=
  twoSources "@RpcService(\" \")\ninterface A" "@RpcClient abstract class C:A"

/-- What is declared there. -/
def blankRouteAnalysis : Analysis :=
  ⟨[⟨" ", "", "A", []⟩], [⟨"", "C", "A", none, true⟩], [], []⟩

theorem analyze_blankRouteTree : unservedSources.analyze blankRouteTree = .ok blankRouteAnalysis :=
  analyze_twoSources (by decide +kernel) (by decide +kernel) (by decide +kernel)

theorem generator_fails_iff_blankRoute_example :
    let arguments := ["--api", "api", "--client=client"]
    let service : Service := ⟨" ", "p", "A", []⟩
    Declaration.servicesOf ⟨{ package := "p" }, TypeIndex.empty⟩ []
        "@RpcService(\" \") interface A".toList = .ok [service] ∧
      service.validate = .error (.blankRoute "p.A") ∧
      (∃ output, (runCommand ("check" :: arguments) blankRouteTree).1 = .success output) ∧
      runCommand ("generate" :: "--out" :: "stubs" :: arguments) blankRouteTree =
        (.failure (.generator "C" "Invalid model: service A has an empty route name"),
          blankRouteTree) := by
  intro arguments service
  have hservices : Declaration.servicesOf ⟨{ package := "p" }, TypeIndex.empty⟩ []
      "@RpcService(\" \") interface A".toList = .ok [service] := by decide +kernel
  have hcheck : Request.parse? ("check" :: arguments) =
      some (.call { command := .check, sources := unservedSources }) := rfl
  have hgenerate : Request.parse? ("generate" :: "--out" :: "stubs" :: arguments) =
      some (.call { command := .generate, sources := unservedSources, out := some ⟨"stubs"⟩ }) :=
    rfl
  -- `check` accepts the tree, whose one service has a blank route
  obtain ⟨output, hrun⟩ := Call.run_check_served (Call.isProper_of_parse? hcheck)
    analyze_blankRouteTree rfl rfl
  have houtput : (runCommand ("check" :: arguments) blankRouteTree).1 = .success output := by
    rw [runCommand_eq hcheck, hrun]
  obtain ⟨hvalid, hfails⟩ := generator_fails_iff_blankRoute
    ⟨{ package := "p" }, TypeIndex.empty⟩ [] "@RpcService(\" \") interface A".toList blankRouteTree
  obtain ⟨analysis, hanalysis, hfirst, -⟩ := hfails _ _ _ _ output hcheck hgenerate rfl rfl rfl
    houtput
  obtain rfl : blankRouteAnalysis = analysis :=
    Except.ok.inj (analyze_blankRouteTree.symm.trans hanalysis)
  have hvalidate := (hvalid _ hservices service List.mem_cons_self).1
  exact ⟨hservices, hvalidate.trans (by decide +kernel), ⟨output, houtput⟩, hfirst _ rfl⟩

/-- A project that is checked successfully, and that is not generated for its service. -/
theorem check_accepts_blankRoute :
    let arguments := ["--api", "api", "--client", "client"]
    (∃ output, (runCommand ("check" :: arguments) blankRouteTree).1 = .success output) ∧
      (runCommand ("generate" :: arguments) blankRouteTree).1 =
        .failure (.generator "C" "Invalid model: service A has an empty route name") := by
  intro arguments
  have hcheck : Request.parse? ("check" :: arguments) =
      some (.call { command := .check, sources := unservedSources }) := rfl
  have hgenerate : Request.parse? ("generate" :: arguments) =
      some (.call { command := .generate, sources := unservedSources }) := rfl
  have hserved : blankRouteAnalysis.firstUnserved? = none := rfl
  have hfirst : ((sidedAnchors blankRouteAnalysis).findSome? fun sided =>
      blankRouteFailure? blankRouteAnalysis.services sided.2) =
        some (.generator "C" "Invalid model: service A has an empty route name") := rfl
  obtain ⟨output, hrun⟩ := Call.run_check_served (Call.isProper_of_parse? hcheck)
    analyze_blankRouteTree rfl hserved
  have hfailure := Call.run_generate_blankRoute (Call.isProper_of_parse? hgenerate)
    analyze_blankRouteTree rfl hserved hfirst
  rw [runCommand_eq hcheck, runCommand_eq hgenerate, hrun, hfailure]
  exact ⟨⟨output, rfl⟩, rfl⟩

end RpcBinder
