import RpcBinder.Proofs.Catalog
import RpcBinder.Proofs.Stub.Output

/-!
# All stubs or none

Generation binds the anchors of both sides, renders them, and only then touches the file tree.
Each of these four passes fails with its first failure, so the answer is the first one of all
failures in a row, and without any there is a stub for every anchor.

## Main definitions

* `failures` — all that goes wrong for an analysis, in order.
* `stubsOf` — the stubs of the anchors that nothing goes wrong for.

## Main results

* `renderAll_eq` — rendering fails with the first failure, or gives all stubs.
* `generateStubs_all_or_nothing` — the file tree is untouched, or the output directory holds the
  stubs and nothing else.
* `generateStubs_keeps_unfound` — an output directory that is not found keeps what it held.
-/

namespace RpcBinder

open FileTree FileAction

/-! ### What can go wrong -/

/-- An anchor on which the generator gives up fails. -/
def renderFailure? (services : List Service) (options : StubOptions) (side : Side)
    (generator : Generator) (anchor : Anchor) : Option Failure := do
  let service ← serviceOf? services anchor.interfaceFqn
  match generator.generate options side service anchor with
  | .ok _ => none
  | .error message => some (.generator anchor.className message)

/-- The stub of an anchor that does not fail. -/
def stubOf? (services : List Service) (outputDir : Path) (options : StubOptions) (side : Side)
    (generator : Generator) (anchor : Anchor) : Option Stub := do
  let service ← serviceOf? services anchor.interfaceFqn
  match generator.generate options side service anchor with
  | .ok text => some ⟨stubPath outputDir anchor generator.extension, text⟩
  | .error _ => none

/-- All failures of an analysis: first those of binding, then those of rendering, on each side
in the order of the anchors. -/
def failures (options : StubOptions) (client server : Generator) (analysis : Analysis) :
    List Failure :=
  analysis.clientAnchors.filterMap (bindFailure? analysis.services .client) ++
    analysis.serverAnchors.filterMap (bindFailure? analysis.services .server) ++
    analysis.clientAnchors.filterMap (renderFailure? analysis.services options .client client) ++
    analysis.serverAnchors.filterMap (renderFailure? analysis.services options .server server)

/-- The stubs of an analysis, those of clients first. -/
def stubsOf (outputDir : Path) (options : StubOptions) (client server : Generator)
    (analysis : Analysis) : List Stub :=
  analysis.clientAnchors.filterMap
      (stubOf? analysis.services outputDir options .client client) ++
    analysis.serverAnchors.filterMap
      (stubOf? analysis.services outputDir options .server server)

section Rendering

variable {services : List Service} {side : Side}

theorem render_eq (outputDir : Path) (options : StubOptions) (generator : Generator)
    (anchors : List Anchor) :
    render outputDir options generator side (anchors.filterMap fun anchor =>
        (serviceOf? services anchor.interfaceFqn).map fun service => ⟨service, anchor⟩) =
      unlessFailed (anchors.filterMap (renderFailure? services options side generator))
        (anchors.filterMap (stubOf? services outputDir options side generator)) := by
  -- anchor by anchor: what fails, and what is rendered
  have hfailure (anchor : Anchor) :
      ((serviceOf? services anchor.interfaceFqn).map fun service => Binding.mk service anchor).bind
          (fun binding => errorOf? (renderOne outputDir options generator side binding)) =
        renderFailure? services options side generator anchor := by
    unfold renderFailure? renderOne
    cases serviceOf? services anchor.interfaceFqn with
    | none => rfl
    | some service =>
      cases hgenerate : generator.generate options side service anchor <;>
        simp [errorOf?, hgenerate]
  have hstub (anchor : Anchor) :
      ((serviceOf? services anchor.interfaceFqn).map fun service => Binding.mk service anchor).bind
          (fun binding => (renderOne outputDir options generator side binding).toOption) =
        stubOf? services outputDir options side generator anchor := by
    unfold stubOf? renderOne
    cases serviceOf? services anchor.interfaceFqn with
    | none => rfl
    | some service =>
      cases hgenerate : generator.generate options side service anchor <;>
        simp [Except.toOption, hgenerate]
  rw [render, mapM_eq, List.filterMap_filterMap, List.filterMap_filterMap, funext hfailure,
    funext hstub]

/-- Rendering fails with the first failure, or gives all stubs. -/
theorem renderAll_eq (outputDir : Path) (options : StubOptions) (client server : Generator)
    (analysis : Analysis) :
    renderAll outputDir options client server analysis =
      unlessFailed (failures options client server analysis)
        (stubsOf outputDir options client server analysis) := by
  simp only [renderAll, Analysis.catalog, failures, stubsOf, bind_eq]
  -- the first of the four steps that fails decides
  cases analysis.clientAnchors.filterMap (bindFailure? analysis.services .client) with
  | cons failure later => rfl
  | nil =>
    cases analysis.serverAnchors.filterMap (bindFailure? analysis.services .server) with
    | cons failure later => rfl
    | nil =>
      simp only [unlessFailed, bind, Except.bind, render_eq]
      cases analysis.clientAnchors.filterMap
        (renderFailure? analysis.services options .client client) with
      | cons failure later => rfl
      | nil =>
        cases analysis.serverAnchors.filterMap
          (renderFailure? analysis.services options .server server) <;> rfl

end Rendering

/-! ### Generation -/

section Generation

variable {services : List Service} {options : StubOptions} {side : Side} {generator : Generator}
  {anchors : List Anchor}

/-- An anchor that can be bound and rendered has a stub. -/
theorem exists_stubOf? {anchor : Anchor} (hbind : bindFailure? services side anchor = none)
    (hrender : renderFailure? services options side generator anchor = none) (outputDir : Path) :
    ∃ text, stubOf? services outputDir options side generator anchor =
      some ⟨stubPath outputDir anchor generator.extension, text⟩ := by
  unfold bindFailure? at hbind
  unfold renderFailure? at hrender
  unfold stubOf?
  cases hservice : serviceOf? services anchor.interfaceFqn with
  | none =>
    rw [hservice] at hbind
    cases hbind
  | some service =>
    rw [hservice] at hrender
    cases hgenerate : generator.generate options side service anchor with
    | error message => simp [hgenerate] at hrender
    | ok text => exact ⟨text, by simp [hgenerate]⟩

theorem map_path_filterMap_stubOf?
    (hbind : anchors.filterMap (bindFailure? services side) = [])
    (hrender : anchors.filterMap (renderFailure? services options side generator) = [])
    (outputDir : Path) :
    (anchors.filterMap (stubOf? services outputDir options side generator)).map Stub.path =
      anchors.map (stubPath outputDir · generator.extension) := by
  rw [List.filterMap_eq_nil_iff] at hbind hrender
  rw [List.map_filterMap, ← List.filterMap_eq_map]
  refine List.filterMap_congr fun anchor hmem => ?_
  obtain ⟨text, hstub⟩ := exists_stubOf? (hbind anchor hmem) (hrender anchor hmem) outputDir
  rw [hstub]
  rfl

theorem hasPlace_of_mem_filterMap {outputDir : Path} {tree : FileTree} {stub : Stub}
    (h : ∀ anchor ∈ anchors, IsWritable outputDir anchor generator.extension ∧
      tree.placeOf (stubPath outputDir anchor generator.extension) ∉ tree.waypoints outputDir)
    (hmem : stub ∈ anchors.filterMap (stubOf? services outputDir options side generator)) :
    HasPlace outputDir tree stub := by
  obtain ⟨anchor, hanchor, hstub⟩ := List.mem_filterMap.1 hmem
  obtain ⟨hwritable, haside⟩ := h anchor hanchor
  unfold stubOf? at hstub
  cases hservice : serviceOf? services anchor.interfaceFqn with
  | none => simp [hservice] at hstub
  | some service =>
    cases hgenerate : generator.generate options side service anchor with
    | error message => simp [hservice, hgenerate] at hstub
    | ok text =>
      obtain rfl : ⟨stubPath outputDir anchor generator.extension, text⟩ = stub := by
        simpa [hservice, hgenerate] using hstub
      exact .mk text hwritable haside

end Generation

/-- **Stubs are generated all or not at all.**  If an anchor has no service or a generator gives
up, the first such failure is the answer, and the file tree is as it was.  Otherwise, where the
output directory can be replaced, it holds the stubs at the end and nothing else, of two stubs
at one place the later one; everything outside is as it was, but for the directories that its
path leads through; and the answer lists the paths, those of clients first. -/
theorem generateStubs_all_or_nothing (outputDir : Path) (options : StubOptions)
    (client server : Generator) (analysis : Analysis) (tree : FileTree) :
    (∀ failure later, failures options client server analysis = failure :: later →
      generateStubs outputDir options client server analysis tree = (.error failure, tree)) ∧
    (failures options client server analysis = [] →
      CanReplace outputDir tree →
      (∀ anchor ∈ analysis.clientAnchors, IsWritable outputDir anchor client.extension ∧
        tree.placeOf (stubPath outputDir anchor client.extension) ∉ tree.waypoints outputDir) →
      (∀ anchor ∈ analysis.serverAnchors, IsWritable outputDir anchor server.extension ∧
        tree.placeOf (stubPath outputDir anchor server.extension) ∉ tree.waypoints outputDir) →
      ∃ after, generateStubs outputDir options client server analysis tree =
          (.ok (analysis.clientAnchors.map (stubPath outputDir · client.extension) ++
            analysis.serverAnchors.map (stubPath outputDir · server.extension)), after) ∧
        after.here = tree.here ∧
        ∀ location, after.get? location = outputEntry outputDir tree
          (stubsOf outputDir options client server analysis) location) := by
  constructor
  · -- a failure comes before anything is written
    intro failure later hfailures
    unfold generateStubs
    rw [renderAll_eq, hfailures]
    rfl
  · intro hfailures hreplace hclient hserver
    -- nothing fails: each stub has a place in the renewed directory
    have hstubs : ∀ stub ∈ stubsOf outputDir options client server analysis,
        HasPlace outputDir tree stub := by
      intro stub hmem
      rcases List.mem_append.1 hmem with hmem | hmem
      · exact hasPlace_of_mem_filterMap hclient hmem
      · exact hasPlace_of_mem_filterMap hserver hmem
    have hpaths : (stubsOf outputDir options client server analysis).map Stub.path =
        analysis.clientAnchors.map (stubPath outputDir · client.extension) ++
          analysis.serverAnchors.map (stubPath outputDir · server.extension) := by
      simp only [failures, List.append_eq_nil_iff] at hfailures
      obtain ⟨⟨⟨hbindClient, hbindServer⟩, hrenderClient⟩, hrenderServer⟩ := hfailures
      rw [stubsOf, List.map_append, map_path_filterMap_stubOf? hbindClient hrenderClient,
        map_path_filterMap_stubOf? hbindServer hrenderServer]
    obtain ⟨after, hrun, hhere, hget⟩ := run_writeStubs hreplace hstubs
    refine ⟨after, ?_, hhere, hget⟩
    unfold generateStubs
    rw [renderAll_eq, hfailures]
    dsimp only [unlessFailed]
    rw [hrun, hpaths]
    rfl

theorem generateStubs_all_or_nothing_example :
    let generator : Generator := ⟨"kt", fun _ _ service _ => .ok service.route⟩
    let service : Service := ⟨"r", "a", "A", []⟩
    let bound : Anchor := ⟨"a.b", "C", "a.A", none, true⟩
    let unbound : Anchor := ⟨"a", "D", "a.B", none, true⟩
    let tree : FileTree := ⟨[(["out"], .directory), (["out", "old.kt"], .text "old")], []⟩
    generateStubs ⟨"out"⟩ {} generator generator ⟨[service], [bound], [unbound], []⟩ tree =
        (.error (.unknownInterface .server "D" "a.B"), tree) ∧
      ∃ after, generateStubs ⟨"out"⟩ {} generator generator ⟨[service], [bound], [], []⟩ tree =
          (.ok [⟨"out/a/b/CImpl.kt"⟩], after) ∧
        after.get? ["out", "old.kt"] = none ∧
        after.get? ["out", "a", "b", "CImpl.kt"] = some (.text "r") := by
  intro generator service bound unbound tree
  -- the one run fails for want of a service, the other replaces the old file
  obtain ⟨hfail, -⟩ := generateStubs_all_or_nothing ⟨"out"⟩ {} generator generator
    ⟨[service], [bound], [unbound], []⟩ tree
  obtain ⟨-, hgenerate⟩ := generateStubs_all_or_nothing ⟨"out"⟩ {} generator generator
    ⟨[service], [bound], [], []⟩ tree
  have hreplace : CanReplace ⟨"out"⟩ tree :=
    ⟨by decide, by decide +kernel, Or.inl (by decide +kernel)⟩
  have hwritable : ∀ anchor ∈ [bound], IsWritable ⟨"out"⟩ anchor "kt" ∧
      tree.placeOf (stubPath ⟨"out"⟩ anchor "kt") ∉ tree.waypoints ⟨"out"⟩ := by
    intro anchor hmem
    obtain rfl := List.mem_singleton.1 hmem
    exact ⟨⟨⟨by decide, by decide, by decide⟩, by decide +kernel, by decide +kernel⟩,
      by decide +kernel⟩
  obtain ⟨after, hrun, -, hget⟩ := hgenerate (by decide +kernel) hreplace hwritable nofun
  have hpath : stubPath ⟨"out"⟩ bound "kt" = ⟨"out/a/b/CImpl.kt"⟩ := by decide +kernel
  refine ⟨hfail _ _ rfl, after, ?_, ?_, ?_⟩
  · rw [hrun, ← hpath]
    rfl
  · rw [hget]
    decide +kernel
  · rw [hget]
    decide +kernel

/-- A path that leads out of a directory that is missing does not find what lies at its end, so
nothing is removed, and then the directory is made on the way.  What was in the output directory
stays next to the stubs. -/
theorem generateStubs_keeps_unfound :
    let generator : Generator := ⟨"kt", fun _ _ service _ => .ok service.route⟩
    let service : Service := ⟨"r", "a", "A", []⟩
    let anchor : Anchor := ⟨"a", "C", "a.A", none, true⟩
    let tree : FileTree := ⟨[(["out"], .directory), (["out", "old.kt"], .text "old")], []⟩
    let outcome := generateStubs ⟨"new/../out"⟩ {} generator generator
      ⟨[service], [anchor], [], []⟩ tree
    outcome.1 = .ok [⟨"new/../out/a/CImpl.kt"⟩] ∧
      tree.placeOf ⟨"new/../out"⟩ = ["out"] ∧
      outcome.2.get? ["out", "a", "CImpl.kt"] = some (.text "r") ∧
      outcome.2.get? ["out", "old.kt"] = some (.text "old") := by
  decide +kernel

end RpcBinder
