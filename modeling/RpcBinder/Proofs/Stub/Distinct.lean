import RpcBinder.Proofs.Analysis.AnchorNames
import RpcBinder.Proofs.Stub.Output

/-!
# Stubs at one place

The path of a stub is made of the segments of the anchor's package, the name of its class and the
ending of the generator's files, and each of them can be read off the path again.  So two stubs
share a path just if they agree in all three, whichever side they are for.  Nothing asks whether
they do: a client anchor and a server anchor of one name in one package, with generators of one
ending, are both rendered, and of the two stubs only the later one stays.

## Main definitions

* `stubKey`, `stubKeys` — what the path of a stub depends on, and all such keys of an analysis.
* `sidedAnchors` — the anchors of both sides in the order of their stubs.
* `IsStubOf` — the stub that is rendered for the binding of an anchor.

## Main results

* `stubPath_eq_iff`, `placeOf_stubPath_eq_iff` — paths and places are told apart by keys.
* `generateStubs_nodup_iff` — every stub is kept where the keys are pairwise distinct, and only
  there are the paths.
* `generateStubs_loses_stub` — sources of which a stub is lost.
-/

namespace RpcBinder

open FileTree FileAction Analysis

/-! ### Keys -/

/-- What the path of a stub depends on: the segments of its package, its class and the ending of
its file. -/
def stubKey (anchor : Anchor) (extension : String) : List String × String × String :=
  (packageSegments anchor.package, anchor.className, extension)

section Keys

variable {anchor other : Anchor} {extension ending : String}

theorem hasPlainNames_of_hasWordName (h : HasWordName anchor) (hending : '/' ∉ extension.toList) :
    HasPlainNames anchor extension where
  package hslash := absurd (h.package _ hslash) (by decide)
  className hslash := absurd (h.className _ hslash) (by decide)
  ending := hending

theorem splitFirst?_stubFile (h : HasWordName anchor) (extension : String) :
    splitFirst? '.' (stubFile anchor extension).toList =
      some (anchor.className.toList ++ "Impl".toList, extension.toList) := by
  -- the class is a word, so the dot in front of the ending is the first one
  have hdot : '.' ∉ anchor.className.toList ++ "Impl".toList := by
    rw [List.mem_append, not_or]
    exact ⟨fun hdot => absurd (h.className _ hdot) (by decide), by decide⟩
  rw [toList_stubFile, ← splitFirst?_append hdot]
  simp

/-- The first dot of a stub's file stands behind the class and the suffix. -/
theorem stubFile_eq_iff (h : HasWordName anchor) (h' : HasWordName other) :
    stubFile anchor extension = stubFile other ending ↔
      anchor.className = other.className ∧ extension = ending := by
  constructor
  · intro heq
    have hsplit := splitFirst?_stubFile h extension
    rw [heq, splitFirst?_stubFile h' ending, Option.some_inj, Prod.mk.injEq,
      List.append_cancel_right_eq, String.toList_inj, String.toList_inj] at hsplit
    exact ⟨hsplit.1.symm, hsplit.2.symm⟩
  · rintro ⟨hclass, rfl⟩
    rw [stubFile, stubFile, Anchor.implName, Anchor.implName, hclass]

theorem stubKey_eq_iff (h : HasWordName anchor) (h' : HasWordName other) :
    stubKey anchor extension = stubKey other ending ↔
      packageSegments anchor.package = packageSegments other.package ∧
        stubFile anchor extension = stubFile other ending := by
  rw [stubFile_eq_iff h h', stubKey, stubKey, Prod.mk.injEq, Prod.mk.injEq]

variable (h : HasWordName anchor) (h' : HasWordName other)
  (hextension : '/' ∉ extension.toList) (hending : '/' ∉ ending.toList) (outputDir : Path)

include h h' hextension hending

/-- Paths are told apart by keys. -/
theorem stubPath_eq_iff :
    stubPath outputDir anchor extension = stubPath outputDir other ending ↔
      stubKey anchor extension = stubKey other ending := by
  rw [stubKey_eq_iff h h']
  constructor
  · intro heq
    have hkept := kept_stubPath (hasPlainNames_of_hasWordName h hextension) outputDir
    rw [heq, kept_stubPath (hasPlainNames_of_hasWordName h' hending)] at hkept
    simpa [List.append_assoc, List.append_cancel_left_eq] using hkept.symm
  · rintro ⟨hpackage, hfile⟩
    rw [stubPath_eq, stubPath_eq, hpackage, hfile]

/-- Places are told apart by keys. -/
theorem placeOf_stubPath_eq_iff (tree : FileTree) :
    tree.placeOf (stubPath outputDir anchor extension) =
        tree.placeOf (stubPath outputDir other ending) ↔
      stubKey anchor extension = stubKey other ending := by
  rw [stubKey_eq_iff h h', placeOf_stubPath (hasPlainNames_of_hasWordName h hextension),
    placeOf_stubPath (hasPlainNames_of_hasWordName h' hending)]
  simp [List.append_assoc]

end Keys

/-! ### The stubs of both sides -/

/-- The generator of a side. -/
def generatorOf (client server : Generator) : Side → Generator
  | .client => client
  | .server => server

/-- The anchors of both sides, each with its side, in the order of their stubs. -/
def sidedAnchors (analysis : Analysis) : List (Side × Anchor) :=
  analysis.clientAnchors.map (Side.client, ·) ++ analysis.serverAnchors.map (Side.server, ·)

section Sides

variable {outputDir : Path} {options : StubOptions} {client server : Generator}
  {analysis : Analysis} {stubs : List Stub}

theorem mem_sidedAnchors {side : Side} {anchor : Anchor} :
    (side, anchor) ∈ sidedAnchors analysis ↔ anchor ∈ analysis.anchors side := by
  cases side <;> simp [sidedAnchors, Analysis.anchors]

/-- A stub is what a side's generator makes of the binding of an anchor. -/
def IsStubOf (outputDir : Path) (options : StubOptions) (client server : Generator)
    (analysis : Analysis) (stub : Stub) (sided : Side × Anchor) : Prop :=
  ∃ binding, analysis.catalog.bindOne sided.1 sided.2 = .ok binding ∧
    renderOne outputDir options (generatorOf client server sided.1) sided.1 binding = .ok stub

theorem path_of_isStubOf {stub : Stub} {sided : Side × Anchor}
    (h : IsStubOf outputDir options client server analysis stub sided) :
    stub.path = stubPath outputDir sided.2 (generatorOf client server sided.1).extension := by
  obtain ⟨binding, hbind, hrender⟩ := h
  unfold Catalog.bindOne at hbind
  unfold renderOne at hrender
  split at hbind
  · obtain rfl := Except.ok.inj hbind
    split at hrender
    · obtain rfl := Except.ok.inj hrender
      rfl
    · cases hrender
  · cases hbind

theorem forall₂_isStubOf_side {side : Side} {anchors : List Anchor} {bindings : List Binding}
    (hbind : analysis.catalog.bind side anchors = .ok bindings)
    (hrender : render outputDir options (generatorOf client server side) side bindings =
      .ok stubs) :
    List.Forall₂ (IsStubOf outputDir options client server analysis) stubs
      (anchors.map (side, ·)) := by
  rw [List.forall₂_map_right_iff]
  exact forall₂_comp (forall₂_of_mapM_eq_ok hrender) (forall₂_of_mapM_eq_ok hbind)
    fun stub binding anchor hstub hbinding => ⟨binding, hbinding, hstub⟩

/-- Where all anchors are bound and rendered there is a stub for each of them, in order. -/
theorem forall₂_isStubOf
    (h : renderAll outputDir options client server analysis = .ok stubs) :
    List.Forall₂ (IsStubOf outputDir options client server analysis) stubs
      (sidedAnchors analysis) := by
  obtain ⟨clientBindings, hbindClient, h⟩ := bind_eq_ok.1 h
  obtain ⟨serverBindings, hbindServer, h⟩ := bind_eq_ok.1 h
  obtain ⟨clientStubs, hrenderClient, h⟩ := bind_eq_ok.1 h
  obtain ⟨serverStubs, hrenderServer, h⟩ := bind_eq_ok.1 h
  obtain rfl := Except.ok.inj h
  exact List.rel_append (forall₂_isStubOf_side hbindClient hrenderClient)
    (forall₂_isStubOf_side hbindServer hrenderServer)

theorem map_path_of_forall₂_isStubOf {sided : List (Side × Anchor)}
    (h : List.Forall₂ (IsStubOf outputDir options client server analysis) stubs sided) :
    stubs.map Stub.path = sided.map fun (side, anchor) =>
      stubPath outputDir anchor (generatorOf client server side).extension :=
  (map_eq_map_of_forall₂ h fun _ _ _ hstub => (path_of_isStubOf hstub).symm).symm

end Sides

/-! ### Kept and lost stubs -/

/-- At the place of a stub stands its own text, if no other one stands there. -/
theorem textAt?_of_nodup {tree : FileTree} {stubs : List Stub}
    (h : ((stubs.map Stub.path).map tree.placeOf).Nodup) {stub : Stub}
    (hmem : stub ∈ stubs) : textAt? tree stubs (tree.placeOf stub.path) = some stub.text := by
  induction stubs with
  | nil => cases hmem
  | cons first stubs ih =>
    obtain ⟨hfirst, hrest⟩ := List.nodup_cons.1 h
    rw [textAt?]
    rcases List.mem_cons.1 hmem with rfl | hmem
    · -- no later stub has the same place
      have hnone : textAt? tree stubs (tree.placeOf stub.path) = none := by
        rw [Option.eq_none_iff_forall_ne_some]
        intro text htext
        obtain ⟨other, hother, hplace, -⟩ := exists_of_textAt? htext
        exact hfirst (hplace ▸ List.mem_map_of_mem (List.mem_map_of_mem hother))
      rw [hnone, if_pos rfl, Option.none_or]
    · rw [ih hrest hmem, Option.some_or]

/-- The stub of an anchor is allowed in an output directory: its path can be used, its names are
not too long, and the path of the directory does not lead through it. -/
structure IsAllowed (outputDir : Path) (tree : FileTree) (anchor : Anchor) (extension : String) :
    Prop where
  /-- The path can be used. -/
  check : checkPath (stubPath outputDir anchor extension) = .ok ()
  /-- The names are not too long. -/
  size : ∀ name ∈ packageSegments anchor.package ++ [stubFile anchor extension],
    name.utf8ByteSize ≤ 255
  /-- The output directory is not reached through it. -/
  aside : tree.placeOf (stubPath outputDir anchor extension) ∉ tree.waypoints outputDir

/-- The keys of the stubs of an analysis, in order. -/
def stubKeys (client server : Generator) (analysis : Analysis) :
    List (List String × String × String) :=
  (sidedAnchors analysis).map fun sided =>
    stubKey sided.2 (generatorOf client server sided.1).extension

theorem nodup_map_congr {α β γ : Type} {f : α → β} {g : α → γ} {xs : List α}
    (h : ∀ x ∈ xs, ∀ y ∈ xs, f x = f y ↔ g x = g y) : (xs.map f).Nodup ↔ (xs.map g).Nodup := by
  rw [List.Nodup, List.Nodup, List.pairwise_map, List.pairwise_map]
  exact List.Pairwise.iff_of_mem fun hx hy => not_congr (h _ hx _ hy)

theorem outputEntry_of_nodup {outputDir : Path} {tree : FileTree} {stubs : List Stub}
    (h : ((stubs.map Stub.path).map tree.placeOf).Nodup) {stub : Stub}
    (hmem : stub ∈ stubs) (hplace : HasPlace outputDir tree stub) :
    outputEntry outputDir tree stubs (tree.placeOf stub.path) = some (.text stub.text) := by
  rw [outputEntry, if_neg (aside_of_hasPlace hplace), if_pos (front_of_hasPlace hplace),
    textAt?_of_nodup h hmem]

theorem hasPlace_of_isStubOf {outputDir : Path} {options : StubOptions}
    {client server : Generator} {analysis : Analysis} {tree : FileTree} {stub : Stub} {side : Side}
    {anchor : Anchor} (h : IsStubOf outputDir options client server analysis stub (side, anchor))
    (hplain : HasPlainNames anchor (generatorOf client server side).extension)
    (hallowed : IsAllowed outputDir tree anchor (generatorOf client server side).extension) :
    HasPlace outputDir tree stub := by
  have hpath := path_of_isStubOf h
  obtain ⟨path, text⟩ := stub
  dsimp only at hpath
  subst hpath
  exact .mk text ⟨hplain, hallowed.check, hallowed.size⟩ hallowed.aside

/-- **Stubs are kept just where their keys tell them apart.**  If the anchors of sources are bound
and rendered, and the output directory can be replaced, the paths that are written are pairwise
distinct if and only if the packages, classes and endings are, and then the file of every anchor
of either side holds what was rendered for its own binding. -/
theorem generateStubs_nodup_iff {markers : Markers} {filter : PackageFilter}
    {sources : ProjectSources} {analysis : Analysis} {outputDir : Path} {options : StubOptions}
    {client server : Generator} {stubs : List Stub} {tree : FileTree}
    (hanalyze : Analysis.analyze markers filter sources = .ok analysis)
    (hrender : renderAll outputDir options client server analysis = .ok stubs)
    (hending : ∀ side, '/' ∉ (generatorOf client server side).extension.toList)
    (hreplace : CanReplace outputDir tree)
    (hallowed : ∀ side, ∀ anchor ∈ analysis.anchors side,
      IsAllowed outputDir tree anchor (generatorOf client server side).extension) :
    ∃ after, generateStubs outputDir options client server analysis tree =
        (.ok (stubs.map Stub.path), after) ∧
      ((stubs.map Stub.path).Nodup ↔ (stubKeys client server analysis).Nodup) ∧
      ((stubKeys client server analysis).Nodup →
        ∀ side, ∀ anchor ∈ analysis.anchors side, ∃ stub ∈ stubs,
          IsStubOf outputDir options client server analysis stub (side, anchor) ∧
          after.get? (tree.placeOf stub.path) = some (.text stub.text)) := by
  have hword (sided : Side × Anchor) (hmem : sided ∈ sidedAnchors analysis) :
      HasWordName sided.2 :=
    Analysis.hasWordName_of_analyze hanalyze (mem_sidedAnchors.1 hmem)
  have hstubs := forall₂_isStubOf hrender
  -- names that a source declares hold no slash, so every stub stays in the output directory
  have hplaces : ∀ stub ∈ stubs, HasPlace outputDir tree stub := by
    intro stub hmem
    obtain ⟨⟨side, anchor⟩, hsided, hstub⟩ := exists_related_of_mem hstubs.flip hmem
    exact hasPlace_of_isStubOf hstub (hasPlainNames_of_hasWordName (hword _ hsided) (hending side))
      (hallowed side anchor (mem_sidedAnchors.1 hsided))
  -- keys tell apart the paths that are listed as well as the places that are written
  have hpaths : (stubs.map Stub.path).Nodup ↔ (stubKeys client server analysis).Nodup := by
    rw [map_path_of_forall₂_isStubOf hstubs]
    exact nodup_map_congr fun sided hsided sided' hsided' =>
      stubPath_eq_iff (hword _ hsided) (hword _ hsided') (hending _) (hending _) _
  have hplacesNodup : ((stubs.map Stub.path).map tree.placeOf).Nodup ↔
      (stubKeys client server analysis).Nodup := by
    rw [map_path_of_forall₂_isStubOf hstubs, List.map_map]
    exact nodup_map_congr fun sided hsided sided' hsided' =>
      placeOf_stubPath_eq_iff (hword _ hsided) (hword _ hsided') (hending _) (hending _) _ _
  obtain ⟨after, hrun, -, hget⟩ := run_writeStubs hreplace hplaces
  refine ⟨after, ?_, hpaths, fun hnodup side anchor hmem => ?_⟩
  · rw [generateStubs, hrender]
    dsimp only
    rw [hrun]
    rfl
  · obtain ⟨stub, hstub, hof⟩ := exists_related_of_mem hstubs (mem_sidedAnchors.2 hmem)
    refine ⟨stub, hstub, hof, ?_⟩
    rw [hget]
    exact outputEntry_of_nodup (hplacesNodup.2 hnodup) hstub (hplaces stub hstub)

theorem generateStubs_nodup_iff_example :
    let service : SourceFile := ⟨⟨"A.kt"⟩, "@RpcService(\"A\")\ninterface A"⟩
    let client : SourceFile := ⟨⟨"C.kt"⟩, "@RpcClient abstract class C:A"⟩
    let server : SourceFile := ⟨⟨"S.kt"⟩, "@RpcServer abstract class S(impl:A)"⟩
    let sources : ProjectSources := ⟨⟨[service]⟩, some ⟨[client]⟩, some ⟨[server]⟩⟩
    let generator : Generator := ⟨"kt", fun _ side _ _ => .ok side.word⟩
    let analysis : Analysis :=
      ⟨[⟨"A", "", "A", []⟩], [⟨"", "C", "A", none, true⟩], [⟨"", "S", "A", none, true⟩], []⟩
    let stubs : List Stub := [⟨⟨"out/CImpl.kt"⟩, "client"⟩, ⟨⟨"out/SImpl.kt"⟩, "server"⟩]
    let tree : FileTree := ⟨[], []⟩
    Analysis.analyze [] {} sources = .ok analysis ∧
    renderAll ⟨"out"⟩ {} generator generator analysis = .ok stubs ∧
    ∃ after, generateStubs ⟨"out"⟩ {} generator generator analysis tree =
        (.ok [⟨"out/CImpl.kt"⟩, ⟨"out/SImpl.kt"⟩], after) ∧
      ∀ side, ∀ anchor ∈ analysis.anchors side, ∃ stub ∈ stubs,
        IsStubOf ⟨"out"⟩ {} generator generator analysis stub (side, anchor) ∧
        after.get? (tree.placeOf stub.path) = some (.text stub.text) := by
  intro service client server sources generator analysis stubs tree
  have hservice : prepare ⟨[service]⟩ =
      [⟨service, service.text.toList, { package := "" }, ["A"]⟩] := by decide +kernel
  have hclient : prepare ⟨[client]⟩ =
      [⟨client, client.text.toList, { package := "" }, ["C"]⟩] := by decide +kernel
  have hserver : prepare ⟨[server]⟩ =
      [⟨server, server.text.toList, { package := "" }, ["S"]⟩] := by decide +kernel
  have hanalyze : Analysis.analyze [] {} sources = .ok analysis := by
    simp only [Analysis.analyze, sources, Option.map_some, hservice, hclient, hserver]
    decide +kernel
  have hrender : renderAll ⟨"out"⟩ {} generator generator analysis = .ok stubs := by
    decide +kernel
  have hreplace : CanReplace ⟨"out"⟩ tree := by
    refine ⟨by decide, by decide +kernel, Or.inr ?_⟩
    rintro - ⟨rest, rfl⟩
    rfl
  have hallowed : ∀ side, ∀ anchor ∈ analysis.anchors side,
      IsAllowed ⟨"out"⟩ tree anchor (generatorOf generator generator side).extension := by
    intro side anchor hmem
    cases side with
    | client =>
      obtain rfl := List.mem_singleton.1 hmem
      exact ⟨by decide +kernel, by decide +kernel, by decide +kernel⟩
    | server =>
      obtain rfl := List.mem_singleton.1 hmem
      exact ⟨by decide +kernel, by decide +kernel, by decide +kernel⟩
  have hending : ∀ side, '/' ∉ (generatorOf generator generator side).extension.toList := by
    rintro (_ | _) <;> decide
  obtain ⟨after, hrun, -, hkept⟩ :=
    generateStubs_nodup_iff hanalyze hrender hending hreplace hallowed
  have hkeys : (stubKeys generator generator analysis).Nodup := by decide +kernel
  exact ⟨hanalyze, hrender, after, hrun, hkept hkeys⟩

/-- A client anchor and a server anchor of one name in one package have one key, so what was
rendered for the client is overwritten, and the answer lists its path all the same. -/
theorem generateStubs_loses_stub :
    let sources : ProjectSources :=
      ⟨⟨[⟨⟨"A.kt"⟩, "@RpcService(\"A\")\ninterface A"⟩]⟩,
        some ⟨[⟨⟨"C.kt"⟩, "@RpcClient abstract class C:A"⟩]⟩,
        some ⟨[⟨⟨"S.kt"⟩, "@RpcServer abstract class C(impl:A)"⟩]⟩⟩
    let generator : Generator := ⟨"kt", fun _ side _ _ => .ok side.word⟩
    let analysis : Analysis :=
      ⟨[⟨"A", "", "A", []⟩], [⟨"", "C", "A", none, true⟩], [⟨"", "C", "A", none, true⟩], []⟩
    let outcome := generateStubs ⟨"out"⟩ {} generator generator analysis ⟨[], []⟩
    Analysis.analyze [] {} sources = .ok analysis ∧
      renderAll ⟨"out"⟩ {} generator generator analysis =
        .ok [⟨⟨"out/CImpl.kt"⟩, "client"⟩, ⟨⟨"out/CImpl.kt"⟩, "server"⟩] ∧
      outcome.1 = .ok [⟨"out/CImpl.kt"⟩, ⟨"out/CImpl.kt"⟩] ∧
      outcome.2.get? ["out", "CImpl.kt"] = some (.text "server") := by
  decide +kernel

end RpcBinder
