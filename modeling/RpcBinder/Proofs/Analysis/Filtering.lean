import RpcBinder.Proofs.Analysis.FileByFile
import RpcBinder.Proofs.Declaration.Malformed
import RpcBinder.Proofs.Source.Enumeration

/-!
# Analyses under a filter

A filter is asked last: the index of types covers every file, and every method is read, whatever
package it is in.  So a filter neither prevents a failure nor changes which one it is, and what it
lets through is as it is without a filter.

## Main definitions

* `malformed` — the malformed parameters of a project, in order.
* `IsFiltered` — an analysis that holds what a filter lets through of another one.

## Main results

* `errorOf?_analyze` — the first malformed parameter of a project is its failure.
* `analyze_filter` — **filtering commutes with analyzing.**
-/

namespace RpcBinder.Analysis

/-- The malformed parameters of a project, in the order of its files. -/
def malformed (sources : ProjectSources) : List Declaration.MalformedParameter :=
  sources.api.files.flatMap fun file => Declaration.malformedIn (SourceUnit.ofFile file).text

/-- An analysis holds what a filter lets through of another one, in the same order. -/
structure IsFiltered (filter : PackageFilter) (full kept : Analysis) : Prop where
  services : kept.services = full.services.filter (filter.allows ·.package)
  anchors : ∀ side, kept.anchors side = (full.anchors side).filter (filter.allows ·.package)

/-! ### Failures -/

theorem errorOf?_servicesOf (markers : Markers) (index : TypeIndex) (set : SourceSet) :
    errorOf? (servicesOf markers index (prepare set)) =
      (set.files.flatMap fun file =>
        Declaration.malformedIn (SourceUnit.ofFile file).text).head?.map
          fun fault => .malformedParameter fault.fragment := by
  rw [← List.head?_map, List.map_flatMap]
  refine (errorOf?_bind_ok _ List.flatten).trans ?_
  rw [prepare, List.mapM_map]
  refine errorOf?_mapM (fun file => ?_) _
  rw [Function.comp_apply, errorOf?_mapError, Declaration.errorOf?_servicesOf, List.head?_map]

/-- The first malformed parameter of a project is its failure, whatever the filter is. -/
theorem errorOf?_analyze (markers : Markers) (filter : PackageFilter) (sources : ProjectSources) :
    errorOf? (analyze markers filter sources) =
      (malformed sources).head?.map fun fault => .malformedParameter fault.fragment := by
  rw [analyze_eq]
  refine (errorOf?_bind_ok _ _).trans ((errorOf?_bind_ok _ _).trans ?_)
  exact errorOf?_servicesOf markers _ sources.api

/-! ### Results -/

theorem fst_analyzeSide_filter (side : Side) (filter : PackageFilter) (index : TypeIndex)
    (units : Option (List SourceUnit)) :
    (analyzeSide side filter index units).1 =
      (analyzeSide side {} index units).1.filter (filter.allows ·.package) := by
  cases units with
  | none => rfl
  | some units => exact congrArg _ (filter_allows_empty Anchor.package _).symm

/-- A filter keeps a part of what there is without one. -/
theorem exists_isFiltered {markers : Markers} {sources : ProjectSources} {full : Analysis}
    (h : analyze markers {} sources = .ok full) (filter : PackageFilter) :
    ∃ kept, analyze markers filter sources = .ok kept ∧ IsFiltered filter full kept := by
  -- both analyses read the same services, and only then is the filter asked
  rw [analyze_eq, allowedServices_empty] at h
  obtain ⟨services, hservices, h⟩ := bind_eq_ok.1 h
  obtain rfl := Except.ok.inj h
  rw [analyze_eq, allowedServices, hservices]
  refine ⟨_, rfl, rfl, ?_⟩
  rintro (_ | _)
  · exact fst_analyzeSide_filter .client filter _ _
  · exact fst_analyzeSide_filter .server filter _ _

/-- **Filtering commutes with analyzing.**  Under any filter an analysis fails just where it fails
without one, and with the same failure: that of the first malformed parameter, be its package
filtered out or not.  Otherwise the filter keeps the services and anchors of the packages that it
allows, in order and as they are.  The files of a set stand in the order of their paths. -/
theorem analyze_filter (markers : Markers) (filter : PackageFilter) (sources : ProjectSources) :
    (∀ failure, analyze markers filter sources = .error failure ↔
      analyze markers {} sources = .error failure) ∧
    (∀ failure, analyze markers filter sources = .error failure ↔
      ∃ first later, malformed sources = first :: later ∧
        failure = .malformedParameter first.fragment) ∧
    (∀ full, analyze markers {} sources = .ok full →
      ∃ kept, analyze markers filter sources = .ok kept ∧ IsFiltered filter full kept) ∧
    ∀ files, (SourceSet.ofFiles files).files.Pairwise fun a b => a.path.le b.path = true := by
  refine ⟨?_, ?_, ?_, SourceSet.pairwise_le_ofFiles⟩
  · intro failure
    rw [← errorOf?_eq_some, ← errorOf?_eq_some, errorOf?_analyze, errorOf?_analyze]
  · intro failure
    rw [← errorOf?_eq_some, errorOf?_analyze]
    cases malformed sources with
    | nil => simp
    | cons first later => simp [eq_comm]
  · intro full h
    exact exists_isFiltered h filter

theorem analyze_filter_example :
    let first : SourceFile := ⟨⟨"A.kt"⟩, "package a\n@RpcService(\"A\") interface A"⟩
    let second : SourceFile := ⟨⟨"B.kt"⟩, "package b\n@RpcService(\"B\") interface B"⟩
    let broken : SourceFile :=
      ⟨⟨"C.kt"⟩, "package b\n@RpcService(\"C\") interface C\n@RpcMethod(\"m\") fun f(x, y)"⟩
    let filter : PackageFilter := { excluded := ["b"] }
    let service : Service := ⟨"A", "a", "A", []⟩
    analyze [] {} { api := ⟨[first, second]⟩ } =
        .ok ⟨[service, ⟨"B", "b", "B", []⟩], [], [], []⟩ ∧
      (∃ kept, analyze [] filter { api := ⟨[first, second]⟩ } = .ok kept ∧
        kept.services = [service]) ∧
      analyze [] filter { api := ⟨[first, broken]⟩ } = .error (.malformedParameter "x") := by
  intro first second broken filter service
  have hfull : analyze [] {} { api := ⟨[first, second]⟩ } =
      .ok ⟨[service, ⟨"B", "b", "B", []⟩], [], [], []⟩ := by decide +kernel
  have hmalformed : malformed { api := ⟨[first, broken]⟩ } = [⟨"x"⟩, ⟨"y"⟩] := by decide +kernel
  obtain ⟨-, -, hkept, -⟩ := analyze_filter [] filter { api := ⟨[first, second]⟩ }
  obtain ⟨-, hfailure, -⟩ := analyze_filter [] filter { api := ⟨[first, broken]⟩ }
  obtain ⟨kept, hanalyze, hservices, -⟩ := hkept _ hfull
  have hallowed : [service, ⟨"B", "b", "B", []⟩].filter (filter.allows ·.package) = [service] := by
    decide +kernel
  exact ⟨hfull, ⟨kept, hanalyze, hservices.trans hallowed⟩, (hfailure _).2 ⟨_, _, hmalformed, rfl⟩⟩

end RpcBinder.Analysis
