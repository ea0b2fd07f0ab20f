import RpcBinder.Proofs.Analysis.FileByFile
import RpcBinder.Proofs.Declaration.Headers
import RpcBinder.Proofs.Scope.Resolution
import RpcBinder.Proofs.Series

/-!
# Services that names can reach

An anchor may name the interface of a service by its simple name.  Unless the file of the anchor
imports the interface explicitly, the name resolves only if the index of the project holds the
interface, and the index holds the types that are found by their lines.  So a service can be
reached from its own package, and from a file that imports all of its package, if its header is
plain.

## Main definitions

* `IsReachable` — the simple name of a service's interface resolves.

## Main results

* `isReachable_of_contains` — names resolve to what the index holds.
* `listed_and_reachable` — **a service outside of all braces is listed if and only if its header is
  plain**, and then it can be reached.
* `header_not_listed` — a header that is not plain, and its service, which is not listed.
-/

namespace RpcBinder

/-! ### Resolving the name of an interface -/

/-- No package that is imported as a whole is known to declare the name, `package` apart. -/
def Scope.ImportsFrom (scope : Scope) (index : TypeIndex) (package name : String) : Prop :=
  ∀ other ∈ scope.wildcards, index.contains name (qualifiedName other name) = true →
    other = package

/-- The simple name of the interface of a service resolves to the interface, both in a file that
imports all of its package and in a file of its package. -/
structure Service.IsReachable (service : Service) (index : TypeIndex) : Prop where
  indexed : index.contains service.interface service.interfaceFqn = true
  wildcard : ∀ scope : Scope, scope.LeavesOpen service.interface →
    scope.ImportsFrom index service.package service.interface →
      service.package ∈ scope.wildcards →
        Resolver.resolve ⟨scope, index⟩ service.interface =
          ⟨service.interfaceFqn, .wildcardImport⟩
  samePackage : ∀ scope : Scope, scope.LeavesOpen service.interface →
    scope.ImportsFrom index service.package service.interface →
      service.package ∉ scope.wildcards → scope.package = service.package →
        Resolver.resolve ⟨scope, index⟩ service.interface = ⟨service.interfaceFqn, .samePackage⟩

namespace Resolver

variable {scope : Scope} {index : TypeIndex} {package name : String}

theorem eq_of_find?_wildcards (h : scope.ImportsFrom index package name) {other : String}
    (hfound : scope.wildcards.find? (index.contains name ∘ (qualifiedName · name)) = some other) :
    other = package := by
  have hcontains := List.find?_some hfound
  exact h other (List.mem_of_find?_eq_some hfound) hcontains

theorem wildcard?_of_mem (h : scope.ImportsFrom index package name)
    (hmem : package ∈ scope.wildcards)
    (hcontains : index.contains name (qualifiedName package name) = true) :
    wildcard? ⟨scope, index⟩ name = some (qualifiedName package name) := by
  rw [wildcard?, List.find?_map]
  cases hfound : scope.wildcards.find? (index.contains name ∘ (qualifiedName · name)) with
  | none => exact absurd hcontains (List.find?_eq_none.1 hfound package hmem)
  | some other =>
    obtain rfl := eq_of_find?_wildcards h hfound
    rfl

theorem wildcard?_of_notMem (h : scope.ImportsFrom index package name)
    (hmem : package ∉ scope.wildcards) : wildcard? ⟨scope, index⟩ name = none := by
  rw [wildcard?, List.find?_map]
  cases hfound : scope.wildcards.find? (index.contains name ∘ (qualifiedName · name)) with
  | none => rfl
  | some other =>
    obtain rfl := eq_of_find?_wildcards h hfound
    exact absurd (List.mem_of_find?_eq_some hfound) hmem

end Resolver

/-- What the index holds can be reached by a name without a dot. -/
theorem Service.isReachable_of_contains {service : Service} {index : TypeIndex}
    (hdot : '.' ∉ service.interface.toList)
    (h : index.contains service.interface service.interfaceFqn = true) :
    service.IsReachable index := by
  refine ⟨h, fun scope hopen hfrom hmem => ?_, fun scope hopen hfrom hmem hpackage => ?_⟩
  · have hwildcard : Resolver.wildcard? ⟨scope, index⟩ service.interface =
        some service.interfaceFqn := Resolver.wildcard?_of_mem hfrom hmem h
    simp [Resolver.resolve, hdot, hopen.aliases, hopen.explicit, hwildcard]
  · have hwildcard := Resolver.wildcard?_of_notMem hfrom hmem
    have hsame : Resolver.samePackage? ⟨scope, index⟩ service.interface =
        some service.interfaceFqn := by
      rw [Resolver.samePackage?, hpackage]
      exact if_pos h
    simp [Resolver.resolve, hdot, hopen.aliases, hopen.explicit, hwildcard, hsame]

namespace Analysis

open Declaration

/-! ### The index of a project -/

/-- The index holds every type that a file of the project declares outside of braces. -/
theorem contains_projectIndex {markers : Markers} {sources : ProjectSources} {file : SourceFile}
    (hfile : file ∈ sources.api.files) {name : String}
    (h : name ∈ (SourceUnit.ofFile file).declared) :
    (projectIndex markers sources).contains name
      (qualifiedName (SourceUnit.ofFile file).scope.package name) = true := by
  rw [projectIndex, indexOf_eq_build, TypeIndex.contains_build]
  have hunit : SourceUnit.ofFile file ∈ projectUnits sources :=
    List.mem_append_left _ (List.mem_append_left _ (List.mem_map_of_mem hfile))
  refine List.mem_flatMap.2 ⟨.declare (SourceUnit.ofFile file).scope.package name, ?_,
    List.mem_singleton.2 rfl⟩
  exact List.mem_append_left _ (List.mem_flatMap.2 ⟨_, hunit, List.mem_map_of_mem h⟩)

/-- **A service outside of all braces is listed if and only if its header is plain**, and then its
interface is in the index under its qualified name and can be reached by its simple name.  The
services that a project finds in a file are those of the headers in its text, one by one. -/
theorem listed_and_reachable {markers : Markers} {sources : ProjectSources} {file : SourceFile}
    (hfile : file ∈ sources.api.files) {services : List Service}
    (h : fileServices markers sources file = .ok services) :
    let unit := SourceUnit.ofFile file
    let index := projectIndex markers sources
    List.Forall₂ (fun service header =>
        IsServiceOf (unit.resolver index) service header ∧
          (depthAt unit.text header.start = 0 →
            (IsListed unit.text header ↔ IsPlain unit.text header) ∧
              (IsPlain unit.text header →
                service.interface ∈ topLevelTypes unit.text ∧ service.IsReachable index)))
      services (Shape.service.findAll unit.text) := by
  intro unit index
  have hservices : Declaration.servicesOf (unit.resolver index) markers unit.text = .ok services :=
    of_mapError_eq_ok h
  have hheaders := (forall₂_headers_of_servicesOf hservices).flip
  -- each service beside its header, which is one of the text
  have hmem := ((List.forall₂_and_left _ _).2 ⟨fun _ hheader => hheader, hheaders⟩).flip
  refine hmem.imp fun service header ⟨hheader, hservice⟩ => ⟨hservice, fun hdepth => ?_⟩
  have hlisted := isListed_iff_isPlain hheader hdepth
  refine ⟨hlisted, fun hplain => ?_⟩
  have htypes : service.interface ∈ topLevelTypes unit.text := by
    rw [hservice.interface]
    exact mem_topLevelTypes_of_isListed (hlisted.2 hplain)
  refine ⟨htypes, Service.isReachable_of_contains ?_ ?_⟩
  · rw [hservice.interface, String.toList_ofList]
    exact hplain.1.notMem (by decide)
  · rw [Service.interfaceFqn, hservice.package]
    exact contains_projectIndex hfile htypes

theorem listed_and_reachable_example :
    let file : SourceFile := ⟨⟨"A.kt"⟩, "package p\n@RpcService(\"r\")\n@T(1) public interface A"⟩
    let sources : ProjectSources := { api := ⟨[file]⟩ }
    let service : Service := ⟨"r", "p", "A", []⟩
    file ∈ sources.api.files ∧ fileServices [] sources file = .ok [service] ∧
      service.IsReachable (projectIndex [] sources) := by
  intro file sources service
  have hfile : file ∈ sources.api.files := List.mem_singleton_self _
  have hservices : fileServices [] sources file = .ok [service] := by decide +kernel
  have hlisted : ∀ header ∈ Shape.service.findAll (SourceUnit.ofFile file).text,
      depthAt (SourceUnit.ofFile file).text header.start = 0 ∧
        IsListed (SourceUnit.ofFile file).text header := by decide +kernel
  obtain ⟨header, headers, ⟨-, hheader⟩, -, hheaders⟩ :=
    List.forall₂_cons_left_iff.1 (listed_and_reachable hfile hservices)
  obtain ⟨hdepth, hmem⟩ := hlisted header (hheaders ▸ List.mem_cons_self)
  obtain ⟨hiff, hreachable⟩ := hheader hdepth
  exact ⟨hfile, hservices, (hreachable (hiff.1 hmem)).2⟩

/-- A name with a letter that is not of ASCII: the service is reported, and what is listed is the
name up to this letter. -/
theorem header_not_listed :
    let text := Lexis.stripComments "@RpcService(\"menu\")\ninterface Menü\n".toList
    Declaration.servicesOf ⟨{ package := "p" }, .empty⟩ [] text = .ok [⟨"menu", "p", "Menü", []⟩] ∧
      topLevelTypes text = ["Men"] ∧
      ∃ header ∈ Shape.service.findAll text, depthAt text header.start = 0 ∧
        regionOf text header.start = some .code ∧ ¬ IsListed text header := by
  decide +kernel

end Analysis

end RpcBinder
