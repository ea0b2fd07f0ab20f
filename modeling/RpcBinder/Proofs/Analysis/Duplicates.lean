import RpcBinder.Proofs.Analysis.FileByFile
import RpcBinder.Proofs.Catalog
import RpcBinder.Proofs.Declaration.Headers
import RpcBinder.Proofs.Name
import RpcBinder.Proofs.Series

/-!
# Interfaces that are services more than once

The interface of a service is named by a word, so its package can be read off its qualified name: it
ends in front of the last dot.  Two services of an analysis therefore share an interface just if
they share package and name.  An analysis warns of each service whose interface was there before,
and those are the services that the catalog has no place of its own for.

## Main definitions

* `Warning.isDuplicate` — a warning of an interface that was there before.

## Main results

* `isRun_interface_of_analyze` — the interfaces of an analysis are named by words.
* `length_duplicates` — warnings and listed interfaces make up all services.
* `catalog_and_bindings` — **catalogs, bindings, and the duplicates of an analysis.**
-/

namespace RpcBinder

/-- A warning of an interface that was there before. -/
def Warning.isDuplicate : Warning → Bool
  | .duplicateService _ => true
  | _ => false

namespace Analysis

/-! ### Interfaces -/

theorem isRun_interface_of_servicesOf {resolver : Resolver} {markers : Markers} {text : List Char}
    {services : List Service} (h : Declaration.servicesOf resolver markers text = .ok services)
    {service : Service} (hmem : service ∈ services) : IsRun isWord service.interface.toList := by
  obtain ⟨header, hheader, hservice⟩ :=
    exists_related_of_mem (Declaration.forall₂_headers_of_servicesOf h).flip hmem
  rw [hservice.interface, String.toList_ofList]
  exact (Declaration.exists_header hheader).1

/-- The interfaces of an analysis are named by words, whatever the sources look like. -/
theorem isRun_interface_of_analyze {markers : Markers} {filter : PackageFilter}
    {sources : ProjectSources} {analysis : Analysis}
    (h : analyze markers filter sources = .ok analysis) {service : Service}
    (hmem : service ∈ analysis.services) : IsRun isWord service.interface.toList := by
  rw [analyze_eq, allowedServices] at h
  obtain ⟨_, hallowed, h⟩ := bind_eq_ok.1 h
  obtain ⟨services, hservices, hfilter⟩ := bind_eq_ok.1 hallowed
  obtain rfl := Except.ok.inj hfilter
  obtain rfl := Except.ok.inj h
  obtain ⟨found, hfiles, rfl⟩ := servicesOf_prepare hservices
  obtain ⟨fileServices, hfound, hservice⟩ := List.mem_flatten.1 (List.mem_filter.1 hmem).1
  obtain ⟨file, -, hfile⟩ := exists_related_of_mem hfiles.flip hfound
  exact isRun_interface_of_servicesOf (of_mapError_eq_ok hfile) hservice

/-! ### Warnings -/

/-- Of each interface there is a warning, or it is new.  What was seen grows along the list, so
`seen` is not fixed in the induction. -/
theorem length_duplicates (seen fqns : List String) :
    (duplicates seen fqns).length + (fqns.removeAll seen).eraseDups.length = fqns.length := by
  induction fqns generalizing seen with
  | nil => rfl
  | cons fqn fqns ih =>
    rw [duplicates]
    by_cases hseen : fqn ∈ seen
    · have hdrop : (fqn :: fqns).removeAll seen = fqns.removeAll seen := by
        simp [List.removeAll, hseen]
      rw [if_pos (List.contains_iff_mem.2 hseen), hdrop, List.length_cons, List.length_cons,
        ← ih seen]
      omega
    · have hkeep : (fqn :: fqns).removeAll seen = fqn :: fqns.removeAll seen := by
        simp [List.removeAll, hseen]
      -- erasing the new interface further on is the same as having seen it
      have hlater : (fqns.removeAll seen).filter (fun other => !other == fqn) =
          fqns.removeAll (fqn :: seen) := by
        simp [List.removeAll, List.filter_filter, beq_eq_decide]
      rw [if_neg (mt List.contains_iff_mem.1 hseen), hkeep, List.eraseDups_cons, hlater,
        List.length_cons, List.length_cons, ← ih (fqn :: seen)]
      omega

theorem countP_duplicates (seen fqns : List String) :
    (duplicates seen fqns).countP Warning.isDuplicate = (duplicates seen fqns).length := by
  induction fqns generalizing seen with
  | nil => rfl
  | cons fqn fqns ih =>
    rw [duplicates]
    split
    · rw [List.countP_cons_of_pos rfl, ih, List.length_cons]
    · exact ih _

theorem countP_warnIfNone {α : Type} (found : List α) (kind : DeclarationKind)
    (units : List SourceUnit) : (warnIfNone found kind units).countP Warning.isDuplicate = 0 := by
  unfold warnIfNone
  split <;> rfl

theorem countP_analyzeSide (side : Side) (filter : PackageFilter) (index : TypeIndex)
    (units : Option (List SourceUnit)) :
    (analyzeSide side filter index units).2.countP Warning.isDuplicate = 0 := by
  cases units with
  | none => rfl
  | some units => exact countP_warnIfNone _ _ _

/-- The warnings of duplicates and the interfaces of the catalog make up all services. -/
theorem countP_isDuplicate_of_analyze {markers : Markers} {filter : PackageFilter}
    {sources : ProjectSources} {analysis : Analysis}
    (h : analyze markers filter sources = .ok analysis) :
    analysis.warnings.countP Warning.isDuplicate + analysis.catalog.size =
      analysis.services.length := by
  rw [analyze_eq] at h
  obtain ⟨services, -, h⟩ := bind_eq_ok.1 h
  obtain rfl := Except.ok.inj h
  simp only [catalog, size_ofServices, List.countP_append, countP_warnIfNone, countP_analyzeSide,
    countP_duplicates]
  have hlength := length_duplicates [] (services.map Service.interfaceFqn)
  rw [List.removeAll_nil, List.length_map] at hlength
  omega

end Analysis

/-! ### Catalogs of analyses -/

/-- **Catalogs, bindings, and the duplicates of an analysis.**  A catalog lists every interface
once, in order of first occurrence, and finds the last service of each.  Anchors are bound if all
their interfaces are listed, each to the last service of its interface and under its own route or
else the one of the service; otherwise the first of them that is not listed is named.  The services
of an analysis share an interface just if they share package and name, and it warns of as many
duplicates as there are services without an interface of their own in the catalog. -/
theorem catalog_and_bindings :
    (∀ services : List Service,
      let catalog := Catalog.ofServices services
      catalog.interfaces = (services.map Service.interfaceFqn).eraseDups ∧
        catalog.interfaces.Nodup ∧ catalog.size = catalog.interfaces.length ∧
        ∀ interfaceFqn, catalog.get? interfaceFqn =
          (services.filter (·.interfaceFqn == interfaceFqn)).getLast?) ∧
    (∀ (services : List Service) (side : Side) (anchors : List Anchor),
      let catalog := Catalog.ofServices services
      ((∃ bindings, catalog.bind side anchors = .ok bindings) ↔
        ∀ anchor ∈ anchors, anchor.interfaceFqn ∈ catalog.interfaces) ∧
      (∀ bindings, catalog.bind side anchors = .ok bindings →
        List.Forall₂ (IsBindingOf services) bindings anchors) ∧
      ∀ failure, catalog.bind side anchors = .error failure ↔
        ∃ anchor, anchors.find? (·.interfaceFqn ∉ catalog.interfaces) = some anchor ∧
          failure = .unknownInterface side anchor.className anchor.interfaceFqn) ∧
    ∀ (markers : Markers) (filter : PackageFilter) (sources : ProjectSources)
      (analysis : Analysis), Analysis.analyze markers filter sources = .ok analysis →
        (∀ one ∈ analysis.services, ∀ other ∈ analysis.services,
          one.interfaceFqn = other.interfaceFqn ↔
            one.package = other.package ∧ one.interface = other.interface) ∧
        analysis.warnings.countP Warning.isDuplicate + analysis.catalog.size =
          analysis.services.length := by
  refine ⟨?_, ?_, ?_⟩
  · intro services
    refine ⟨interfaces_ofServices services, nodup_interfaces services, ?_, ?_⟩
    · exact (List.length_map _).symm
    · intro interfaceFqn
      rw [get?_ofServices, serviceOf?_eq]
  · intro services side anchors
    refine ⟨?_, fun bindings => forall₂_isBindingOf, ?_⟩
    · rw [← errorOf?_eq_none, errorOf?_bind, Option.map_eq_none_iff, List.find?_eq_none]
      simp
    · intro failure
      rw [← errorOf?_eq_some, errorOf?_bind, Option.map_eq_some_iff]
      simp only [eq_comm]
  · intro markers filter sources analysis h
    refine ⟨?_, Analysis.countP_isDuplicate_of_analyze h⟩
    intro one hone other hother
    -- a word holds no dot, so the package ends in front of the last one
    have hdot {service : Service} (hmem : service ∈ analysis.services) :
        '.' ∉ service.interface.toList :=
      (Analysis.isRun_interface_of_analyze h hmem).notMem (by decide)
    exact qualifiedName_eq_iff (hdot hone) (hdot hother)

theorem catalog_and_bindings_example :
    let file : SourceFile := ⟨⟨"A.kt"⟩,
      "package a\n@RpcService(\"A\") interface A\n@RpcService(\"B\") interface A"⟩
    let first : Service := ⟨"A", "a", "A", []⟩
    let second : Service := ⟨"B", "a", "A", []⟩
    let anchor : Anchor := ⟨"", "C", "a.A", some "R", true⟩
    let unserved : Anchor := ⟨"", "D", "b.A", none, true⟩
    let analysis : Analysis := ⟨[first, second], [], [], [.duplicateService "a.A"]⟩
    Analysis.analyze [] {} { api := ⟨[file]⟩ } = .ok analysis ∧
      first.interfaceFqn = second.interfaceFqn ∧
      analysis.warnings.countP Warning.isDuplicate + analysis.catalog.size = 2 ∧
      analysis.catalog.bind .client [anchor] = .ok [⟨second, anchor⟩] ∧
      List.Forall₂ (IsBindingOf analysis.services) [⟨second, anchor⟩] [anchor] ∧
      analysis.catalog.bind .server [anchor, unserved] =
        .error (.unknownInterface .server "D" "b.A") := by
  intro file first second anchor unserved analysis
  have hanalyze : Analysis.analyze [] {} { api := ⟨[file]⟩ } = .ok analysis := by decide +kernel
  have hbind : analysis.catalog.bind .client [anchor] = .ok [⟨second, anchor⟩] := by
    decide +kernel
  obtain ⟨-, hbindings, hservices⟩ := catalog_and_bindings
  obtain ⟨hkeys, hcount⟩ := hservices [] {} _ _ hanalyze
  have hsame := (hkeys first List.mem_cons_self second
    (List.mem_cons_of_mem _ List.mem_cons_self)).2 ⟨rfl, rfl⟩
  -- one list of anchors that are all served, and one with an anchor that is not
  obtain ⟨-, hbound, -⟩ := hbindings analysis.services .client [anchor]
  obtain ⟨-, -, hfailure⟩ := hbindings analysis.services .server [anchor, unserved]
  exact ⟨hanalyze, hsame, hcount, hbind, hbound _ hbind,
    (hfailure _).2 ⟨unserved, by decide +kernel, rfl⟩⟩

end RpcBinder
