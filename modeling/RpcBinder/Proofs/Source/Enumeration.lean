import RpcBinder.Analysis.Basic
import RpcBinder.Proofs.Source.PathOrder

/-!
# The order in which files are enumerated

A set of sources holds its files in the order of their paths.  As this order is total on component
sequences, a list of files whose paths differ by their components has one set, however the list
is arranged, and so has a project.

## Main definitions

* `SourceSet.HoldsSorted` — a set that holds the files of a list in order.
* `Enumeration`, `Enumeration.sources` — the files of a project in lists, and its sources.
* `Enumeration.IsRearranged` — the same files in other orders.

## Main results

* `SourceSet.holdsSorted_ofFiles`, `SourceSet.ofFiles_eq_of_perm` — the set of a list.
* `Enumeration.analyze_of_isRearranged` — **an analysis does not depend on the enumeration.**
-/

namespace RpcBinder

/-! ### Sets -/

/-- No two files of the list have paths with the same components. -/
def HaveDistinctPaths (files : List SourceFile) : Prop :=
  files.Pairwise fun a b => a.path.components ≠ b.path.components

instance (files : List SourceFile) : Decidable (HaveDistinctPaths files) :=
  inferInstanceAs (Decidable (files.Pairwise _))

theorem HaveDistinctPaths.perm {files others : List SourceFile} (h : HaveDistinctPaths files)
    (hperm : files.Perm others) : HaveDistinctPaths others :=
  (hperm.pairwise_iff Ne.symm).1 h

namespace SourceSet

/-- The set holds the files of a list that are not blank, each as often as the list does, and
each in front of those that its path precedes. -/
structure HoldsSorted (set : SourceSet) (files : List SourceFile) : Prop where
  perm : set.files.Perm (files.filter fun file => !isBlank file.text.toList)
  sorted : set.files.Pairwise fun a b => a.path.Precedes b.path

variable {files others : List SourceFile}

theorem files_ofFiles (files : List SourceFile) :
    (ofFiles files).files = (files.filter fun file => !isBlank file.text.toList).mergeSort
      fun a b => a.path.le b.path := rfl

/-- Sorting puts no file in front of one that precedes it. -/
theorem pairwise_le_ofFiles (files : List SourceFile) :
    (ofFiles files).files.Pairwise fun a b => a.path.le b.path = true := by
  have htrans (a b c : SourceFile) (hab : a.path.le b.path = true) (hbc : b.path.le c.path = true) :
      a.path.le c.path = true := Path.le_trans hab hbc
  have htotal (a b : SourceFile) : (a.path.le b.path || b.path.le a.path) = true := by
    rw [Bool.or_eq_true]
    exact Path.le_total a.path b.path
  rw [files_ofFiles]
  exact List.pairwise_mergeSort htrans htotal _

theorem holdsSorted_ofFiles (h : HaveDistinctPaths files) :
    (ofFiles files).HoldsSorted files := by
  have hperm : (ofFiles files).files.Perm
      (files.filter fun file => !isBlank file.text.toList) := by
    rw [files_ofFiles]
    exact List.mergeSort_perm _ _
  have hdistinct : HaveDistinctPaths (ofFiles files).files :=
    HaveDistinctPaths.perm (h.filter _) hperm.symm
  refine ⟨hperm, ?_⟩
  -- where the components differ, not to come after is to come before
  refine (hdistinct.and (pairwise_le_ofFiles files)).imp fun ⟨hne, hle⟩ => ?_
  exact (Path.le_iff.1 hle).resolve_left hne

/-- A list has only one set that holds its files in order. -/
theorem HoldsSorted.unique {first second : SourceSet} (hfirst : first.HoldsSorted files)
    (hsecond : second.HoldsSorted others) (h : files.Perm others) : first = second := by
  have hperm : first.files.Perm second.files :=
    hfirst.perm.trans ((h.filter _).trans hsecond.perm.symm)
  have hfiles : first.files = second.files :=
    List.Perm.eq_of_pairwise (fun a b _ _ hab hba => absurd hba hab.asymm)
      hfirst.sorted hsecond.sorted hperm
  cases first
  cases second
  exact congrArg SourceSet.mk hfiles

theorem HoldsSorted.ofFiles_eq {set : SourceSet} (hset : set.HoldsSorted files)
    (h : HaveDistinctPaths files) : ofFiles files = set :=
  (holdsSorted_ofFiles h).unique hset (List.Perm.refl files)

/-- The set of a list is the same for every arrangement of it. -/
theorem ofFiles_eq_of_perm (h : HaveDistinctPaths files) (hperm : files.Perm others) :
    ofFiles files = ofFiles others :=
  (holdsSorted_ofFiles h).unique (holdsSorted_ofFiles (h.perm hperm)) hperm

end SourceSet

/-! ### Projects -/

/-- The files of a project as they are enumerated. -/
structure Enumeration where
  /-- The files with the interfaces of services. -/
  api : List SourceFile
  /-- The files with client anchors, if clients are generated. -/
  client : Option (List SourceFile) := none
  /-- The files with server anchors, if servers are generated. -/
  server : Option (List SourceFile) := none
  deriving DecidableEq, Repr

namespace Enumeration

/-- The sets of sources of these files. -/
def sources (files : Enumeration) : ProjectSources where
  api := .ofFiles files.api
  client := files.client.map .ofFiles
  server := files.server.map .ofFiles

/-- In each list the paths differ by their components. -/
structure HasDistinctPaths (files : Enumeration) : Prop where
  api : HaveDistinctPaths files.api
  client : ∀ list ∈ files.client, HaveDistinctPaths list
  server : ∀ list ∈ files.server, HaveDistinctPaths list

/-- Each list holds the same files, in whatever order. -/
structure IsRearranged (files others : Enumeration) : Prop where
  api : files.api.Perm others.api
  client : Option.Rel List.Perm files.client others.client
  server : Option.Rel List.Perm files.server others.server

/-- The sets of sources hold the files of the lists in the order of their paths. -/
structure HoldSorted (sources : ProjectSources) (files : Enumeration) : Prop where
  api : sources.api.HoldsSorted files.api
  client : Option.Rel SourceSet.HoldsSorted sources.client files.client
  server : Option.Rel SourceSet.HoldsSorted sources.server files.server

theorem rel_holdsSorted_map {list? : Option (List SourceFile)}
    (h : ∀ list ∈ list?, HaveDistinctPaths list) :
    Option.Rel SourceSet.HoldsSorted (list?.map .ofFiles) list? := by
  cases list? with
  | none => exact .none
  | some list => exact .some (SourceSet.holdsSorted_ofFiles (h list rfl))

theorem map_ofFiles_eq_of_rel {list? other? : Option (List SourceFile)}
    (h : ∀ list ∈ list?, HaveDistinctPaths list) (hrel : Option.Rel List.Perm list? other?) :
    list?.map SourceSet.ofFiles = other?.map SourceSet.ofFiles := by
  cases hrel with
  | none => rfl
  | some hperm => exact congrArg some (SourceSet.ofFiles_eq_of_perm (h _ rfl) hperm)

variable {files others : Enumeration}

theorem holdSorted_sources (h : files.HasDistinctPaths) : HoldSorted files.sources files :=
  ⟨SourceSet.holdsSorted_ofFiles h.api, rel_holdsSorted_map h.client, rel_holdsSorted_map h.server⟩

/-- The sources are the same for every arrangement of the files. -/
theorem sources_eq_of_isRearranged (h : files.HasDistinctPaths)
    (hfiles : files.IsRearranged others) : files.sources = others.sources := by
  unfold sources
  rw [SourceSet.ofFiles_eq_of_perm h.api hfiles.api, map_ofFiles_eq_of_rel h.client hfiles.client,
    map_ofFiles_eq_of_rel h.server hfiles.server]

/-- **An analysis does not depend on the order in which files are enumerated.**  If the paths of
each list differ by their components, then in whatever order the lists come, their sets are the
same; these hold exactly the files that are not blank, in the order of their paths; and the
analysis has the same services, anchors and warnings, or fails in the same way. -/
theorem analyze_of_isRearranged (markers : Markers) (filter : PackageFilter)
    (h : files.HasDistinctPaths) (hfiles : files.IsRearranged others) :
    files.sources = others.sources ∧ HoldSorted files.sources files ∧
      Analysis.analyze markers filter files.sources =
        Analysis.analyze markers filter others.sources := by
  have hsources := sources_eq_of_isRearranged h hfiles
  exact ⟨hsources, holdSorted_sources h, by rw [hsources]⟩

theorem analyze_of_isRearranged_example :
    let service : SourceFile := ⟨⟨"/b/./c.kt"⟩, "@RpcService(\"A\")interface A"⟩
    let other : SourceFile := ⟨⟨"./b//c.kt"⟩, "object B"⟩
    let blank : SourceFile := ⟨⟨"../b"⟩, " \n"⟩
    let same : SourceFile := ⟨⟨"b/c.kt"⟩, "object B"⟩
    let anchor : SourceFile := ⟨⟨"b/c.kt"⟩, "@RpcClient abstract class C:A"⟩
    let files : Enumeration := ⟨[same, blank, other, service], some [blank, anchor], none⟩
    let others : Enumeration := ⟨[other, same, service, blank], some [anchor, blank], none⟩
    files.HasDistinctPaths ∧ files.IsRearranged others ∧
      files.sources = ⟨⟨[service, other, same]⟩, some ⟨[anchor]⟩, none⟩ ∧
      others.sources = files.sources ∧
      Analysis.analyze [] {} others.sources =
        .ok ⟨[⟨"A", "", "A", []⟩], [⟨"", "C", "A", none, true⟩], [], []⟩ := by
  intro service other blank same anchor files others
  have hapi : HaveDistinctPaths [same, blank, other, service] := by decide
  have hclient : HaveDistinctPaths [blank, anchor] := by decide
  have hdistinct : files.HasDistinctPaths :=
    ⟨hapi, fun list hlist => Option.some.inj hlist ▸ hclient, nofun⟩
  have hrearranged : files.IsRearranged others := ⟨by decide, .some (by decide), .none⟩
  obtain ⟨hsame, -, hanalyze⟩ := analyze_of_isRearranged [] {} hdistinct hrearranged
  have hsources : files.sources = ⟨⟨[service, other, same]⟩, some ⟨[anchor]⟩, none⟩ := by
    have hsortedApi : SourceSet.HoldsSorted ⟨[service, other, same]⟩ files.api :=
      ⟨by decide, by decide⟩
    have hsortedClient : SourceSet.HoldsSorted ⟨[anchor]⟩ [blank, anchor] :=
      ⟨by decide, by decide⟩
    rw [sources, hsortedApi.ofFiles_eq hapi, Option.map_some, hsortedClient.ofFiles_eq hclient]
    rfl
  refine ⟨hdistinct, hrearranged, hsources, hsame.symm, ?_⟩
  rw [← hanalyze, hsources]
  decide +kernel

end Enumeration

end RpcBinder
