import RpcBinder.Proofs.Path
import RpcBinder.Proofs.Text.Parts
import RpcBinder.Stub.Basic

/-!
# The places of stubs

The path of a stub has the segments of the output directory, a directory for each segment of the
package, and a file.  A segment of a package has no dot and the name of the file has one, so no
stub can be in the way of another one.

## Main definitions

* `stubFile` — the name of a stub's file.
* `HasPlainNames` — an anchor and an ending whose names do not reach into other directories.

## Main results

* `mem_packageSegments` — what the segments of a package are.
* `segments_stubPath`, `kept_stubPath` — the segments of a stub's path.
-/

namespace RpcBinder

/-- The name of the file of an anchor's stub. -/
def stubFile (anchor : Anchor) (extension : String) : String :=
  anchor.implName ++ "." ++ extension

/-- The names in a stub's path do not reach into other directories. -/
structure HasPlainNames (anchor : Anchor) (extension : String) : Prop where
  /-- The package is a name. -/
  package : '/' ∉ anchor.package.toList
  /-- The class is a name. -/
  className : '/' ∉ anchor.className.toList
  /-- The ending is a name. -/
  ending : '/' ∉ extension.toList

theorem mem_packageSegments {package segment : String} (h : segment ∈ packageSegments package) :
    segment ≠ "" ∧ '.' ∉ segment.toList ∧ ∀ c ∈ segment.toList, c ∈ package.toList := by
  obtain ⟨piece, hpiece, rfl⟩ := List.mem_map.1 h
  obtain ⟨hmem, hne⟩ := List.mem_filter.1 hpiece
  rw [String.toList_ofList]
  exact ⟨by simpa using hne, Path.notMem_of_mem_splitOn hmem, fun c hc =>
    (Path.sublist_of_mem_splitOn hmem).subset hc⟩

theorem isEntryName_of_notMem_dot {name : String} (hne : name ≠ "") (hslash : '/' ∉ name.toList)
    (hdot : '.' ∉ name.toList) : IsEntryName name where
  ne_empty := hne
  notMem := hslash
  ne_dot := by rintro rfl; exact hdot (by decide)
  ne_parent := by rintro rfl; exact hdot (by decide)

theorem isEntryName_of_mem_packageSegments {package segment : String}
    (hpackage : '/' ∉ package.toList) (h : segment ∈ packageSegments package) :
    IsEntryName segment := by
  obtain ⟨hne, hdot, hsub⟩ := mem_packageSegments h
  exact isEntryName_of_notMem_dot hne (fun hslash => hpackage (hsub _ hslash)) hdot

theorem toList_stubFile (anchor : Anchor) (extension : String) :
    (stubFile anchor extension).toList =
      anchor.className.toList ++ ("Impl.".toList ++ extension.toList) := by
  rw [stubFile, Anchor.implName]
  simp

theorem dot_mem_stubFile (anchor : Anchor) (extension : String) :
    '.' ∈ (stubFile anchor extension).toList := by
  rw [toList_stubFile]
  simp

theorem isEntryName_stubFile {anchor : Anchor} {extension : String}
    (h : HasPlainNames anchor extension) : IsEntryName (stubFile anchor extension) := by
  -- there is an `I` in the name, which the special names are without
  have hletter : 'I' ∈ (stubFile anchor extension).toList := by
    rw [toList_stubFile]
    simp
  refine ⟨?_, ?_, ?_, ?_⟩
  · intro heq
    rw [heq] at hletter
    exact absurd hletter (by decide)
  · rw [toList_stubFile]
    simp [h.className, h.ending]
  · intro heq
    rw [heq] at hletter
    exact absurd hletter (by decide)
  · intro heq
    rw [heq] at hletter
    exact absurd hletter (by decide)

theorem stubFile_notMem_packageSegments (anchor : Anchor) (package extension : String) :
    stubFile anchor extension ∉ packageSegments package :=
  fun hmem => (mem_packageSegments hmem).2.1 (dot_mem_stubFile anchor extension)

/-! ### Joined paths -/

section Join

variable {names : List String} (hnames : ∀ name ∈ names, IsEntryName name) (directory : Path)

include hnames

theorem segments_foldl_join :
    (names.foldl Path.join directory).segments = directory.segments ++ names := by
  induction names generalizing directory with
  | nil => simp
  | cons name names ih =>
    obtain ⟨hname, hrest⟩ := List.forall_mem_cons.1 hnames
    rw [List.foldl_cons, ih hrest, Path.segments_join _ hname.ne_empty hname.notMem,
      List.append_assoc, List.singleton_append]

theorem kept_foldl_join : (names.foldl Path.join directory).kept = directory.kept ++ names := by
  induction names generalizing directory with
  | nil => simp
  | cons name names ih =>
    obtain ⟨hname, hrest⟩ := List.forall_mem_cons.1 hnames
    rw [List.foldl_cons, ih hrest, Path.kept_join _ hname, List.append_assoc,
      List.singleton_append]

theorem isAbsolute_foldl_join :
    (names.foldl Path.join directory).isAbsolute = directory.isAbsolute := by
  induction names generalizing directory with
  | nil => rfl
  | cons name names ih =>
    obtain ⟨hname, hrest⟩ := List.forall_mem_cons.1 hnames
    rw [List.foldl_cons, ih hrest, Path.isAbsolute_join _ hname.ne_empty hname.notMem]

end Join

section StubPath

variable {anchor : Anchor} {extension : String} (h : HasPlainNames anchor extension)
  (outputDir : Path)

theorem stubPath_eq (outputDir : Path) (anchor : Anchor) (extension : String) :
    stubPath outputDir anchor extension =
      (packageSegments anchor.package ++ [stubFile anchor extension]).foldl Path.join
        outputDir := by
  rw [List.foldl_append]
  rfl

include h

theorem isEntryName_of_mem_stubPath {name : String}
    (hmem : name ∈ packageSegments anchor.package ++ [stubFile anchor extension]) :
    IsEntryName name := by
  rcases List.mem_append.1 hmem with hmem | hmem
  · exact isEntryName_of_mem_packageSegments h.package hmem
  · rw [List.mem_singleton.1 hmem]
    exact isEntryName_stubFile h

theorem segments_stubPath :
    (stubPath outputDir anchor extension).segments =
      outputDir.segments ++ packageSegments anchor.package ++ [stubFile anchor extension] := by
  rw [stubPath_eq, segments_foldl_join (fun _ => isEntryName_of_mem_stubPath h), List.append_assoc]

theorem kept_stubPath :
    (stubPath outputDir anchor extension).kept =
      outputDir.kept ++ packageSegments anchor.package ++ [stubFile anchor extension] := by
  rw [stubPath_eq, kept_foldl_join (fun _ => isEntryName_of_mem_stubPath h), List.append_assoc]

theorem isAbsolute_stubPath :
    (stubPath outputDir anchor extension).isAbsolute = outputDir.isAbsolute := by
  rw [stubPath_eq, isAbsolute_foldl_join fun _ => isEntryName_of_mem_stubPath h]

theorem endsWithSlash_stubPath :
    (stubPath outputDir anchor extension).endsWithSlash = false := by
  have hfile := isEntryName_stubFile h
  rw [stubPath_eq, List.foldl_append]
  exact Path.endsWithSlash_join _ hfile.ne_empty hfile.notMem

end StubPath

end RpcBinder
