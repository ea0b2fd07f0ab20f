import RpcBinder.Proofs.Stub.Distinct

/-!
# The layout of an output directory

The path of a stub goes on, behind the output directory, with a directory for each segment of the
package that is something and with the file.  The names of these come from patterns, which let no
slash into them and no dot into a segment, so nothing of a path leads out of the output directory
again.  A file has a dot in its name and a directory has none, so no file stands where a directory
has to be.

## Main definitions

* `IsExtracted` — an anchor that is found in some source.

## Main results

* `components_stubPath` — the components of a stub's path.
* `eq_of_concat_front` — a list whose last member is nowhere else in the way is no front of
  another one.
* `stubPath_layout` — **stubs lie in the output directory, each in a place of its own, and none in
  the way of another.**
-/

namespace RpcBinder

open Declaration

/-! ### Anchors of sources -/

/-- The anchor is found in a source, of either side, with the scope of a source and any index. -/
def IsExtracted (anchor : Anchor) : Prop :=
  ∃ index side context source, anchor ∈ anchorsOf ⟨scopeOf context, index⟩ side source

theorem IsExtracted.hasWordName {anchor : Anchor} (h : IsExtracted anchor) :
    HasWordName anchor := by
  obtain ⟨index, side, context, source, hmem⟩ := h
  refine ⟨isWord_of_mem_className hmem, ?_⟩
  obtain ⟨found, -, rfl⟩ := List.mem_map.1 hmem
  exact isPathPart_of_mem_package

/-! ### Components -/

theorem Path.componentOf_of_isEntryName {name : String} (h : IsEntryName name) :
    componentOf name = .named name := by
  rw [componentOf, if_neg (by simpa using h.ne_dot), if_neg (by simpa using h.ne_parent)]

/-- Behind the components of the output directory stand the segments of the package and the file,
each of them a name. -/
theorem components_stubPath {anchor : Anchor} {extension : String}
    (h : HasPlainNames anchor extension) (outputDir : Path) :
    (stubPath outputDir anchor extension).components = outputDir.components ++
      (packageSegments anchor.package ++ [stubFile anchor extension]).map .named := by
  have hnames : (packageSegments anchor.package ++ [stubFile anchor extension]).map
      Path.componentOf =
        (packageSegments anchor.package ++ [stubFile anchor extension]).map .named :=
    List.map_congr_left fun name hname =>
      Path.componentOf_of_isEntryName (isEntryName_of_mem_stubPath h hname)
  rw [Path.components_eq, isAbsolute_stubPath h, kept_stubPath h, List.append_assoc,
    List.map_append, hnames, ← List.append_assoc, ← Path.components_eq]

theorem map_named_prefix_iff {names others : List String} :
    names.map Path.Component.named <+: others.map .named ↔ names <+: others :=
  List.prefix_map_iff_of_injective fun _ _ => Path.Component.named.inj

/-- A list is no front of another one that does not have its last member before the end. -/
theorem eq_of_concat_front {α : Type} {xs ys : List α} {x y : α} (hx : x ∉ ys)
    (h : xs ++ [x] <+: ys ++ [y]) : xs ++ [x] = ys ++ [y] := by
  rcases List.prefix_concat_iff.1 h with heq | hfront
  · exact heq
  · exact absurd (hfront.subset (List.mem_append_right xs (List.mem_singleton_self x))) hx

section Layout

variable {first second : Anchor} {extension : String}

/-- The file of a stub is no directory of another one. -/
theorem components_eq_of_front (hfirst : HasPlainNames first extension)
    (hsecond : HasPlainNames second extension) {outputDir : Path}
    (h : (stubPath outputDir first extension).components <+:
      (stubPath outputDir second extension).components) :
    (stubPath outputDir first extension).components =
      (stubPath outputDir second extension).components := by
  rw [components_stubPath hfirst, components_stubPath hsecond, List.prefix_append_right_inj,
    map_named_prefix_iff] at h
  have hfile := stubFile_notMem_packageSegments first second.package extension
  rw [components_stubPath hfirst, components_stubPath hsecond, eq_of_concat_front hfile h]

/-- Components are told apart by the segments of the package and the class. -/
theorem components_stubPath_eq_iff (hfirst : HasWordName first) (hsecond : HasWordName second)
    (hextension : '/' ∉ extension.toList) (outputDir : Path) :
    (stubPath outputDir first extension).components =
        (stubPath outputDir second extension).components ↔
      packageSegments first.package = packageSegments second.package ∧
        first.className = second.className := by
  have hinjective : Function.Injective (List.map Path.Component.named) :=
    List.map_injective_iff.2 fun _ _ => Path.Component.named.inj
  rw [components_stubPath (hasPlainNames_of_hasWordName hfirst hextension),
    components_stubPath (hasPlainNames_of_hasWordName hsecond hextension),
    List.append_cancel_left_eq, hinjective.eq_iff, List.append_singleton_inj,
    stubFile_eq_iff hfirst hsecond, and_iff_left rfl]

/-- **Stubs lie in the output directory, each in a place of its own, and none in the way of
another.**  The path of a stub has the components of the output directory, one for each segment of
the package that is something, and one for the file.  Two paths are the same, by their components
or as they are written, if and only if these segments and the classes are.  The components of none
are a front of those of the other and not all of them, so no stub stands where another one needs a
directory. -/
theorem stubPath_layout (hfirst : IsExtracted first) (hsecond : IsExtracted second)
    (hextension : '/' ∉ extension.toList) (outputDir : Path) :
    let path (anchor : Anchor) := stubPath outputDir anchor extension
    let segments (anchor : Anchor) := packageSegments anchor.package
    (path first).components = outputDir.components ++
        ((segments first).map .named ++ [.named (stubFile first extension)]) ∧
    ((path first).components = (path second).components ↔
      segments first = segments second ∧ first.className = second.className) ∧
    (path first = path second ↔
      segments first = segments second ∧ first.className = second.className) ∧
    ((path first).components <+: (path second).components →
      (path first).components = (path second).components) ∧
    ((path second).components <+: (path first).components →
      (path second).components = (path first).components) ∧
    ∀ around ∈ (path second).ancestors.tail, around.components ≠ (path first).components := by
  intro path segments
  have hword := hfirst.hasWordName
  have hword' := hsecond.hasWordName
  have hplain := hasPlainNames_of_hasWordName hword hextension
  have hplain' := hasPlainNames_of_hasWordName hword' hextension
  refine ⟨?_, components_stubPath_eq_iff hword hword' hextension outputDir, ?_,
    components_eq_of_front hplain hplain', components_eq_of_front hplain' hplain, ?_⟩
  · have hcomponents := components_stubPath hplain outputDir
    rwa [List.map_append, List.map_singleton] at hcomponents
  · rw [stubPath_eq_iff hword hword' hextension hextension, stubKey, stubKey, Prod.mk.injEq,
      Prod.mk.injEq, and_iff_left rfl]
  · -- a path around the second one is shorter, so it is not the first one, which would be as long
    intro around hmem heq
    obtain ⟨hfront, hlength⟩ := Path.components_of_mem_ancestors hmem
    rw [heq] at hfront hlength
    rw [components_eq_of_front hplain hplain' hfront] at hlength
    exact Nat.lt_irrefl _ hlength

/-- Packages with empty segments, of which only the others count. -/
theorem stubPath_layout_example :
    let client := "package a..b\n@RpcClient abstract class C:A".toList
    let server := "package .a.b.CImpl\n@RpcServer abstract class C(impl:A)".toList
    let first : Anchor := ⟨"a..b", "C", "A", none, true⟩
    let second : Anchor := ⟨".a.b.CImpl", "C", "A", none, true⟩
    (first ∈ anchorsOf ⟨scopeOf client, .empty⟩ .client client ∧
      second ∈ anchorsOf ⟨scopeOf server, .empty⟩ .server server ∧
        '/' ∉ "kt".toList) ∧
      (stubPath ⟨"out/."⟩ first "kt").components =
        [.named "out", .named "a", .named "b", .named "CImpl.kt"] ∧
      stubPath ⟨"out/."⟩ first "kt" ≠ stubPath ⟨"out/."⟩ second "kt" := by
  intro client server first second
  have hfirst : first ∈ anchorsOf ⟨scopeOf client, .empty⟩ .client client := by decide +kernel
  have hsecond : second ∈ anchorsOf ⟨scopeOf server, .empty⟩ .server server := by decide +kernel
  have hextension : '/' ∉ "kt".toList := by decide
  obtain ⟨hcomponents, -, hpaths, -⟩ :=
    stubPath_layout ⟨_, _, _, _, hfirst⟩ ⟨_, _, _, _, hsecond⟩ hextension ⟨"out/."⟩
  refine ⟨⟨hfirst, hsecond, hextension⟩, hcomponents.trans (by decide +kernel), ?_⟩
  rw [ne_eq, hpaths]
  decide +kernel

end Layout

end RpcBinder
