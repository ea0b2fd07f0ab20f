import RpcBinder.Analysis.Basic
import RpcBinder.Proofs.Analysis.FileByFile
import RpcBinder.Proofs.Pattern.Captures

/-!
# The names of anchors

An anchor's class is named by word characters, and its package by the characters of a dotted
path, whatever the sources look like.  So neither of them leads into another directory, and the
name of the class ends where the first dot of a file name stands.

## Main definitions

* `partClass` — the characters of a named part.
* `HasWordName` — an anchor with names of these characters.

## Main results

* `isWord_of_mem_className`, `isPathPart_of_mem_package` — the characters of the names in one
  source.
* `hasWordName_of_analyze` — the characters of the names in an analysis.
-/

namespace RpcBinder

namespace Declaration

open Pattern

/-- The characters of a named part, as far as anchors depend on it. -/
def partClass : Part → Char → Bool
  | .name => isWord
  | .package => Shape.isPathPart
  | _ => fun _ => true

@[simp] theorem partClass_name : partClass .name = isWord := rfl

@[simp] theorem partClass_package : partClass .package = Shape.isPathPart := rfl

@[simp] theorem partClass_other {part : Part} (hname : part ≠ .name) (hpackage : part ≠ .package)
    (c : Char) : partClass part c = true := by
  unfold partClass
  split
  · exact absurd rfl hname
  · exact absurd rfl hpackage
  · rfl

/-- A pattern whose parts hold characters of their classes. -/
abbrev IsClassed (pattern : Pattern Part) : Prop :=
  pattern.Within (fun _ => true) fun part => some (partClass part)

theorem isClassed_package : IsClassed Shape.package := by
  simp [Shape.package, Shape.directiveEnd, Shape.tabs, Shape.tabs1, Shape.word]

@[simp] theorem isClassed_tags : IsClassed Shape.tags := by
  simp [Shape.tags, Shape.tag, Shape.spaces, Shape.word]

@[simp] theorem isClassed_modifiers (names : List String) : IsClassed (Shape.modifiers names) := by
  simp [Shape.modifiers, Shape.spaces1]

@[simp] theorem isClassed_anchorHead (name : String) : IsClassed (Shape.anchorHead name) := by
  simp [Shape.anchorHead, Shape.spaces, Shape.spaces1, Shape.word]

theorem isClassed_anchorShape (side : Side) : IsClassed (anchorShape side) := by
  cases side with
  | client => simp [anchorShape, Shape.clientAnchor, Shape.spaces, Shape.word]
  | server =>
    simp [anchorShape, Shape.serverAnchor, Shape.spaces, Shape.spaces1, Shape.word]

/-- An anchor's class is named by word characters. -/
theorem isWord_of_mem_className {resolver : Resolver} {side : Side} {source : List Char}
    {anchor : Anchor} (h : anchor ∈ anchorsOf resolver side source) :
    ∀ c ∈ anchor.className.toList, isWord c = true := by
  obtain ⟨found, hfound, rfl⟩ := List.mem_map.1 h
  rw [anchorAt, String.toList_ofList]
  exact (isClassed_anchorShape side).forall_mem_part (r := partClass .name) rfl hfound

theorem package_recordImport (scope : Scope) (path : String) (as? : Option String) :
    (scope.recordImport path as?).package = scope.package := by
  rw [Scope.recordImport]
  split
  · rfl
  · split
    · rfl
    · split <;> rfl

/-- A source's package is named by the characters of a dotted path. -/
theorem isPathPart_of_mem_package {source : List Char} :
    ∀ c ∈ (scopeOf source).package.toList, Shape.isPathPart c = true := by
  -- no import changes the package, so it is what the first match captures
  have hscope : (scopeOf source).package =
      String.ofList (((Shape.package.find? source).map (·.part .package)).getD []) := by
    unfold scopeOf
    refine List.foldlRecOn (motive := fun scope : Scope => scope.package = _) _ _ rfl ?_
    intro scope hpackage found _
    rw [package_recordImport, hpackage]
  rw [hscope, String.toList_ofList]
  cases hfound : Shape.package.find? source with
  | none => nofun
  | some found =>
    have hmem : found ∈ Shape.package.findAll source := List.mem_of_mem_head? hfound
    exact isClassed_package.forall_mem_part (r := partClass .package) rfl hmem

end Declaration

/-- An anchor is named by word characters, and its package by those of a dotted path. -/
structure HasWordName (anchor : Anchor) : Prop where
  /-- The class is a word. -/
  className : ∀ c ∈ anchor.className.toList, isWord c = true
  /-- The package is a dotted path. -/
  package : ∀ c ∈ anchor.package.toList, Declaration.Shape.isPathPart c = true

namespace Analysis

theorem hasWordName_of_mem_anchorsOf {side : Side} {index : TypeIndex} {units : List SourceUnit}
    {anchor : Anchor} (hscope : ∀ unit ∈ units, unit.scope = Declaration.scopeOf unit.text)
    (h : anchor ∈ anchorsOf side index units) : HasWordName anchor := by
  obtain ⟨unit, hunit, hanchor⟩ := List.mem_flatMap.1 h
  refine ⟨Declaration.isWord_of_mem_className hanchor, ?_⟩
  obtain ⟨found, -, rfl⟩ := List.mem_map.1 hanchor
  show ∀ c ∈ unit.scope.package.toList, _
  rw [hscope unit hunit]
  exact Declaration.isPathPart_of_mem_package

theorem hasWordName_of_analyzeSide {side : Side} {filter : PackageFilter} {index : TypeIndex}
    {set : Option SourceSet} {anchor : Anchor}
    (h : anchor ∈ (analyzeSide side filter index (set.map prepare)).1) : HasWordName anchor := by
  cases set with
  | none => cases h
  | some set =>
    refine hasWordName_of_mem_anchorsOf (fun unit hunit => ?_) (List.mem_filter.1 h).1
    obtain ⟨file, -, rfl⟩ := List.mem_map.1 hunit
    rfl

/-- The anchors of an analysis have names of these characters, whatever the sources look like. -/
theorem hasWordName_of_analyze {markers : Markers} {filter : PackageFilter}
    {sources : ProjectSources} {analysis : Analysis}
    (h : analyze markers filter sources = .ok analysis) {side : Side} {anchor : Anchor}
    (hmem : anchor ∈ analysis.anchors side) : HasWordName anchor := by
  rw [analyze_eq] at h
  obtain ⟨services, -, hrest⟩ := bind_eq_ok.1 h
  obtain rfl := Except.ok.inj hrest
  cases side with
  | client => exact hasWordName_of_analyzeSide hmem
  | server => exact hasWordName_of_analyzeSide hmem

end Analysis

end RpcBinder
