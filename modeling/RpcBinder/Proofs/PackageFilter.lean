import RpcBinder.PackageFilter
import RpcBinder.Proofs.Scope.Names
import RpcBinder.Stub.Basic

/-!
# Filters and segments

An entry of a filter is compared with a package as a text: the package is the entry's, or it goes
on behind it with a dot.  A dot ends a segment, so the comparison is one of segments, and names
that only begin alike are kept apart.  What a filter lets through depends on nothing but which
entries there are.

## Main definitions

* `FilterEntry` — an entry as it may be written, with `FilterEntry.text`.
* `IsPackage` — a package as it may be named.

## Main results

* `splitOn_prefix_splitOn_iff` — pieces that come first among others, as a statement on texts.
* `PackageFilter.covers_text_iff` — an entry covers the packages that begin with its segments.
* `PackageFilter.allows_iff_segments` — **a filter compares segments**, so what is excluded is
  excluded with everything below it, and a filter grows and shrinks with its entries.
-/

namespace RpcBinder

/-! ### Texts and their pieces -/

/-- The pieces of a text come first among those of another one exactly if the other text is the
same or goes on with a mark. -/
theorem splitOn_prefix_splitOn_iff {mark : Char} {s t : List Char} :
    s.splitOn mark <+: t.splitOn mark ↔ s = t ∨ (s ++ [mark]) <+: t := by
  constructor
  · rintro ⟨more, hmore⟩
    have hs : [mark].intercalate (s.splitOn mark) = s := List.intercalate_splitOn mark
    have ht : [mark].intercalate (t.splitOn mark) = t := List.intercalate_splitOn mark
    rw [← hmore] at ht
    -- either no pieces follow, or a mark stands in front of those that do
    cases more with
    | nil =>
      rw [List.append_nil, hs] at ht
      exact Or.inl ht
    | cons piece more =>
      rw [intercalate_append (List.splitOn_ne_nil mark s) (List.cons_ne_nil _ _), hs,
        ← List.append_assoc] at ht
      exact Or.inr ⟨_, ht⟩
  · rintro (rfl | ⟨rest, rfl⟩)
    · exact List.prefix_refl _
    · rw [List.append_assoc, List.singleton_append, List.splitOn_append_cons_self]
      exact List.prefix_append _ _

/-! ### Packages -/

/-- A package as it may be named: the default one, or a path of simple names. -/
def IsPackage (package : String) : Prop := package = "" ∨ IsDottedPath package

instance (package : String) : Decidable (IsPackage package) :=
  inferInstanceAs (Decidable (package = "" ∨ IsDottedPath package))

/-- The segments of a path are its pieces, none of which is empty. -/
theorem IsDottedPath.packageSegments_eq {path : String} (h : IsDottedPath path) :
    packageSegments path = (path.toList.splitOn '.').map String.ofList := by
  have hall : (path.toList.splitOn '.').filter (!·.isEmpty) = path.toList.splitOn '.' :=
    List.filter_eq_self.2 fun piece hpiece => by simpa using (h piece hpiece).ne_nil
  rw [packageSegments, hall]

theorem packageSegments_empty : packageSegments "" = [] := rfl

theorem prefix_map_ofList_iff {pieces others : List (List Char)} :
    pieces.map String.ofList <+: others.map String.ofList ↔ pieces <+: others :=
  List.prefix_map_iff_of_injective fun _ _ => String.ofList_inj.1

/-! ### Entries -/

/-- An entry of a filter as it may be written. -/
structure FilterEntry where
  /-- The white space in front of it. -/
  before : List Char
  /-- The package that it names. -/
  package : String
  /-- How many wildcards stand behind the package. -/
  wildcards : Nat
  /-- The white space behind it. -/
  behind : List Char

namespace FilterEntry

/-- The package of an entry with its wildcards. -/
def core (entry : FilterEntry) : List Char :=
  entry.package.toList ++ (List.replicate entry.wildcards ".*".toList).flatten

/-- The text of an entry. -/
def text (entry : FilterEntry) : String :=
  String.ofList (entry.before ++ entry.core ++ entry.behind)

/-- The segments that an entry covers. -/
def segments (entry : FilterEntry) : List String := packageSegments entry.package

/-- An entry names a package. -/
structure IsWellFormed (entry : FilterEntry) : Prop where
  before : isBlank entry.before = true
  package : IsDottedPath entry.package
  behind : isBlank entry.behind = true

instance (entry : FilterEntry) : Decidable entry.IsWellFormed :=
  decidable_of_iff (isBlank entry.before = true ∧ IsDottedPath entry.package ∧
      isBlank entry.behind = true)
    ⟨fun ⟨h1, h2, h3⟩ => ⟨h1, h2, h3⟩, fun ⟨h1, h2, h3⟩ => ⟨h1, h2, h3⟩⟩

variable {entry : FilterEntry}

theorem isSpace_of_mem_core (h : entry.IsWellFormed) : ∀ c ∈ entry.core, isSpace c = false := by
  intro c hc
  rcases List.mem_append.1 hc with hc | hc
  · exact isSpace_of_isTypeNameChar (h.package.isTypeName.forall_char c hc)
  · obtain ⟨piece, hpiece, hc⟩ := List.mem_flatten.1 hc
    rw [List.eq_of_mem_replicate hpiece] at hc
    have hall : ".*".toList.all (!isSpace ·) = true := by decide
    simpa using List.all_eq_true.1 hall c hc

theorem trim_text (h : entry.IsWellFormed) : trim entry.text.toList = entry.core := by
  have hne : entry.core ≠ [] := by simp [core, h.package.isTypeName.ne_nil]
  rw [text, String.toList_ofList]
  exact trim_of_isPadded ⟨_, _, h.before, h.behind, rfl⟩
    (isSolid_of_forall hne (isSpace_of_mem_core h))

end FilterEntry

namespace PackageFilter

open FilterEntry

theorem dropWildcards_append (wildcards : Nat) {reversed : List Char}
    (h : reversed.head? ≠ some '*') :
    dropWildcards ((List.replicate wildcards ['*', '.']).flatten ++ reversed) = reversed := by
  induction wildcards with
  | zero =>
    rw [List.replicate_zero, List.flatten_nil, List.nil_append]
    unfold dropWildcards
    split
    · exact absurd rfl h
    · rfl
  | succ wildcards ih =>
    rw [List.replicate_succ, List.flatten_cons, List.append_assoc]
    exact ih

/-- An entry names its package. -/
theorem entryPackage_text {entry : FilterEntry} (h : entry.IsWellFormed) :
    entryPackage entry.text = entry.package.toList := by
  have hstar : '*' ∉ entry.package.toList := h.package.isTypeName.notMem (by decide)
  have hhead : entry.package.toList.reverse.head? ≠ some '*' := by
    rw [List.head?_reverse]
    exact fun hlast => hstar (List.mem_of_getLast? hlast)
  have hreverse : entry.core.reverse =
      (List.replicate entry.wildcards ['*', '.']).flatten ++ entry.package.toList.reverse := by
    rw [core, List.reverse_append, List.reverse_flatten, List.map_replicate,
      List.reverse_replicate]
    rfl
  rw [entryPackage, trim_text h, hreverse, dropWildcards_append _ hhead, List.reverse_reverse]

/-- **An entry covers the packages that begin with its segments.** -/
theorem covers_text_iff {entry : FilterEntry} (h : entry.IsWellFormed) {package : String}
    (hpackage : IsPackage package) :
    covers entry.text package = true ↔ entry.segments <+: packageSegments package := by
  have hcovers : covers entry.text package = true ↔ entry.package.toList = package.toList ∨
      entry.package.toList ++ ['.'] <+: package.toList := by
    rw [covers, entryPackage_text h, Bool.or_eq_true, beq_iff_eq, List.isPrefixOf_iff_prefix]
  rw [hcovers, segments, h.package.packageSegments_eq]
  rcases hpackage with rfl | hpackage
  · -- the default package has no segments, and no entry names it
    have hne := h.package.isTypeName.ne_nil
    rw [packageSegments_empty]
    simp [hne, List.splitOn_ne_nil]
  · rw [hpackage.packageSegments_eq, prefix_map_ofList_iff, splitOn_prefix_splitOn_iff]

/-! ### Filters -/

variable {included excluded : List String} {package : String}

theorem allows_iff : allows ⟨included, excluded⟩ package = true ↔
    (∀ entry ∈ excluded, ¬ covers entry package = true) ∧
      (included = [] ∨ ∃ entry ∈ included, covers entry package = true) := by
  simp [allows]

/-- More excluded entries let nothing more through. -/
theorem allows_of_excluded_subset {more : List String} (hsub : excluded ⊆ more)
    (h : allows ⟨included, more⟩ package = true) : allows ⟨included, excluded⟩ package = true := by
  rw [allows_iff] at h ⊢
  exact ⟨fun entry hentry => h.1 entry (hsub hentry), h.2⟩

/-- More included entries than some let everything through that these do. -/
theorem allows_of_included_subset {more : List String} (hne : included ≠ [])
    (hsub : included ⊆ more) (h : allows ⟨included, excluded⟩ package = true) :
    allows ⟨more, excluded⟩ package = true := by
  rw [allows_iff] at h ⊢
  obtain ⟨entry, hentry, hcovers⟩ := h.2.resolve_left hne
  exact ⟨h.1, Or.inr ⟨entry, hsub hentry, hcovers⟩⟩

/-- A filter depends on which entries there are, and on nothing else of its lists. -/
theorem allows_congr {included' excluded' : List String}
    (hincluded : ∀ entry, entry ∈ included' ↔ entry ∈ included)
    (hexcluded : ∀ entry, entry ∈ excluded' ↔ entry ∈ excluded) :
    allows ⟨included', excluded'⟩ package = allows ⟨included, excluded⟩ package := by
  have hnil : included' = [] ↔ included = [] := by
    rw [List.eq_nil_iff_forall_not_mem, List.eq_nil_iff_forall_not_mem]
    exact forall_congr' fun entry => not_congr (hincluded entry)
  rw [Bool.eq_iff_iff, allows_iff, allows_iff, hnil]
  simp only [hincluded, hexcluded]

theorem exists_covers_map_iff {entries : List FilterEntry}
    (h : ∀ entry ∈ entries, entry.IsWellFormed) (hpackage : IsPackage package) :
    (∃ entry ∈ entries.map FilterEntry.text, covers entry package = true) ↔
      ∃ entry ∈ entries, entry.segments <+: packageSegments package := by
  constructor
  · rintro ⟨text, hmem, hcovers⟩
    obtain ⟨entry, hentry, rfl⟩ := List.mem_map.1 hmem
    exact ⟨entry, hentry, (covers_text_iff (h entry hentry) hpackage).1 hcovers⟩
  · rintro ⟨entry, hentry, hsegments⟩
    exact ⟨entry.text, List.mem_map_of_mem hentry,
      (covers_text_iff (h entry hentry) hpackage).2 hsegments⟩

/-- A filter of entries that name packages, by the segments of these. -/
theorem allows_map_text_iff {included excluded : List FilterEntry}
    (hincluded : ∀ entry ∈ included, entry.IsWellFormed)
    (hexcluded : ∀ entry ∈ excluded, entry.IsWellFormed) (hpackage : IsPackage package) :
    allows ⟨included.map FilterEntry.text, excluded.map FilterEntry.text⟩ package = true ↔
      (∀ entry ∈ excluded, ¬ entry.segments <+: packageSegments package) ∧
        (included = [] ∨ ∃ entry ∈ included, entry.segments <+: packageSegments package) := by
  have hnone : (∀ entry ∈ excluded.map FilterEntry.text, ¬ covers entry package = true) ↔
      ∀ entry ∈ excluded, ¬ entry.segments <+: packageSegments package := by
    simpa only [not_exists, not_and] using
      not_congr (exists_covers_map_iff hexcluded hpackage)
  rw [allows_iff, hnone, exists_covers_map_iff hincluded hpackage, List.map_eq_nil_iff]

/-- **A filter compares segments.**  It lets a package through if the segments of no excluded entry
come first among those of the package, and those of some included one do unless there is none.  So
what is excluded is excluded with everything below it, more excluded entries let less through and
more included ones than some let more through, and neither the order of the entries nor a
repetition matters. -/
theorem allows_iff_segments {included excluded : List FilterEntry}
    (hincluded : ∀ entry ∈ included, entry.IsWellFormed)
    (hexcluded : ∀ entry ∈ excluded, entry.IsWellFormed) (hpackage : IsPackage package) :
    let filter : PackageFilter :=
      ⟨included.map FilterEntry.text, excluded.map FilterEntry.text⟩
    (filter.allows package = true ↔
      (∀ entry ∈ excluded, ¬ entry.segments <+: packageSegments package) ∧
        (included = [] ∨ ∃ entry ∈ included, entry.segments <+: packageSegments package)) ∧
    (∀ entry ∈ excluded, entry.segments <+: packageSegments package →
      ∀ below, IsPackage below → packageSegments package <+: packageSegments below →
        filter.allows below = false) ∧
    (∀ more, filter.excluded ⊆ more → allows ⟨filter.included, more⟩ package = true →
      filter.allows package = true) ∧
    (included ≠ [] → ∀ more, filter.included ⊆ more → filter.allows package = true →
      allows ⟨more, filter.excluded⟩ package = true) ∧
    (∀ included' excluded', (∀ entry, entry ∈ included' ↔ entry ∈ filter.included) →
      (∀ entry, entry ∈ excluded' ↔ entry ∈ filter.excluded) →
        allows ⟨included', excluded'⟩ package = filter.allows package) := by
  intro filter
  refine ⟨allows_map_text_iff hincluded hexcluded hpackage, ?_, ?_, ?_, ?_⟩
  · intro entry hentry hsegments below hbelow hfront
    rw [Bool.eq_false_iff]
    intro hallows
    exact ((allows_map_text_iff hincluded hexcluded hbelow).1 hallows).1 entry hentry
      (hsegments.trans hfront)
  · exact fun more hsub hallows => allows_of_excluded_subset hsub hallows
  · intro hne more hsub hallows
    have hne : filter.included ≠ [] := fun hnil => hne (List.map_eq_nil_iff.1 hnil)
    exact allows_of_included_subset hne hsub hallows
  · exact fun included' excluded' hincluded hexcluded => allows_congr hincluded hexcluded

/-- An entry with a wildcard and white space around it, a package that begins like it, and one
below an excluded one. -/
theorem allows_iff_segments_example :
    let included : List FilterEntry := [⟨[' '], "com.x", 1, ['\t']⟩]
    let excluded : List FilterEntry := [⟨[], "com.x.internal", 0, []⟩]
    let filter : PackageFilter := ⟨[" com.x.*\t"], ["com.x.internal"]⟩
    ((∀ entry ∈ included, entry.IsWellFormed) ∧ (∀ entry ∈ excluded, entry.IsWellFormed) ∧
      ∀ package ∈ ["com.x.internals", "com.xy", "com.x.internal"], IsPackage package) ∧
    filter.allows "com.x.internals" = true ∧ filter.allows "com.xy" = false ∧
      filter.allows "com.x.internal.db" = false := by
  intro included excluded filter
  have hincluded : ∀ entry ∈ included, entry.IsWellFormed := by decide
  have hexcluded : ∀ entry ∈ excluded, entry.IsWellFormed := by decide
  have hpackages : ∀ package ∈ ["com.x.internals", "com.xy", "com.x.internal"],
      IsPackage package := by decide
  have hsegments (package : String)
      (hmem : package ∈ ["com.x.internals", "com.xy", "com.x.internal"]) :=
    allows_iff_segments hincluded hexcluded (hpackages package hmem)
  refine ⟨⟨hincluded, hexcluded, hpackages⟩, ?_, ?_, ?_⟩
  · exact (hsegments "com.x.internals" (by decide)).1.2 ⟨by decide, Or.inr (by decide)⟩
  · rw [Bool.eq_false_iff]
    intro hallows
    obtain ⟨-, hsome⟩ := (hsegments "com.xy" (by decide)).1.1 hallows
    exact absurd hsome (by decide)
  · exact (hsegments "com.x.internal" (by decide)).2.1 _ List.mem_cons_self (by decide)
      "com.x.internal.db" (by decide) (by decide)

end PackageFilter

end RpcBinder
