import Mathlib.Data.List.Basic
import Mathlib.Data.List.Infix
import RpcBinder.Path
import RpcBinder.Text.Bytes

/-!
# Paths and their segments

A path is cut at its slashes.  To join a name to a path adds a segment at the end, and the path
around a joined path is written with the segments that count: inner dots say nothing.

## Main definitions

* `IsEntryName` — the name of something within a directory.
* `Path.kept` — the segments of a path without inner dots.
* `Path.ofSegments` — the path of a list of segments, written with single slashes.

## Main results

* `Path.segments_join`, `Path.kept_join` — a joined name is one more segment.
* `Path.parent?_of_kept` — the path around a path whose last segment is a name.
* `Path.ancestors_eq`, `Path.ancestors_ofSegments` — the paths around a path.
* `Path.ofSegments_sublist` — a path of fewer segments has a shorter text.
-/

namespace RpcBinder

/-- A name that a directory can hold something under. -/
structure IsEntryName (name : String) : Prop where
  /-- It says something. -/
  ne_empty : name ≠ ""
  /-- It is a single segment. -/
  notMem : '/' ∉ name.toList
  /-- It is not the directory itself. -/
  ne_dot : name ≠ "."
  /-- It is not the directory around. -/
  ne_parent : name ≠ ".."

namespace Path

/-! ### Texts and segments -/

/-- What stands between the slashes of a text. -/
def segmentsOf (text : List Char) : List String :=
  ((text.splitOn '/').filter (!·.isEmpty)).map String.ofList

theorem segmentsOf_append_slash (first second : List Char) :
    segmentsOf (first ++ '/' :: second) = segmentsOf first ++ segmentsOf second := by
  rw [segmentsOf, List.splitOn_append_cons_self, List.filter_append, List.map_append]
  rfl

theorem segmentsOf_name {name : String} (hne : name ≠ "") (h : '/' ∉ name.toList) :
    segmentsOf name.toList = [name] := by
  rw [segmentsOf, List.splitOn_eq_singleton h, List.filter_cons_of_pos (by simpa using hne)]
  simp

/-- Names with slashes between them are the segments of their text. -/
theorem segmentsOf_intercalate {names : List String}
    (h : ∀ name ∈ names, name ≠ "" ∧ '/' ∉ name.toList) :
    segmentsOf (['/'].intercalate (names.map String.toList)) = names := by
  induction names with
  | nil => rfl
  | cons name names ih =>
    obtain ⟨hname, hnames⟩ := List.forall_mem_cons.1 h
    cases names with
    | nil => simpa using segmentsOf_name hname.1 hname.2
    | cons other names =>
      rw [List.map_cons, List.map_cons, List.intercalate_cons_cons, List.append_assoc,
        List.singleton_append, segmentsOf_append_slash, segmentsOf_name hname.1 hname.2,
        ← List.map_cons, ih hnames]
      rfl

theorem notMem_of_mem_splitOn {text piece : List Char} {mark : Char}
    (h : piece ∈ text.splitOn mark) : mark ∉ piece := by
  induction text generalizing piece with
  | nil =>
    rw [List.splitOn_nil, List.mem_singleton] at h
    simp [h]
  | cons c text ih =>
    rw [List.splitOn_cons_eq_if_modifyHead] at h
    split at h
    · rcases List.mem_cons.1 h with rfl | h
      · exact List.not_mem_nil
      · exact ih h
    · next hc =>
      cases hpieces : text.splitOn mark with
      | nil => exact absurd hpieces (List.splitOn_ne_nil mark text)
      | cons first rest =>
        rw [hpieces, List.modifyHead_cons] at h
        rcases List.mem_cons.1 h with rfl | h
        · have hfirst : mark ∉ first := ih (hpieces ▸ List.mem_cons_self)
          have hmark : mark ≠ c := fun heq => hc (by simp [heq])
          simp [hmark, hfirst]
        · exact ih (hpieces ▸ List.mem_cons_of_mem _ h)

theorem sublist_intercalate_cons (mark : Char) (piece : List Char) (pieces : List (List Char)) :
    ([mark].intercalate pieces).Sublist ([mark].intercalate (piece :: pieces)) := by
  cases pieces with
  | nil => exact List.nil_sublist _
  | cons other pieces =>
    rw [List.intercalate_cons_cons]
    exact List.sublist_append_right _ _

theorem intercalate_sublist {pieces others : List (List Char)} (h : pieces.Sublist others)
    (mark : Char) : ([mark].intercalate pieces).Sublist ([mark].intercalate others) := by
  induction h with
  | slnil => exact List.Sublist.refl _
  | cons piece _ ih => exact ih.trans (sublist_intercalate_cons mark piece _)
  | @cons_cons pieces others piece hrest ih =>
    cases pieces with
    | nil =>
      cases others with
      | nil => exact List.Sublist.refl _
      | cons other others =>
        rw [List.intercalate_singleton, List.intercalate_cons_cons, List.append_assoc]
        exact List.sublist_append_left _ _
    | cons second pieces =>
      cases others with
      | nil => cases hrest
      | cons other others =>
        rw [List.intercalate_cons_cons, List.intercalate_cons_cons]
        exact ih.append_left _

theorem sublist_of_mem_splitOn {text piece : List Char} {mark : Char}
    (h : piece ∈ text.splitOn mark) : piece.Sublist text := by
  have hsublist := intercalate_sublist (List.singleton_sublist.2 h) mark
  rwa [List.intercalate_singleton, List.intercalate_splitOn] at hsublist

theorem mem_segments {path : Path} {segment : String} (h : segment ∈ path.segments) :
    segment ≠ "" ∧ '/' ∉ segment.toList := by
  obtain ⟨piece, hpiece, rfl⟩ := List.mem_map.1 h
  obtain ⟨hmem, hne⟩ := List.mem_filter.1 hpiece
  rw [String.toList_ofList]
  exact ⟨by simpa using hne, notMem_of_mem_splitOn hmem⟩

/-- A joined name is one more segment. -/
theorem segments_join (directory : Path) {name : String} (hne : name ≠ "")
    (h : '/' ∉ name.toList) : (directory.join name).segments = directory.segments ++ [name] := by
  have hname := segmentsOf_name hne h
  have hhead : (name.toList.head? == some '/') = false := by
    rw [beq_eq_false_iff_ne]
    exact fun heq => h (List.mem_of_head? heq)
  show segmentsOf (directory.join name).text.toList = segmentsOf directory.text.toList ++ [name]
  unfold join
  rw [if_neg (by simp [hhead])]
  split
  · next hdirectory =>
    -- an empty directory, or one that ends in a slash, is put in front as it is
    rcases Bool.or_eq_true_iff.1 hdirectory with hempty | hslash
    · have hnil : directory.text = "" := String.isEmpty_iff.1 hempty
      simpa [hnil, segmentsOf] using hname
    · have hlast : directory.text.toList.getLast? = some '/' := by
        simpa [endsWithSlash] using hslash
      obtain ⟨front, hfront⟩ := List.getLast?_eq_some_iff.1 hlast
      rw [String.toList_append, hfront, List.append_assoc, List.singleton_append,
        segmentsOf_append_slash, segmentsOf_append_slash, hname]
      simp [segmentsOf]
  · -- otherwise a slash is put between the two
    have hslash : "/".toList = ['/'] := rfl
    rw [String.toList_append, String.toList_append, hslash, List.append_assoc,
      List.singleton_append, segmentsOf_append_slash, hname]

theorem isAbsolute_join (directory : Path) {name : String} (hne : name ≠ "")
    (h : '/' ∉ name.toList) : (directory.join name).isAbsolute = directory.isAbsolute := by
  have hhead : (name.toList.head? == some '/') = false := by
    rw [beq_eq_false_iff_ne]
    exact fun heq => h (List.mem_of_head? heq)
  have hsome : name.toList ≠ [] := by simpa using hne
  unfold join
  rw [if_neg (by simp [hhead])]
  unfold isAbsolute
  cases hdirectory : directory.text.toList with
  | nil =>
    have hnil : directory.text = "" := by simpa using hdirectory
    simp [hnil, hhead]
  | cons c rest =>
    split <;> simp [hdirectory]

theorem endsWithSlash_join (directory : Path) {name : String} (hne : name ≠ "")
    (h : '/' ∉ name.toList) : (directory.join name).endsWithSlash = false := by
  have hhead : (name.toList.head? == some '/') = false := by
    rw [beq_eq_false_iff_ne]
    exact fun heq => h (List.mem_of_head? heq)
  have hsome : name.toList ≠ [] := by simpa using hne
  have hlast : name.toList.getLast? ≠ some '/' := fun heq => h (List.mem_of_getLast? heq)
  unfold join
  rw [if_neg (by simp [hhead])]
  unfold endsWithSlash
  split <;>
  · rw [beq_eq_false_iff_ne, String.toList_append, List.getLast?_append_of_ne_nil _ hsome]
    exact hlast

/-! ### Segments that count -/

/-- The segments of a path without inner dots.  A dot at the start of a path stays. -/
def kept (path : Path) : List String :=
  if path.isAbsolute then path.segments.filter (· != ".")
  else
    match path.segments with
    | [] => []
    | first :: rest => first :: rest.filter (· != ".")

theorem kept_sublist (path : Path) : path.kept.Sublist path.segments := by
  unfold kept
  split
  · exact List.filter_sublist
  · cases path.segments with
    | nil => exact List.Sublist.refl _
    | cons first rest => exact List.filter_sublist.cons_cons first

/-- The component that a segment stands for. -/
def componentOf (segment : String) : Component :=
  if segment == "." then .current
  else if segment == ".." then .parent
  else .named segment

theorem text_componentOf (segment : String) : (componentOf segment).text = segment := by
  unfold componentOf
  split
  · next h => exact (eq_of_beq h).symm
  · split
    · next h => exact (eq_of_beq h).symm
    · rfl

theorem componentOf?_eq {segment : String} (h : segment ≠ ".") :
    componentOf? segment = some (componentOf segment) := by
  have hdot : (segment == ".") = false := by simpa using h
  unfold componentOf? componentOf
  rw [hdot]
  cases segment == ".." <;> rfl

theorem filterMap_componentOf? (segments : List String) :
    segments.filterMap componentOf? = (segments.filter (· != ".")).map componentOf := by
  induction segments with
  | nil => rfl
  | cons segment segments ih =>
    by_cases h : segment = "."
    · subst h
      exact ih
    · have hkept : (segment != ".") = true := by simpa using h
      rw [List.filterMap_cons_some (componentOf?_eq h), ih,
        List.filter_cons_of_pos (p := (· != ".")) hkept, List.map_cons]

/-- The components of a path are its segments that count, behind the root. -/
theorem components_eq (path : Path) :
    path.components = (if path.isAbsolute then [.root] else []) ++ path.kept.map componentOf := by
  simp only [components, kept, filterMap_componentOf?]
  split
  · rfl
  · -- of a relative path a dot in front is kept
    cases path.segments with
    | nil => rfl
    | cons first rest =>
      by_cases h : first = "."
      · subst h
        rfl
      · have hhead : (some first == some ".") = false := by simpa using h
        have hkept : (first != ".") = true := by simpa using h
        rw [List.head?_cons, hhead, List.filter_cons_of_pos (p := (· != ".")) hkept]
        rfl

/-- A joined name is one more segment that counts. -/
theorem kept_join (directory : Path) {name : String} (h : IsEntryName name) :
    (directory.join name).kept = directory.kept ++ [name] := by
  have hdot : (name != ".") = true := by simpa using h.ne_dot
  unfold kept
  rw [isAbsolute_join directory h.ne_empty h.notMem, segments_join directory h.ne_empty h.notMem]
  split
  · simp [hdot]
  · cases directory.segments with
    | nil => rfl
    | cons first rest => simp [hdot]

/-! ### Paths made of segments -/

/-- The path of a list of segments. -/
def ofSegments (absolute : Bool) (segments : List String) : Path :=
  ⟨String.ofList ((if absolute then ['/'] else []) ++
    ['/'].intercalate (segments.map String.toList))⟩

/-- Segments that the path made of them keeps: inner dots are none. -/
structure IsKept (absolute : Bool) (segments : List String) : Prop where
  /-- They are segments. -/
  segment : ∀ segment ∈ segments, segment ≠ "" ∧ '/' ∉ segment.toList
  /-- There are no inner dots. -/
  ne_dot : ∀ segment ∈ segments.drop (if absolute then 0 else 1), segment ≠ "."

theorem IsKept.of_front {absolute : Bool} {segments around : List String}
    (h : IsKept absolute segments) (hfront : around <+: segments) : IsKept absolute around :=
  ⟨fun segment hmem => h.segment segment (hfront.subset hmem),
    fun segment hmem => h.ne_dot segment ((hfront.drop _).subset hmem)⟩

theorem isKept_kept (path : Path) : IsKept path.isAbsolute path.kept := by
  unfold kept
  split
  · next habsolute =>
    refine ⟨fun segment hmem => mem_segments (List.mem_of_mem_filter hmem), ?_⟩
    intro segment hmem
    rw [habsolute] at hmem
    simpa using (List.mem_filter.1 hmem).2
  · next hrelative =>
    cases hsegments : path.segments with
    | nil => exact ⟨by simp, by simp⟩
    | cons first rest =>
      have hall (segment : String) (hmem : segment ∈ first :: rest) :=
        mem_segments (hsegments ▸ hmem : segment ∈ path.segments)
      refine ⟨fun segment hmem => hall segment ?_, ?_⟩
      · rcases List.mem_cons.1 hmem with rfl | hmem
        · exact List.mem_cons_self
        · exact List.mem_cons_of_mem _ (List.mem_of_mem_filter hmem)
      · intro segment hmem
        rw [if_neg hrelative] at hmem
        simpa using (List.mem_filter.1 hmem).2

theorem componentOf_ne_root (segment : String) : componentOf segment ≠ .root := by
  unfold componentOf
  split
  · exact nofun
  · split <;> exact nofun

theorem ofComponents_eq (absolute : Bool) (segments : List String) :
    ofComponents ((if absolute then [.root] else []) ++ segments.map componentOf) =
      ofSegments absolute segments := by
  have htexts : (segments.map componentOf).map Component.text = segments := by
    rw [List.map_map]
    exact (List.map_congr_left fun segment _ => text_componentOf segment).trans (List.map_id _)
  have htext : (String.intercalate "/" segments).toList =
      ['/'].intercalate (segments.map String.toList) := String.toList_intercalate
  unfold ofSegments
  rw [← htext]
  cases absolute with
  | true =>
    have hroot : ofComponents (.root :: segments.map componentOf) =
        ⟨"/" ++ String.intercalate "/" segments⟩ := by
      rw [ofComponents, htexts]
    refine hroot.trans (congrArg Path.mk (String.toList_injective ?_))
    rw [String.toList_append]
    exact String.toList_ofList.symm
  | false =>
    have hplain : ofComponents (segments.map componentOf) =
        ⟨String.intercalate "/" segments⟩ := by
      unfold ofComponents
      split
      · next inner hroot =>
        -- no segment is read as the root
        cases segments with
        | nil => cases hroot
        | cons first rest => exact absurd (List.cons.inj hroot).1 (componentOf_ne_root first)
      · rw [htexts]
    exact hplain.trans (congrArg Path.mk (String.toList_injective String.toList_ofList.symm))

/-- The path around a path is made of the segments that count, but for the last one. -/
theorem parent?_of_kept {path : Path} {around : List String} {name : String}
    (h : path.kept = around ++ [name]) :
    path.parent? = some (ofSegments path.isAbsolute around) := by
  have hcomponents := components_eq path
  rw [h, List.map_append, List.map_singleton, ← List.append_assoc] at hcomponents
  have hparent : path.parent? = some (ofComponents path.components.dropLast) := by
    unfold parent?
    split
    · next hnil => simp [hnil] at hcomponents
    · next hroot =>
      -- the last component is that of a segment, so it is not the root
      rw [hroot] at hcomponents
      have hlast := congrArg List.getLast? hcomponents
      rw [List.getLast?_concat] at hlast
      exact absurd (Option.some.inj hlast).symm (componentOf_ne_root name)
    · rfl
  rw [hparent, hcomponents, List.dropLast_concat, ofComponents_eq]

theorem reverse_tail_inits {α : Type} (xs : List α) :
    xs.inits.reverse.tail =
      (List.range xs.length).map fun count => xs.take (xs.length - 1 - count) := by
  refine List.ext_getElem (by simp) fun count hcount _ => ?_
  simp

theorem match_components_eq (path : Path) :
    (match path.components with
      | .root :: inner => inner
      | inner => inner) = path.kept.map componentOf := by
  rw [components_eq]
  split
  · next inner hroot =>
    cases habsolute : path.isAbsolute with
    | true =>
      rw [habsolute] at hroot
      exact (List.cons.inj hroot).2.symm
    | false =>
      rw [habsolute] at hroot
      cases hkept : path.kept with
      | nil => rw [hkept] at hroot; cases hroot
      | cons first rest =>
        rw [hkept] at hroot
        exact absurd (List.cons.inj hroot).1 (componentOf_ne_root first)
  · next hroot =>
    cases habsolute : path.isAbsolute with
    | true => exact absurd (by rw [habsolute]; rfl) (hroot (path.kept.map componentOf))
    | false => rfl

/-- The path and the paths around it. -/
theorem ancestors_eq (path : Path) :
    path.ancestors =
      path :: (path.kept.inits.reverse.tail).map (ofSegments path.isAbsolute) := by
  -- an ancestor has fewer components, and keeps the root if there is one
  have haround (count : Nat) (hcount : count < path.kept.length) :
      ofComponents (path.components.take (path.components.length - 1 - count)) =
        ofSegments path.isAbsolute (path.kept.take (path.kept.length - 1 - count)) := by
    rw [← ofComponents_eq, components_eq, List.map_take, List.length_append, List.length_map]
    cases path.isAbsolute with
    | true =>
      have hindex : 1 + path.kept.length - 1 - count = path.kept.length - 1 - count + 1 := by omega
      exact congrArg _ (hindex ▸ List.take_succ_cons)
    | false => exact congrArg _ (congrArg (fun n => List.take (n - 1 - count) _) (Nat.zero_add _))
  have hancestors : path.ancestors = path ::
      (List.range (match path.components with
        | .root :: inner => inner
        | inner => inner).length).map fun count =>
          ofComponents (path.components.take (path.components.length - 1 - count)) := rfl
  rw [hancestors, match_components_eq, List.length_map, reverse_tail_inits, List.map_map]
  exact congrArg _ (List.map_congr_left fun count hcount => haround count (List.mem_range.1 hcount))

theorem segments_ofSegments {absolute : Bool} {segments : List String}
    (h : IsKept absolute segments) : (ofSegments absolute segments).segments = segments := by
  have hsegments := segmentsOf_intercalate h.segment
  show segmentsOf (ofSegments absolute segments).text.toList = segments
  rw [ofSegments, String.toList_ofList]
  cases absolute with
  | true => exact (segmentsOf_append_slash [] _).trans hsegments
  | false => exact hsegments

theorem isAbsolute_ofSegments {absolute : Bool} {segments : List String}
    (h : IsKept absolute segments) : (ofSegments absolute segments).isAbsolute = absolute := by
  rw [isAbsolute, ofSegments, String.toList_ofList]
  cases absolute with
  | true => rfl
  | false =>
    cases segments with
    | nil => rfl
    | cons first rest =>
      obtain ⟨hne, hslash⟩ := h.segment first List.mem_cons_self
      cases hfirst : first.toList with
      | nil => exact absurd (by simpa using hfirst) hne
      | cons c cs =>
        have hc : c ≠ '/' := fun heq => hslash (by simp [hfirst, heq])
        simp [hfirst, List.intercalate_cons_cons_left, hc]

theorem kept_ofSegments {absolute : Bool} {segments : List String}
    (h : IsKept absolute segments) : (ofSegments absolute segments).kept = segments := by
  have hdot := h.ne_dot
  rw [kept, isAbsolute_ofSegments h, segments_ofSegments h]
  cases absolute with
  | true => exact List.filter_eq_self.2 fun segment hmem => by simpa using hdot segment hmem
  | false =>
    cases segments with
    | nil => rfl
    | cons first rest =>
      have hrest : rest.filter (· != ".") = rest :=
        List.filter_eq_self.2 fun segment hmem => by simpa using hdot segment hmem
      simp [hrest]

theorem ancestors_ofSegments {absolute : Bool} {segments : List String}
    (h : IsKept absolute segments) :
    (ofSegments absolute segments).ancestors =
      segments.inits.reverse.map (ofSegments absolute) := by
  have hlast : segments.inits.reverse.head? = some segments := by
    rw [List.head?_reverse, List.getLast?_eq_getElem?]
    simp
  obtain ⟨rest, hrest⟩ := List.head?_eq_some_iff.1 hlast
  rw [ancestors_eq, kept_ofSegments h, isAbsolute_ofSegments h, hrest]
  rfl

theorem components_ofSegments {absolute : Bool} {segments : List String}
    (h : IsKept absolute segments) :
    (ofSegments absolute segments).components =
      (if absolute then [.root] else []) ++ segments.map componentOf := by
  rw [components_eq, isAbsolute_ofSegments h, kept_ofSegments h]

/-- The components of a path around another one are a front of the components of that one, and
not all of them. -/
theorem components_of_mem_ancestors {path around : Path} (h : around ∈ path.ancestors.tail) :
    around.components <+: path.components ∧
      around.components.length < path.components.length := by
  rw [ancestors_eq, List.tail_cons, reverse_tail_inits, List.map_map] at h
  obtain ⟨count, hcount, rfl⟩ := List.mem_map.1 h
  have hlt := List.mem_range.1 hcount
  have hfront : path.kept.take (path.kept.length - 1 - count) <+: path.kept :=
    List.take_prefix _ _
  rw [Function.comp_apply, components_ofSegments ((isKept_kept path).of_front hfront),
    components_eq path]
  refine ⟨(List.prefix_append_right_inj _).2 (hfront.map _), ?_⟩
  rw [List.length_append, List.length_append, List.length_map, List.length_map, List.length_take]
  omega

theorem kept_ne_nil {path : Path} (h : path.text ≠ "") (hrelative : path.isAbsolute = false) :
    path.kept ≠ [] := by
  have hsegments : path.segments ≠ [] := by
    cases htext : path.text.toList with
    | nil => exact absurd (by simpa using htext) h
    | cons c rest =>
      have hc : (c == '/') = false := by simpa [isAbsolute, htext] using hrelative
      show segmentsOf path.text.toList ≠ []
      rw [htext, segmentsOf, List.splitOn_cons_eq_if_modifyHead, hc]
      cases hpieces : rest.splitOn '/' with
      | nil => exact absurd hpieces (List.splitOn_ne_nil _ _)
      | cons first pieces => simp
  -- the first segment of a relative path is kept, even a dot
  unfold kept
  rw [if_neg (by simp [hrelative])]
  cases hpath : path.segments with
  | nil => exact absurd hpath hsegments
  | cons first rest => exact List.cons_ne_nil _ _

theorem ofSegments_ne_empty {absolute : Bool} {segments : List String}
    (h : IsKept absolute segments) (hne : absolute = false → segments ≠ []) :
    (ofSegments absolute segments).text ≠ "" := by
  intro hempty
  have hsegments := segments_ofSegments h
  have habsolute := isAbsolute_ofSegments h
  rw [isAbsolute, hempty] at habsolute
  have hnil : segments = [] := by
    rw [← hsegments, Path.segments, hempty]
    rfl
  exact hne habsolute.symm hnil

/-! ### Texts of paths -/

/-- A path of some of the segments of another one has a text that is part of its text. -/
theorem ofSegments_sublist {path : Path} {segments : List String}
    (h : segments.Sublist path.segments) :
    (ofSegments path.isAbsolute segments).text.toList.Sublist path.text.toList := by
  -- the segments are pieces of the text, so putting them together leaves some of it out
  have hpieces : (segments.map String.toList).Sublist
      ((path.text.toList.splitOn '/').filter (!·.isEmpty)) := by
    have hmap := h.map String.toList
    rw [Path.segments, List.map_map] at hmap
    simpa using hmap
  rw [ofSegments, String.toList_ofList]
  cases habsolute : path.isAbsolute with
  | false =>
    have hall := intercalate_sublist (hpieces.trans List.filter_sublist) '/'
    rw [List.intercalate_splitOn] at hall
    exact hall
  | true =>
    obtain ⟨rest, hrest⟩ : ∃ rest, path.text.toList = '/' :: rest :=
      List.head?_eq_some_iff.1 (by simpa [isAbsolute] using habsolute)
    have hsplit : ('/' :: rest).splitOn '/' = [] :: rest.splitOn '/' :=
      List.splitOn_append_cons_self [] rest
    rw [hrest, hsplit, List.filter_cons_of_neg (by simp)] at hpieces
    have hall := intercalate_sublist (hpieces.trans List.filter_sublist) '/'
    rw [List.intercalate_splitOn] at hall
    rw [hrest]
    exact hall.cons_cons '/'

end Path

end RpcBinder
