import RpcBinder.FileTree.Basic
import RpcBinder.Proofs.Path
import RpcBinder.Proofs.Text.Parts

/-!
# What is where in a file tree

A tree is known by what it has at each place.  A path is walked through its way points, and
where the walk succeeds it ends at the place that the steps of the path lead to, whatever the
tree is.

## Main definitions

* `FileTree.placeOf`, `FileTree.waypoints` — where a path leads to, and the places on the way.

## Main results

* `FileTree.get?_put`, `FileTree.get?_erase`, `FileTree.get?_clear` — changed trees.
* `FileTree.isDirectory_iff` — when a path leads to a directory.
* `FileTree.get?_of_mem_waypoints` — then all way points are directories.
* `FileTree.walk_filter` — inner dots may be left out.
-/

namespace RpcBinder.FileTree

theorem lookup_filter_fst {α β : Type} [BEq α] [LawfulBEq α] (p : α → Bool)
    (entries : List (α × β)) (key : α) :
    (entries.filter fun entry => p entry.1).lookup key =
      if p key then entries.lookup key else none := by
  induction entries with
  | nil => simp
  | cons entry entries ih =>
    obtain ⟨k, value⟩ := entry
    by_cases hk : p k
    · rw [List.filter_cons_of_pos (p := fun entry : α × β => p entry.1) hk, List.lookup_cons,
        List.lookup_cons, ih]
      by_cases heq : key == k
      · obtain rfl := eq_of_beq heq
        simp [hk]
      · simp [heq]
    · rw [List.filter_cons_of_neg (p := fun entry : α × β => p entry.1) hk, List.lookup_cons, ih]
      by_cases heq : key == k
      · obtain rfl := eq_of_beq heq
        simp [hk]
      · simp [heq]

@[simp] theorem get?_nil (tree : FileTree) : tree.get? [] = some .directory := rfl

theorem get?_of_ne_nil (tree : FileTree) {location : Location} (h : location ≠ []) :
    tree.get? location = tree.entries.lookup location := by
  rw [get?, if_neg (by simpa using h)]

/-- Putting something at a place changes what is there and nothing else. -/
theorem get?_put (tree : FileTree) {place : Location} (h : place ≠ []) (entry : Entry)
    (location : Location) :
    (tree.put place entry).get? location =
      if location = place then some entry else tree.get? location := by
  by_cases hnil : location = []
  · subst hnil
    rw [if_neg (Ne.symm h), get?_nil, get?_nil]
  · rw [get?_of_ne_nil _ hnil, get?_of_ne_nil _ hnil, put, List.lookup_cons,
      lookup_filter_fst (· != place)]
    by_cases heq : location = place
    · simp [heq]
    · have hkeep : (location == place) = false := by simpa using heq
      simp [hkeep, heq]

/-- Erasing a place takes away what is there and below. -/
theorem get?_erase (tree : FileTree) (place : Location) {location : Location}
    (h : location ≠ []) :
    (tree.erase place).get? location =
      if place <+: location then none else tree.get? location := by
  rw [get?_of_ne_nil _ h, get?_of_ne_nil _ h, erase,
    lookup_filter_fst (fun other => !place.isPrefixOf other)]
  by_cases hfront : place <+: location
  · simp [List.isPrefixOf_iff_prefix.2 hfront, hfront]
  · have hnot : place.isPrefixOf location = false := by
      rw [← Bool.not_eq_true, List.isPrefixOf_iff_prefix]
      exact hfront
    simp [hnot, hfront]

/-- Clearing a place takes away what is below. -/
theorem get?_clear (tree : FileTree) (place location : Location) :
    (tree.clear place).get? location =
      if place <+: location ∧ location ≠ place then none else tree.get? location := by
  by_cases hnil : location = []
  · subst hnil
    have hroot : ¬ (place <+: [] ∧ [] ≠ place) := fun h => h.2 (List.prefix_nil.1 h.1).symm
    rw [if_neg hroot, get?_nil, get?_nil]
  · rw [get?_of_ne_nil _ hnil, get?_of_ne_nil _ hnil, clear,
      lookup_filter_fst (fun other => other == place || !place.isPrefixOf other)]
    by_cases heq : location = place
    · simp [heq]
    · by_cases hfront : place <+: location
      · simp [List.isPrefixOf_iff_prefix.2 hfront, hfront, heq]
      · have hnot : place.isPrefixOf location = false := by
          rw [← Bool.not_eq_true, List.isPrefixOf_iff_prefix]
          exact hfront
        simp [hnot, hfront]

/-! ### Walking -/

/-- The place that a path leads to. -/
def placeOf (tree : FileTree) (path : Path) : Location :=
  path.segments.foldl step (tree.origin path)

/-- The places on the way of a path, with those at its start and at its end. -/
def waypoints (tree : FileTree) (path : Path) : List Location :=
  path.segments.scanl step (tree.origin path)

theorem walk_cons (tree : FileTree) (location : Location) (segment : String)
    (segments : List String) :
    tree.walk location (segment :: segments) =
      tree.checkStep location segment >>= fun _ => tree.walk (step location segment) segments :=
  rfl

theorem checkStep_eq_ok_iff {tree : FileTree} {location : Location} {segment : String} :
    tree.checkStep location segment = .ok () ↔
      tree.get? location = some .directory ∧ segment.utf8ByteSize ≤ 255 := by
  unfold checkStep
  split
  · next h => simp [h]
  · next h =>
    split
    · next hsize => simp [h, hsize]
    · next hsize => simp [h, hsize]
  · next entry hne h =>
    have hentry : entry ≠ .directory := hne
    simp [h, hentry]

theorem walk_cons_eq_ok_iff {tree : FileTree} {location place : Location} {segment : String}
    {segments : List String} :
    tree.walk location (segment :: segments) = .ok place ↔
      tree.get? location = some .directory ∧ segment.utf8ByteSize ≤ 255 ∧
        tree.walk (step location segment) segments = .ok place := by
  rw [walk_cons, ← and_assoc, ← checkStep_eq_ok_iff, bind_eq_ok]
  exact ⟨fun ⟨_, hstep, hrest⟩ => ⟨hstep, hrest⟩, fun ⟨hstep, hrest⟩ => ⟨(), hstep, hrest⟩⟩

theorem walk_append (tree : FileTree) (location : Location) (first second : List String) :
    tree.walk location (first ++ second) =
      tree.walk location first >>= fun place => tree.walk place second := by
  induction first generalizing location with
  | nil => rfl
  | cons segment first ih =>
    rw [List.cons_append, walk_cons, walk_cons]
    cases tree.checkStep location segment with
    | error error => rfl
    | ok _ => exact ih _

/-- A walk that succeeds ends where its steps lead to. -/
theorem eq_foldl_of_walk {tree : FileTree} {location place : Location} {segments : List String}
    (h : tree.walk location segments = .ok place) : place = segments.foldl step location := by
  induction segments generalizing location with
  | nil => exact (Except.ok.inj h).symm
  | cons segment segments ih => exact ih (walk_cons_eq_ok_iff.1 h).2.2

/-- A walk to a directory passes directories only. -/
theorem get?_of_walk {tree : FileTree} {location place : Location} {segments : List String}
    (h : tree.walk location segments = .ok place) (hplace : tree.get? place = some .directory)
    {waypoint : Location} (hmem : waypoint ∈ segments.scanl step location) :
    tree.get? waypoint = some .directory := by
  induction segments generalizing location with
  | nil =>
    obtain rfl := Except.ok.inj h
    rw [List.scanl_nil, List.mem_singleton] at hmem
    rw [hmem, hplace]
  | cons segment segments ih =>
    obtain ⟨hdirectory, -, hrest⟩ := walk_cons_eq_ok_iff.1 h
    rw [List.scanl_cons] at hmem
    rcases List.mem_cons.1 hmem with rfl | hmem
    · exact hdirectory
    · exact ih hrest hmem

/-- A walk over segments of a fitting size succeeds in every tree in which its way points are
directories. -/
theorem walk_congr {tree other : FileTree} {location place : Location} {segments : List String}
    (h : tree.walk location segments = .ok place)
    (hkeep : ∀ waypoint ∈ segments.scanl step location,
      tree.get? waypoint = some .directory → other.get? waypoint = some .directory) :
    other.walk location segments = .ok place := by
  induction segments generalizing location with
  | nil => exact h
  | cons segment segments ih =>
    obtain ⟨hdirectory, hsize, hrest⟩ := walk_cons_eq_ok_iff.1 h
    rw [List.scanl_cons] at hkeep
    refine walk_cons_eq_ok_iff.2 ⟨hkeep _ List.mem_cons_self hdirectory, hsize, ih hrest ?_⟩
    exact fun waypoint hmem => hkeep waypoint (List.mem_cons_of_mem _ hmem)

/-- Dots may be left out of a walk. -/
theorem walk_filter {tree : FileTree} {location place : Location} {segments : List String}
    (h : tree.walk location segments = .ok place) :
    tree.walk location (segments.filter (· != ".")) = .ok place := by
  induction segments generalizing location with
  | nil => exact h
  | cons segment segments ih =>
    obtain ⟨hdirectory, hsize, hrest⟩ := walk_cons_eq_ok_iff.1 h
    by_cases hdot : segment = "."
    · subst hdot
      exact ih hrest
    · have hkept : (segment != ".") = true := by simpa using hdot
      rw [List.filter_cons_of_pos (p := (· != ".")) hkept]
      exact walk_cons_eq_ok_iff.2 ⟨hdirectory, hsize, ih hrest⟩

theorem walk_kept {tree : FileTree} {location place : Location} {path : Path}
    (h : tree.walk location path.segments = .ok place) :
    tree.walk location path.kept = .ok place := by
  unfold Path.kept
  split
  · exact walk_filter h
  · cases hsegments : path.segments with
    | nil =>
      rw [hsegments] at h
      exact h
    | cons first rest =>
      rw [hsegments] at h
      obtain ⟨hdirectory, hsize, hrest⟩ := walk_cons_eq_ok_iff.1 h
      exact walk_cons_eq_ok_iff.2 ⟨hdirectory, hsize, walk_filter hrest⟩

/-! ### Directories -/

theorem locate_eq_ok_iff {tree : FileTree} {path : Path} {place : Location} :
    tree.locate path = .ok place ↔
      checkPath path = .ok () ∧ tree.walk (tree.origin path) path.segments = .ok place := by
  rw [locate, bind_eq_ok]
  exact ⟨fun ⟨_, hcheck, hwalk⟩ => ⟨hcheck, hwalk⟩, fun ⟨hcheck, hwalk⟩ => ⟨(), hcheck, hwalk⟩⟩

theorem entryAt_eq_directory_iff {tree : FileTree} {path : Path} :
    tree.entryAt path = .ok .directory ↔
      ∃ place, tree.locate path = .ok place ∧ tree.get? place = some .directory := by
  rw [entryAt, bind_eq_ok]
  refine exists_congr fun place => and_congr_right fun _ => ?_
  cases tree.get? place with
  | none => exact ⟨nofun, nofun⟩
  | some entry =>
    -- a file is none, whether a slash follows it or not
    cases entry with
    | directory => exact ⟨fun _ => rfl, fun _ => rfl⟩
    | text content => cases path.endsWithSlash <;> exact ⟨nofun, nofun⟩
    | binary bytes => cases path.endsWithSlash <;> exact ⟨nofun, nofun⟩

theorem isDirectory_eq_true_iff {tree : FileTree} {path : Path} :
    tree.isDirectory path = true ↔ tree.entryAt path = .ok .directory := by
  unfold isDirectory
  split
  · next h => simp [h]
  · next h => exact ⟨nofun, fun hdirectory => absurd hdirectory h⟩

/-- A path leads to a directory if it can be used and all its way points are directories. -/
theorem isDirectory_iff {tree : FileTree} {path : Path} :
    tree.isDirectory path = true ↔
      checkPath path = .ok () ∧
        tree.walk (tree.origin path) path.segments = .ok (tree.placeOf path) ∧
        tree.get? (tree.placeOf path) = some .directory := by
  rw [isDirectory_eq_true_iff, entryAt_eq_directory_iff]
  simp only [locate_eq_ok_iff]
  constructor
  · rintro ⟨place, ⟨hcheck, hwalk⟩, hplace⟩
    obtain rfl : place = tree.placeOf path := eq_foldl_of_walk hwalk
    exact ⟨hcheck, hwalk, hplace⟩
  · rintro ⟨hcheck, hwalk, hplace⟩
    exact ⟨_, ⟨hcheck, hwalk⟩, hplace⟩

theorem get?_of_mem_waypoints {tree : FileTree} {path : Path} (h : tree.isDirectory path = true)
    {waypoint : Location} (hmem : waypoint ∈ tree.waypoints path) :
    tree.get? waypoint = some .directory := by
  obtain ⟨-, hwalk, hplace⟩ := isDirectory_iff.1 h
  exact get?_of_walk hwalk hplace hmem

theorem placeOf_mem_waypoints (tree : FileTree) (path : Path) :
    tree.placeOf path ∈ tree.waypoints path := by
  unfold placeOf waypoints
  generalize tree.origin path = location
  induction path.segments generalizing location with
  | nil => simp
  | cons segment segments ih =>
    rw [List.scanl_cons]
    exact List.mem_cons_of_mem _ (ih _)

theorem placeOf_congr {tree other : FileTree} (h : other.here = tree.here) (path : Path) :
    other.placeOf path = tree.placeOf path := by
  rw [placeOf, placeOf, origin, origin, h]

theorem waypoints_congr {tree other : FileTree} (h : other.here = tree.here) (path : Path) :
    other.waypoints path = tree.waypoints path := by
  rw [waypoints, waypoints, origin, origin, h]

/-- A directory stays one in a tree in which the way points are directories. -/
theorem isDirectory_congr {tree other : FileTree} {path : Path}
    (h : tree.isDirectory path = true) (hhere : other.here = tree.here)
    (hkeep : ∀ waypoint ∈ tree.waypoints path, other.get? waypoint = some .directory) :
    other.isDirectory path = true := by
  obtain ⟨hcheck, hwalk, -⟩ := isDirectory_iff.1 h
  have horigin : other.origin path = tree.origin path := by rw [origin, origin, hhere]
  refine isDirectory_iff.2 ⟨hcheck, ?_, ?_⟩
  · rw [horigin, placeOf_congr hhere]
    exact walk_congr hwalk fun waypoint hmem _ => hkeep waypoint hmem
  · rw [placeOf_congr hhere]
    exact hkeep _ (placeOf_mem_waypoints tree path)

/-! ### Paths that can be used -/

theorem utf8ByteSize_ofList (text : List Char) :
    (String.ofList text).utf8ByteSize = byteLength text := by
  induction text with
  | nil => rfl
  | cons c text ih =>
    have hcons : String.ofList (c :: text) = String.singleton c ++ String.ofList text :=
      String.toList_injective (by simp)
    rw [hcons, String.utf8ByteSize_append, String.utf8ByteSize_singleton, ih, byteLength_cons]

theorem byteLength_sublist {first second : List Char} (h : first.Sublist second) :
    byteLength first ≤ byteLength second := by
  induction h with
  | slnil => exact Nat.le_refl _
  | cons c _ ih => exact Nat.le_trans ih (Nat.le_add_left _ _)
  | cons_cons c _ ih => exact Nat.add_le_add_left ih _

theorem checkPath_eq_ok_iff {path : Path} :
    checkPath path = .ok () ↔
      '\x00' ∉ path.text.toList ∧ path.text ≠ "" ∧ path.text.utf8ByteSize < 4096 := by
  unfold checkPath
  by_cases hnul : '\x00' ∈ path.text.toList
  · simp [hnul]
  · by_cases hempty : path.text = ""
    · simp [hempty]
    · by_cases hlong : 4096 ≤ path.text.utf8ByteSize
      · simp [hnul, hempty, hlong, Nat.not_lt.2 hlong]
      · simp [hnul, hempty, Nat.not_le.1 hlong]

/-- A path whose text is a part of the text of a path that can be used can be used, too. -/
theorem checkPath_of_sublist {path other : Path} (h : checkPath path = .ok ())
    (hsublist : other.text.toList.Sublist path.text.toList) (hne : other.text ≠ "") :
    checkPath other = .ok () := by
  obtain ⟨hnul, -, hsize⟩ := checkPath_eq_ok_iff.1 h
  refine checkPath_eq_ok_iff.2 ⟨fun hmem => hnul (hsublist.subset hmem), hne, ?_⟩
  have hbytes := byteLength_sublist hsublist
  rw [← utf8ByteSize_ofList, ← utf8ByteSize_ofList, String.ofList_toList, String.ofList_toList]
    at hbytes
  exact Nat.lt_of_le_of_lt hbytes hsize

end RpcBinder.FileTree
