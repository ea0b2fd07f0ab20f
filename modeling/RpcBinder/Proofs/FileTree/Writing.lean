import RpcBinder.Proofs.FileTree.Action

/-!
# Writing below a directory

Within a directory, directories of given names can be made one inside the other where nothing
else is in the way.  Making them asks for the innermost first and goes outward as long as it finds
that one is missing, so the proof goes by the names from the last one on.

## Main definitions

* `CanMake` — directories of some names can be made, one inside the other.

## Main results

* `CanMake.run_makeDirectories` — then they are made.
* `CanMake.exists_run_makeDirectories` — and nothing else has changed.
* `run_writeText` — a file is written and nothing else has changed.
-/

namespace RpcBinder.FileAction

open FileTree

/-! ### Names below a directory -/

theorem isName_of_isEntryName {name : String} (h : IsEntryName name) : isName name = true := by
  simp [isName, h.ne_dot, h.ne_parent]

theorem foldl_step_names {names : List String} (h : ∀ name ∈ names, isName name = true)
    (location : Location) : names.foldl step location = location ++ names := by
  induction names generalizing location with
  | nil => simp
  | cons name names ih =>
    obtain ⟨hname, hnames⟩ := List.forall_mem_cons.1 h
    rw [List.foldl_cons, step_of_isName hname, ih hnames, List.append_assoc,
      List.singleton_append]

/-- Where nothing but directories is in the way, a walk can only find that one is missing. -/
theorem walk_names {tree : FileTree} {location : Location} {names : List String}
    (hnames : ∀ name ∈ names, isName name = true ∧ name.utf8ByteSize ≤ 255)
    (hfree : ∀ around, around <+: names → around ≠ names →
      tree.get? (location ++ around) = none ∨ tree.get? (location ++ around) = some .directory) :
    tree.walk location names = .ok (location ++ names) ∨
      tree.walk location names = .error .notFound := by
  induction names generalizing location with
  | nil => exact Or.inl (by simp [walk])
  | cons name names ih =>
    obtain ⟨⟨hname, hsize⟩, hrest⟩ := List.forall_mem_cons.1 hnames
    have hhere := hfree [] (List.nil_prefix) (by simp)
    rw [List.append_nil] at hhere
    rcases hhere with hnone | hdirectory
    · -- nothing stands here, so the walk ends
      right
      rw [walk_cons, checkStep, hnone]
      rfl
    · -- a directory, from which the walk goes on
      have hstep : tree.checkStep location name = .ok () :=
        checkStep_eq_ok_iff.2 ⟨hdirectory, hsize⟩
      rw [walk_cons, hstep, step_of_isName hname]
      have hbelow := @ih (location ++ [name]) hrest fun around hfront hne => by
        have hmore : name :: around <+: name :: names := List.cons_prefix_cons.2 ⟨rfl, hfront⟩
        have hsome := hfree (name :: around) hmore (by simpa using hne)
        rwa [List.append_assoc, List.singleton_append]
      rw [List.append_assoc, List.singleton_append] at hbelow
      exact hbelow

/-! ### Last steps -/

theorem lastStep_eq_ok {path : Path} {tree : FileTree} {around : List String} {name : String}
    {directory : Location} (hsegments : path.segments = around ++ [name])
    (hcheck : checkPath path = .ok ()) (hsize : name.utf8ByteSize ≤ 255)
    (hwalk : tree.walk (tree.origin path) around = .ok directory)
    (hdirectory : tree.get? directory = some .directory) :
    lastStep path tree = .ok (directory, some name) := by
  have hstep : tree.checkStep directory name = .ok () :=
    checkStep_eq_ok_iff.2 ⟨hdirectory, hsize⟩
  rw [lastStep_concat hsegments hcheck, hwalk]
  show tree.checkStep directory name >>= _ = _
  rw [hstep]
  rfl

theorem isDirectory_of_lastStep {path : Path} {tree : FileTree} {directory : Location}
    {name : String} (h : lastStep path tree = .ok (directory, some name))
    (hname : isName name = true) (hthere : tree.get? (directory ++ [name]) = some .directory) :
    tree.isDirectory path = true := by
  obtain ⟨around, hsegments, hcheck, hwalk, hdirectory, hsize⟩ := lastStep_some h
  rw [← placeOf_of_lastStep h hname] at hthere
  refine isDirectory_iff.2 ⟨hcheck, ?_, hthere⟩
  have hbelow : tree.walk directory [name] = .ok (tree.placeOf path) :=
    walk_cons_eq_ok_iff.2 ⟨hdirectory, hsize, by
      rw [step_of_isName hname, placeOf_of_lastStep h hname]
      rfl⟩
  rw [hsegments, walk_append, hwalk]
  exact hbelow

/-- A directory that is there cannot be made. -/
theorem run_makeDirectory_of_isDirectory {path : Path} {tree : FileTree}
    (h : tree.isDirectory path = true) :
    (makeDirectory path).run.run tree = (.error .alreadyExists, tree) := by
  obtain ⟨hcheck, hwalk, hplace⟩ := isDirectory_iff.1 h
  rw [run_makeDirectory]
  rcases List.eq_nil_or_concat path.segments with hnil | ⟨around, name, hconcat⟩
  · -- without a last segment there is no name that could be new
    have hlast : lastStep path tree = .ok (tree.origin path, none) := by
      rw [lastStep, hcheck, hnil]
      rfl
    rw [hlast]
  · rw [List.concat_eq_append] at hconcat
    rw [hconcat, walk_append] at hwalk
    cases hwalk' : tree.walk (tree.origin path) around with
    | error error => rw [hwalk'] at hwalk; cases hwalk
    | ok directory =>
      rw [hwalk'] at hwalk
      obtain ⟨hdirectory, hsize, -⟩ := walk_cons_eq_ok_iff.1 hwalk
      have hlast := lastStep_eq_ok hconcat hcheck hsize hwalk' hdirectory
      rw [hlast]
      dsimp only
      -- the last segment either names the directory or leads to it by dots
      by_cases hname : isName name = true
      · rw [← placeOf_of_lastStep hlast hname, hplace]
        simp
      · simp [hname]

/-- Below a directory a new directory can be made where nothing is, and one that is there can
stay. -/
theorem run_makeDirectory_below {path : Path} {tree : FileTree} {directory : Location}
    {name : String} (h : lastStep path tree = .ok (directory, some name))
    (hname : isName name = true)
    (hfree : tree.get? (directory ++ [name]) = none ∨
      tree.get? (directory ++ [name]) = some .directory) :
    ((makeDirectory path).run.run tree).1 = .ok () ∨ tree.isDirectory path = true := by
  rcases hfree with hnone | hthere
  · left
    rw [run_makeDirectory, h]
    dsimp only
    rw [hname, hnone]
    rfl
  · exact Or.inr (isDirectory_of_lastStep h hname hthere)

theorem run_ensureDirectory_below {path : Path} {tree : FileTree} {directory : Location}
    {name : String} (h : lastStep path tree = .ok (directory, some name))
    (hname : isName name = true)
    (hfree : tree.get? (directory ++ [name]) = none ∨
      tree.get? (directory ++ [name]) = some .directory) :
    ((ensureDirectory path).run.run tree).1 = .ok () := by
  rw [run_ensureDirectory]
  rcases run_makeDirectory_below h hname hfree with hok | hthere
  · rcases hrun : (makeDirectory path).run.run tree with ⟨error | _, after⟩
    · rw [hrun] at hok
      cases hok
    · rfl
  · rw [run_makeDirectory_of_isDirectory hthere]
    simp [hthere]

/-! ### Making directories succeeds -/

/-- Directories of some names can be made, one within the other, in a directory. -/
structure CanMake (absolute : Bool) (base names : List String) (tree : FileTree) : Prop where
  /-- The path is written as it counts. -/
  kept : Path.IsKept absolute (base ++ names)
  /-- The paths can be used. -/
  check : ∀ around, around <+: names →
    checkPath (Path.ofSegments absolute (base ++ around)) = .ok ()
  /-- The names are names. -/
  name : ∀ name ∈ names, isName name = true ∧ name.utf8ByteSize ≤ 255
  /-- They are made within a directory. -/
  directory : tree.isDirectory (Path.ofSegments absolute base) = true
  /-- There is nothing else in the way. -/
  free : ∀ around, around <+: names →
    tree.get? (tree.placeOf (Path.ofSegments absolute base) ++ around) = none ∨
      tree.get? (tree.placeOf (Path.ofSegments absolute base) ++ around) = some .directory

namespace CanMake

variable {absolute : Bool} {base names : List String} {name : String} {tree : FileTree}

theorem front (h : CanMake absolute base (names ++ [name]) tree) :
    CanMake absolute base names tree where
  kept := h.kept.of_front (by rw [← List.append_assoc]; exact List.prefix_append _ _)
  check around hfront := h.check around (hfront.trans (List.prefix_append _ _))
  name other hmem := h.name other (List.mem_append_left _ hmem)
  directory := h.directory
  free around hfront := h.free around (hfront.trans (List.prefix_append _ _))

theorem origin_eq (h : CanMake absolute base names tree) :
    tree.origin (Path.ofSegments absolute (base ++ names)) =
      tree.origin (Path.ofSegments absolute base) := by
  have hbase : Path.IsKept absolute base := h.kept.of_front (List.prefix_append _ _)
  rw [origin, origin, Path.isAbsolute_ofSegments h.kept, Path.isAbsolute_ofSegments hbase]

theorem walk_base (h : CanMake absolute base names tree) :
    tree.walk (tree.origin (Path.ofSegments absolute base)) base =
      .ok (tree.placeOf (Path.ofSegments absolute base)) := by
  have hbase : Path.IsKept absolute base := h.kept.of_front (List.prefix_append _ _)
  obtain ⟨-, hwalk, -⟩ := isDirectory_iff.1 h.directory
  rwa [Path.segments_ofSegments hbase] at hwalk

theorem placeOf_eq (h : CanMake absolute base names tree) :
    tree.placeOf (Path.ofSegments absolute (base ++ names)) =
      tree.placeOf (Path.ofSegments absolute base) ++ names := by
  have hbase : Path.IsKept absolute base := h.kept.of_front (List.prefix_append _ _)
  rw [placeOf_ofSegments h.kept, placeOf_ofSegments hbase, List.foldl_append]
  exact foldl_step_names (fun name hmem => (h.name name hmem).1) _

theorem segments_eq (h : CanMake absolute base (names ++ [name]) tree) :
    (Path.ofSegments absolute (base ++ (names ++ [name]))).segments =
      (base ++ names) ++ [name] := by
  rw [Path.segments_ofSegments h.kept, List.append_assoc]

/-- The last of the names is missing with the directory that it lies in, or it can be looked
for. -/
theorem lastStep_cases (h : CanMake absolute base (names ++ [name]) tree) :
    lastStep (Path.ofSegments absolute (base ++ (names ++ [name]))) tree = .error .notFound ∨
      lastStep (Path.ofSegments absolute (base ++ (names ++ [name]))) tree =
        .ok (tree.placeOf (Path.ofSegments absolute base) ++ names, some name) := by
  have hcheck := h.check _ (List.prefix_refl _)
  have hwalk : tree.walk (tree.origin (Path.ofSegments absolute (base ++ (names ++ [name]))))
      (base ++ names) = tree.walk (tree.placeOf (Path.ofSegments absolute base)) names := by
    rw [h.origin_eq, walk_append, h.walk_base]
    rfl
  obtain ⟨-, hsize⟩ := h.name name (List.mem_append_right _ (List.mem_singleton_self _))
  -- the names lead down through directories, or the walk ends at one that is missing
  rcases walk_names h.front.name fun around hfront _ => h.front.free around hfront with
    hok | hmissing
  · rw [hok] at hwalk
    rcases h.front.free names (List.prefix_refl _) with hnone | hdirectory
    · left
      rw [lastStep_concat h.segments_eq hcheck, hwalk]
      show tree.checkStep _ name >>= _ = _
      rw [checkStep, hnone]
      rfl
    · exact Or.inr (lastStep_eq_ok h.segments_eq hcheck hsize hwalk hdirectory)
  · left
    rw [lastStep_concat h.segments_eq hcheck, hwalk, hmissing]
    rfl

theorem ancestors_concat (h : CanMake absolute base (names ++ [name]) tree) :
    (Path.ofSegments absolute (base ++ (names ++ [name]))).ancestors =
      Path.ofSegments absolute (base ++ (names ++ [name])) ::
        (Path.ofSegments absolute (base ++ names)).ancestors := by
  rw [Path.ancestors_ofSegments h.kept, Path.ancestors_ofSegments h.front.kept,
    ← List.append_assoc, List.inits_append]
  simp

/-- Once the directory around is there, the last of the names can be looked for. -/
theorem lastStep_after (h : CanMake absolute base (names ++ [name]) tree) {after : FileTree}
    (hhere : after.here = tree.here)
    (hdirectory : after.isDirectory (Path.ofSegments absolute (base ++ names)) = true) :
    lastStep (Path.ofSegments absolute (base ++ (names ++ [name]))) after =
      .ok (tree.placeOf (Path.ofSegments absolute base) ++ names, some name) := by
  have hcheck := h.check _ (List.prefix_refl _)
  obtain ⟨-, hsize⟩ := h.name name (List.mem_append_right _ (List.mem_singleton_self _))
  obtain ⟨-, hwalk, hplace⟩ := isDirectory_iff.1 hdirectory
  rw [placeOf_congr hhere, h.front.placeOf_eq] at hwalk hplace
  rw [Path.segments_ofSegments h.front.kept] at hwalk
  have horigin : after.origin (Path.ofSegments absolute (base ++ (names ++ [name]))) =
      after.origin (Path.ofSegments absolute (base ++ names)) := by
    rw [origin, origin, Path.isAbsolute_ofSegments h.kept, Path.isAbsolute_ofSegments h.front.kept]
  rw [← horigin] at hwalk
  exact lastStep_eq_ok h.segments_eq hcheck hsize hwalk hplace

/-- Directories of the names are made. -/
theorem run_makeDirectories (h : CanMake absolute base names tree) :
    ((makeDirectories (Path.ofSegments absolute (base ++ names))).run.run tree).1 = .ok () := by
  induction names using List.reverseRecOn with
  | nil =>
    have hdirectory := h.directory
    have hne := (checkPath_eq_ok_iff.1 (h.check _ (List.prefix_refl _))).2.1
    rw [List.append_nil] at hne ⊢
    rw [makeDirectories, Path.ancestors_eq, run_makeAll_cons hne,
      run_makeDirectory_of_isDirectory hdirectory]
    simp [hdirectory]
  | append_singleton names name ih =>
    have hne := (checkPath_eq_ok_iff.1 (h.check _ (List.prefix_refl _))).2.1
    obtain ⟨hname, hsize⟩ := h.name name (List.mem_append_right _ (List.mem_singleton_self _))
    have hfree := h.free _ (List.prefix_refl _)
    rw [← List.append_assoc] at hfree
    rw [makeDirectories, h.ancestors_concat, run_makeAll_cons hne]
    rcases h.lastStep_cases with hmissing | hlast
    · -- The directory around is missing: it is made first, and then holds the new one.
      rw [run_makeDirectory, hmissing]
      dsimp only
      rw [if_pos (beq_self_eq_true _), run_bind]
      have haround := ih h.front
      have hne' := (checkPath_eq_ok_iff.1 (h.front.check _ (List.prefix_refl _))).2.1
      rcases hrun : (makeDirectories (Path.ofSegments absolute (base ++ names))).run.run tree with
        ⟨error | _, after⟩
      · rw [hrun] at haround
        cases haround
      · obtain ⟨hhere, hdirectory, hget⟩ := get?_of_makeDirectories hrun hne'
        rw [makeDirectories] at hrun
        rw [hrun]
        refine run_ensureDirectory_below (h.lastStep_after hhere hdirectory) hname ?_
        rw [hget]
        split
        · exact Or.inr rfl
        · exact hfree
    · rcases run_makeDirectory_below hlast hname hfree with hok | hthere
      · rcases hrun : (makeDirectory (Path.ofSegments absolute
            (base ++ (names ++ [name])))).run.run tree with ⟨error | _, after⟩
        · rw [hrun] at hok
          cases hok
        · rfl
      · rw [run_makeDirectory_of_isDirectory hthere]
        simp [hthere]

/-- The way points of the names are those of the directory and what lies between. -/
theorem mem_waypoints_iff (h : CanMake absolute base names tree) {location : Location} :
    location ∈ tree.waypoints (Path.ofSegments absolute (base ++ names)) ↔
      location ∈ tree.waypoints (Path.ofSegments absolute base) ∨
        tree.placeOf (Path.ofSegments absolute base) <+: location ∧
          location <+: tree.placeOf (Path.ofSegments absolute base) ++ names := by
  have hbase : Path.IsKept absolute base := h.kept.of_front (List.prefix_append _ _)
  have hplace : ∀ around, around <+: names →
      (base ++ around).foldl step (tree.origin (Path.ofSegments absolute base)) =
        tree.placeOf (Path.ofSegments absolute base) ++ around := by
    intro around hfront
    rw [List.foldl_append, placeOf, Path.segments_ofSegments hbase]
    exact foldl_step_names (fun name hmem => (h.name name (hfront.subset hmem)).1) _
  rw [waypoints, waypoints, h.origin_eq, Path.segments_ofSegments h.kept,
    Path.segments_ofSegments hbase, mem_scanl_iff, mem_scanl_iff]
  constructor
  · rintro ⟨around, hfront, rfl⟩
    -- a front of the path ends within the base or among the names
    rcases List.prefix_or_prefix_of_prefix hfront (List.prefix_append base names) with
      hinner | ⟨rest, rfl⟩
    · exact Or.inl ⟨around, hinner, rfl⟩
    · have hrest : rest <+: names := (List.prefix_append_right_inj base).1 hfront
      rw [hplace rest hrest]
      exact Or.inr ⟨List.prefix_append _ _, (List.prefix_append_right_inj _).2 hrest⟩
  · rintro (⟨around, hfront, heq⟩ | ⟨⟨rest, rfl⟩, hfront⟩)
    · exact ⟨around, hfront.trans (List.prefix_append _ _), heq⟩
    · have hrest : rest <+: names := (List.prefix_append_right_inj _).1 hfront
      exact ⟨base ++ rest, (List.prefix_append_right_inj base).2 hrest, hplace rest hrest⟩

/-- Directories of the names are made, and nothing else. -/
theorem exists_run_makeDirectories (h : CanMake absolute base names tree) :
    ∃ after, (makeDirectories (Path.ofSegments absolute (base ++ names))).run.run tree =
        (.ok (), after) ∧
      after.here = tree.here ∧
      after.isDirectory (Path.ofSegments absolute (base ++ names)) = true ∧
      ∀ location, after.get? location =
        if tree.placeOf (Path.ofSegments absolute base) <+: location ∧
            location <+: tree.placeOf (Path.ofSegments absolute base) ++ names
        then some .directory else tree.get? location := by
  have hok := h.run_makeDirectories
  have hne := (checkPath_eq_ok_iff.1 (h.check _ (List.prefix_refl _))).2.1
  rcases hrun : (makeDirectories (Path.ofSegments absolute (base ++ names))).run.run tree with
    ⟨error | _, after⟩
  · rw [hrun] at hok
    cases hok
  · obtain ⟨hhere, hdirectory, hget⟩ := get?_of_makeDirectories hrun hne
    refine ⟨after, rfl, hhere, hdirectory, fun location => ?_⟩
    rw [hget]
    by_cases hbetween : tree.placeOf (Path.ofSegments absolute base) <+: location ∧
        location <+: tree.placeOf (Path.ofSegments absolute base) ++ names
    · rw [if_pos (h.mem_waypoints_iff.2 (Or.inr hbetween)), if_pos hbetween]
    · rw [if_neg hbetween]
      split
      · next hmem =>
        -- a waypoint of the base is a directory already
        have hbase := (h.mem_waypoints_iff.1 hmem).resolve_right hbetween
        exact (get?_of_mem_waypoints h.directory hbase).symm
      · rfl

end CanMake

/-! ### Files -/

/-- A file is written in a directory unless a directory has its name. -/
theorem run_writeText {path : Path} {tree : FileTree} {directory : Location} {name : String}
    (h : lastStep path tree = .ok (directory, some name)) (hname : isName name = true)
    (hslash : path.endsWithSlash = false)
    (hfile : tree.get? (directory ++ [name]) ≠ some .directory) (content : String) :
    (writeText path content).run.run tree =
      (.ok (), tree.put (directory ++ [name]) (.text content)) := by
  have hfile' : (tree.get? (directory ++ [name]) == some .directory) = false := by
    simpa using hfile
  rw [writeText, run_bind, run_query, h]
  dsimp only
  rw [run_get, hname, hfile', hslash]
  rfl

end RpcBinder.FileAction
