import RpcBinder.FileTree.Action
import RpcBinder.Proofs.FileTree.Basic

/-!
# What actions do to a file tree

An action is known by its answer and the tree that it leaves.  Making directories may find some
of them there and fail half-way, but it only ever adds directories at way points of its path,
and where it succeeds the path leads to a directory.  These two facts are all that later proofs
know of it: together they say what every place holds.

## Main definitions

* `Grows` — a tree with more directories, at some places only.
* `Makes` — an action that adds directories, and a directory at the end of a path if it succeeds.

## Main results

* `run_bind`, `run_query`, `run_tryCatch` — running actions step by step.
* `lastStep_some` — what it takes that the last step of a path can be taken.
* `makeDirectories_makes` — making a directory with those around it.
* `get?_of_makeDirectories` — what every place holds afterwards.
-/

namespace RpcBinder.FileAction

open FileTree

variable {α β : Type}

/-! ### Running actions -/

theorem run_bind (action : FileAction α) (next : α → FileAction β) (tree : FileTree) :
    (action >>= next).run.run tree =
      match action.run.run tree with
      | (.ok x, after) => (next x).run.run after
      | (.error error, after) => (.error error, after) := by
  rw [ExceptT.run_bind, StateT.run_bind]
  rcases action.run.run tree with ⟨_ | _, after⟩ <;> rfl

theorem run_get (next : FileTree → FileAction β) (tree : FileTree) :
    ((get : FileAction FileTree) >>= next).run.run tree = (next tree).run.run tree := rfl

theorem run_modify (f : FileTree → FileTree) (tree : FileTree) :
    (modify f : FileAction Unit).run.run tree = (.ok (), f tree) := rfl

theorem run_tryCatch (action : FileAction α) (rescue : FileError → FileAction α)
    (tree : FileTree) :
    (tryCatch action rescue).run.run tree =
      match action.run.run tree with
      | (.ok x, after) => (.ok x, after)
      | (.error error, after) => (rescue error).run.run after := by
  show (ExceptT.tryCatch action rescue).run.run tree = _
  rw [ExceptT.tryCatch, ExceptT.run_mk]
  show (action.run >>= _).run tree = _
  rw [StateT.run_bind]
  rcases action.run.run tree with ⟨_ | _, after⟩ <;> rfl

theorem run_query (f : FileTree → Except FileError α) (tree : FileTree) :
    (query f).run.run tree = (f tree, tree) := by
  rw [query, run_get]
  cases f tree <;> rfl

/-- A new directory, or an error and no change. -/
theorem run_makeDirectory (path : Path) (tree : FileTree) :
    (makeDirectory path).run.run tree =
      match lastStep path tree with
      | .error error => (.error error, tree)
      | .ok (_, none) => (.error .alreadyExists, tree)
      | .ok (directory, some segment) =>
          if isName segment && (tree.get? (directory ++ [segment])).isNone then
            (.ok (), tree.put (directory ++ [segment]) .directory)
          else (.error .alreadyExists, tree) := by
  rw [makeDirectory, run_bind, run_query]
  rcases lastStep path tree with _ | ⟨directory, _ | segment⟩
  · rfl
  · rfl
  · dsimp only
    rw [run_get]
    split <;> rfl

/-! ### The last step of a path -/

theorem lastStep_concat {path : Path} {around : List String} {segment : String}
    (h : path.segments = around ++ [segment]) (hcheck : checkPath path = .ok ())
    (tree : FileTree) :
    lastStep path tree =
      tree.walk (tree.origin path) around >>= fun directory =>
        tree.checkStep directory segment >>= fun _ => .ok (directory, some segment) := by
  unfold lastStep
  rw [hcheck, h, List.dropLast_concat, List.getLast?_concat]
  rfl

/-- What it means that the last step of a path can be taken. -/
theorem lastStep_some {path : Path} {tree : FileTree} {directory : Location} {segment : String}
    (h : lastStep path tree = .ok (directory, some segment)) :
    ∃ around, path.segments = around ++ [segment] ∧ checkPath path = .ok () ∧
      tree.walk (tree.origin path) around = .ok directory ∧
      tree.get? directory = some .directory ∧ segment.utf8ByteSize ≤ 255 := by
  obtain ⟨_, hcheck, hsteps⟩ := bind_eq_ok.1 h
  rcases List.eq_nil_or_concat path.segments with hnil | ⟨around, last, hlast⟩
  · rw [hnil] at hsteps
    cases hsteps
  · rw [List.concat_eq_append] at hlast
    rw [lastStep_concat hlast hcheck] at h
    obtain ⟨place, hwalk, hrest⟩ := bind_eq_ok.1 h
    obtain ⟨_, hstep, hlocation⟩ := bind_eq_ok.1 hrest
    cases hlocation
    obtain ⟨hdirectory, hsize⟩ := checkStep_eq_ok_iff.1 hstep
    exact ⟨around, hlast, hcheck, hwalk, hdirectory, hsize⟩

theorem step_of_isName {segment : String} (h : isName segment = true) (directory : Location) :
    step directory segment = directory ++ [segment] := by
  obtain ⟨hdot, hparent⟩ : segment ≠ "." ∧ segment ≠ ".." := by simpa [isName] using h
  simp [step, hdot, hparent]

theorem placeOf_of_lastStep {path : Path} {tree : FileTree} {directory : Location}
    {segment : String} (h : lastStep path tree = .ok (directory, some segment))
    (hname : isName segment = true) : tree.placeOf path = directory ++ [segment] := by
  obtain ⟨around, hsegments, -, hwalk, -, -⟩ := lastStep_some h
  rw [placeOf, hsegments, List.foldl_append, ← eq_foldl_of_walk hwalk]
  exact step_of_isName hname directory

/-! ### Trees with more directories -/

/-- A tree with more directories: where it differs there was nothing, and it is one of some
places. -/
structure Grows (places : Location → Prop) (tree after : FileTree) : Prop where
  /-- The current directory is the same. -/
  here : after.here = tree.here
  /-- Every place holds the same, or is a new directory. -/
  get? : ∀ location, after.get? location = tree.get? location ∨
    tree.get? location = none ∧ after.get? location = some .directory ∧ places location

namespace Grows

variable {places : Location → Prop} {tree between after : FileTree}

theorem refl (places : Location → Prop) (tree : FileTree) : Grows places tree tree :=
  ⟨rfl, fun _ => Or.inl rfl⟩

theorem trans (h : Grows places tree between) (h' : Grows places between after) :
    Grows places tree after := by
  refine ⟨h'.here.trans h.here, fun location => ?_⟩
  rcases h.get? location with hsame | ⟨hnone, hdirectory, hplace⟩
  · rcases h'.get? location with hsame' | ⟨hnone', hdirectory', hplace'⟩
    · exact Or.inl (hsame'.trans hsame)
    · exact Or.inr ⟨hsame ▸ hnone', hdirectory', hplace'⟩
  · rcases h'.get? location with hsame' | ⟨hnone', -, -⟩
    · exact Or.inr ⟨hnone, hsame'.trans hdirectory, hplace⟩
    · rw [hdirectory] at hnone'
      cases hnone'

theorem mono {others : Location → Prop} (h : Grows places tree after)
    (hsub : ∀ location, places location → others location) : Grows others tree after :=
  ⟨h.here, fun location => (h.get? location).imp_right fun ⟨hnone, hdirectory, hplace⟩ =>
    ⟨hnone, hdirectory, hsub location hplace⟩⟩

/-- What is a directory stays one. -/
theorem directory (h : Grows places tree after) {location : Location}
    (hdirectory : tree.get? location = some .directory) :
    after.get? location = some .directory := by
  rcases h.get? location with hsame | ⟨hnone, -, -⟩
  · exact hsame.trans hdirectory
  · rw [hdirectory] at hnone
    cases hnone

end Grows

/-- An action makes a directory out of a path if it adds directories only, and the path leads
to one if it succeeds. -/
structure Makes (path : Path) (places : Location → Prop) (tree : FileTree)
    (outcome : Except FileError Unit × FileTree) : Prop where
  /-- Only directories are added. -/
  grows : Grows places tree outcome.2
  /-- Success is a directory. -/
  isDirectory : outcome.1 = .ok () → path.text ≠ "" → outcome.2.isDirectory path = true

theorem makeDirectory_makes (path : Path) (tree : FileTree) :
    Makes path (· = tree.placeOf path) tree ((makeDirectory path).run.run tree) := by
  rw [run_makeDirectory]
  split
  · exact ⟨Grows.refl _ _, nofun⟩
  · exact ⟨Grows.refl _ _, nofun⟩
  · next directory segment hlast =>
    split
    · next hnew =>
      -- the name is new: one more directory, and nothing else changes
      obtain ⟨hname, hnone⟩ := Bool.and_eq_true_iff.1 hnew
      have hplace : tree.placeOf path = directory ++ [segment] := placeOf_of_lastStep hlast hname
      rw [← hplace] at hnone ⊢
      have hnonempty : tree.placeOf path ≠ [] := by simp [hplace]
      have hget := tree.get?_put hnonempty .directory
      have hgrows : Grows (· = tree.placeOf path) tree
          (tree.put (tree.placeOf path) .directory) := by
        refine ⟨rfl, fun location => ?_⟩
        rw [hget]
        by_cases hlocation : location = tree.placeOf path
        · subst hlocation
          exact Or.inr ⟨by simpa using hnone, if_pos rfl, rfl⟩
        · exact Or.inl (if_neg hlocation)
      refine ⟨hgrows, fun _ _ => ?_⟩
      -- the path still leads there, as its steps pass directories only
      obtain ⟨around, hsegments, hcheck, hwalk, hdirectory, hsize⟩ := lastStep_some hlast
      refine isDirectory_iff.2 ⟨hcheck, ?_, (hget _).trans (if_pos rfl)⟩
      have hkeep := walk_congr hwalk fun _ _ => hgrows.directory
      have hstep : (tree.put (tree.placeOf path) .directory).walk directory [segment] =
          .ok (tree.placeOf path) :=
        walk_cons_eq_ok_iff.2 ⟨hgrows.directory hdirectory, hsize,
          congrArg Except.ok ((step_of_isName hname directory).trans hplace.symm)⟩
      rw [hsegments, walk_append]
      show (tree.put _ _).walk (tree.origin path) around >>= _ = _
      rw [hkeep]
      exact hstep
    · exact ⟨Grows.refl _ _, nofun⟩

theorem run_ensureDirectory (path : Path) (tree : FileTree) :
    (ensureDirectory path).run.run tree =
      match (makeDirectory path).run.run tree with
      | (.ok (), after) => (.ok (), after)
      | (.error error, after) =>
          if after.isDirectory path then (.ok (), after) else (.error error, after) := by
  rw [ensureDirectory, run_tryCatch]
  rcases (makeDirectory path).run.run tree with ⟨error | _, after⟩
  · dsimp only
    rw [run_get]
    split <;> rfl
  · rfl

theorem ensureDirectory_makes (path : Path) (tree : FileTree) :
    Makes path (· = tree.placeOf path) tree ((ensureDirectory path).run.run tree) := by
  have hmakes := makeDirectory_makes path tree
  rw [run_ensureDirectory]
  rcases hrun : (makeDirectory path).run.run tree with ⟨error | _, after⟩
  · rw [hrun] at hmakes
    dsimp only
    split
    · next hdirectory => exact ⟨hmakes.grows, fun _ _ => hdirectory⟩
    · exact ⟨hmakes.grows, nofun⟩
  · rw [hrun] at hmakes
    exact hmakes

theorem run_makeAll_cons {path : Path} (h : path.text ≠ "") (around : List Path)
    (tree : FileTree) :
    (makeAll (path :: around)).run.run tree =
      match (makeDirectory path).run.run tree with
      | (.ok (), after) => (.ok (), after)
      | (.error error, after) =>
          if error == .notFound then
            (makeAll around >>= fun _ => ensureDirectory path).run.run after
          else if after.isDirectory path then (.ok (), after)
          else (.error error, after) := by
  have hempty : ¬ (path.text.isEmpty = true) := by simpa using h
  rw [makeAll, if_neg hempty, run_tryCatch]
  rcases (makeDirectory path).run.run tree with ⟨error | _, after⟩
  · dsimp only
    split
    · rfl
    · rw [run_get]
      split <;> rfl
  · rfl

theorem makeAll_cons_makes {places : Location → Prop} {path : Path} {around : List Path}
    {tree : FileTree} (hpath : places (tree.placeOf path))
    (haround : ∀ between : FileTree, between.here = tree.here →
      Grows places between ((makeAll around).run.run between).2) :
    Makes path places tree ((makeAll (path :: around)).run.run tree) := by
  by_cases hempty : path.text = ""
  · have hrun : (makeAll (path :: around)).run.run tree = (.ok (), tree) := by
      rw [makeAll, if_pos (by simpa using hempty)]
      rfl
    rw [hrun]
    exact ⟨Grows.refl _ _, fun _ hne => absurd hempty hne⟩
  · have hplaces (after : FileTree) (hhere : after.here = tree.here) (location : Location)
        (hlocation : location = after.placeOf path) : places location := by
      rw [hlocation, placeOf_congr hhere]
      exact hpath
    have hfirst := makeDirectory_makes path tree
    have hgrows := hfirst.grows.mono (hplaces tree rfl)
    rw [run_makeAll_cons hempty]
    -- made at once, made below the directories around it, or there already
    rcases hrun : (makeDirectory path).run.run tree with ⟨error | _, between⟩
    · rw [hrun] at hfirst hgrows
      dsimp only
      split
      · have hrest := haround between hgrows.here
        rw [run_bind]
        rcases hrun' : (makeAll around).run.run between with ⟨error' | _, after⟩
        · rw [hrun'] at hrest
          exact ⟨hgrows.trans hrest, nofun⟩
        · rw [hrun'] at hrest
          have hlast := ensureDirectory_makes path after
          have hlater := hlast.grows.mono (hplaces after (hrest.here.trans hgrows.here))
          exact ⟨(hgrows.trans hrest).trans hlater, hlast.isDirectory⟩
      · split
        · next hdirectory => exact ⟨hgrows, fun _ _ => hdirectory⟩
        · exact ⟨hgrows, nofun⟩
    · rw [hrun] at hfirst hgrows
      exact ⟨hgrows, hfirst.isDirectory⟩

theorem makeAll_grows {places : Location → Prop} (paths : List Path) (tree : FileTree)
    (h : ∀ path ∈ paths, places (tree.placeOf path)) :
    Grows places tree ((makeAll paths).run.run tree).2 := by
  induction paths generalizing tree with
  | nil => exact Grows.refl _ _
  | cons path around ih =>
    obtain ⟨hpath, haround⟩ := List.forall_mem_cons.1 h
    refine (makeAll_cons_makes hpath fun between hhere => ih between fun other hmem => ?_).grows
    rw [placeOf_congr hhere]
    exact haround other hmem

/-! ### Directories with those around them -/

theorem foldl_mem_scanl {segments around : List String} (h : around <+: segments)
    (location : Location) : around.foldl step location ∈ segments.scanl step location := by
  induction around generalizing segments location with
  | nil => cases segments <;> simp
  | cons segment around ih =>
    obtain ⟨rest, rfl⟩ := h
    rw [List.cons_append, List.scanl_cons]
    exact List.mem_cons_of_mem _ (ih (List.prefix_append _ _) _)

theorem mem_scanl_iff {segments : List String} {location place : Location} :
    place ∈ segments.scanl step location ↔
      ∃ around, around <+: segments ∧ around.foldl step location = place := by
  refine ⟨fun h => ?_, fun ⟨around, hfront, heq⟩ => heq ▸ foldl_mem_scanl hfront location⟩
  induction segments generalizing location with
  | nil =>
    rw [List.scanl_nil, List.mem_singleton] at h
    exact ⟨[], List.prefix_refl _, h.symm⟩
  | cons segment segments ih =>
    rw [List.scanl_cons] at h
    rcases List.mem_cons.1 h with rfl | h
    · exact ⟨[], List.nil_prefix, rfl⟩
    · obtain ⟨around, hfront, heq⟩ := ih h
      exact ⟨segment :: around, List.cons_prefix_cons.2 ⟨rfl, hfront⟩, heq⟩

theorem mem_scanl_of_filter {segments : List String} {location place : Location}
    (h : place ∈ (segments.filter (· != ".")).scanl step location) :
    place ∈ segments.scanl step location := by
  induction segments generalizing location with
  | nil => exact h
  | cons segment segments ih =>
    rw [List.scanl_cons]
    by_cases hdot : segment = "."
    · -- a dot leads nowhere, so leaving it out loses no place
      subst hdot
      exact List.mem_cons_of_mem _ (ih h)
    · have hkept : (segment != ".") = true := by simpa using hdot
      rw [List.filter_cons_of_pos (p := (· != ".")) hkept, List.scanl_cons] at h
      rcases List.mem_cons.1 h with rfl | h
      · exact List.mem_cons_self
      · exact List.mem_cons_of_mem _ (ih h)

theorem mem_waypoints_of_kept {path : Path} {tree : FileTree} {place : Location}
    (h : place ∈ path.kept.scanl step (tree.origin path)) : place ∈ tree.waypoints path := by
  unfold Path.kept at h
  unfold waypoints
  split at h
  · exact mem_scanl_of_filter h
  · cases hsegments : path.segments with
    | nil =>
      rw [hsegments] at h
      exact h
    | cons first rest =>
      rw [hsegments] at h
      rw [List.scanl_cons] at h ⊢
      rcases List.mem_cons.1 h with rfl | h
      · exact List.mem_cons_self
      · exact List.mem_cons_of_mem _ (mem_scanl_of_filter h)

theorem placeOf_ofSegments {absolute : Bool} {segments : List String}
    (h : Path.IsKept absolute segments) (tree : FileTree) :
    tree.placeOf (Path.ofSegments absolute segments) =
      segments.foldl step (if absolute then [] else tree.here) := by
  rw [placeOf, origin, Path.segments_ofSegments h, Path.isAbsolute_ofSegments h]

/-- The directories that are made for a path are among its way points. -/
theorem placeOf_mem_of_ancestors {path other : Path} (h : other ∈ path.ancestors)
    (tree : FileTree) : tree.placeOf other ∈ tree.waypoints path := by
  rw [Path.ancestors_eq] at h
  rcases List.mem_cons.1 h with rfl | h
  · exact placeOf_mem_waypoints tree other
  · obtain ⟨around, haround, rfl⟩ := List.mem_map.1 h
    have hfront : around <+: path.kept :=
      (List.mem_inits _ _).1 (List.mem_reverse.1 (List.mem_of_mem_tail haround))
    rw [placeOf_ofSegments ((Path.isKept_kept path).of_front hfront)]
    exact mem_waypoints_of_kept (foldl_mem_scanl hfront _)

theorem makeDirectories_makes (path : Path) (tree : FileTree) :
    Makes path (· ∈ tree.waypoints path) tree ((makeDirectories path).run.run tree) := by
  have hplaces (other : Path) (hmem : other ∈ path.ancestors) :
      tree.placeOf other ∈ tree.waypoints path := placeOf_mem_of_ancestors hmem tree
  rw [makeDirectories]
  rw [Path.ancestors_eq] at hplaces ⊢
  obtain ⟨hpath, haround⟩ := List.forall_mem_cons.1 hplaces
  refine makeAll_cons_makes hpath fun between hhere => makeAll_grows _ between fun other hmem => ?_
  rw [placeOf_congr hhere]
  exact haround other hmem

/-- Where directories can be made for a path, its way points are directories, and everything
else is as it was. -/
theorem get?_of_makeDirectories {path : Path} {tree after : FileTree}
    (h : (makeDirectories path).run.run tree = (.ok (), after)) (hne : path.text ≠ "") :
    after.here = tree.here ∧ after.isDirectory path = true ∧
      ∀ location, after.get? location =
        if location ∈ tree.waypoints path then some .directory else tree.get? location := by
  have hmakes := makeDirectories_makes path tree
  rw [h] at hmakes
  have hhere : after.here = tree.here := hmakes.grows.here
  have hdirectory : after.isDirectory path = true := hmakes.isDirectory rfl hne
  refine ⟨hhere, hdirectory, fun location => ?_⟩
  split
  · next hmem =>
    rw [← waypoints_congr hhere] at hmem
    exact get?_of_mem_waypoints hdirectory hmem
  · next hnot =>
    rcases hmakes.grows.get? location with hsame | ⟨-, -, hmem⟩
    · exact hsame
    · exact absurd hmem hnot

end RpcBinder.FileAction
