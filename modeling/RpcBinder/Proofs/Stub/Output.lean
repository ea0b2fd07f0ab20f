import RpcBinder.Proofs.FileTree.Renewal
import RpcBinder.Proofs.FileTree.Writing
import RpcBinder.Proofs.Stub.Basic
import RpcBinder.Stub.Output

/-!
# What the output directory holds

Stubs are written one after the other into a directory that was renewed.  A stub adds its file
and the directories on the way to it and changes nothing else, and it leaves the room that the
later stubs need, since no stub lies below another one.  So what the output directory holds at
the end can be said by the list of stubs alone, whatever was there before.

## Main definitions

* `IsWritable`, `HasRoom`, `Fits` — a stub that can be written, and a tree with room for it.
* `textAt?`, `entryAfter` — what places hold after stubs were written.
* `outputEntry` — what places hold after an output directory was replaced by stubs.
* `CanReplace`, `HasPlace` — an output directory that can be replaced, and stubs that fit in it.

## Main results

* `run_writeStub` — one stub is written.
* `run_mapM_writeStub` — stubs are written one after the other.
* `run_writeStubs` — the output directory is replaced by stubs.
-/

namespace RpcBinder

open FileTree FileAction

/-- A stub can be written below an output directory: its path can be used, and its names are of
a size that fits. -/
structure IsWritable (outputDir : Path) (anchor : Anchor) (extension : String) : Prop where
  /-- The names do not reach into other directories. -/
  plain : HasPlainNames anchor extension
  /-- The path can be used. -/
  check : checkPath (stubPath outputDir anchor extension) = .ok ()
  /-- The names are not too long. -/
  size : ∀ name ∈ packageSegments anchor.package ++ [stubFile anchor extension],
    name.utf8ByteSize ≤ 255

section WriteStub

variable {outputDir : Path} {anchor : Anchor} {extension : String} {tree : FileTree}

/-- The path of the directory around a stub is a part of the path of the stub. -/
theorem checkPath_around (h : IsWritable outputDir anchor extension)
    (hne : outputDir.text ≠ "") {around : List String}
    (hfront : around <+: packageSegments anchor.package) :
    checkPath (Path.ofSegments outputDir.isAbsolute (outputDir.kept ++ around)) = .ok () := by
  have hkept : outputDir.kept ++ around <+: (stubPath outputDir anchor extension).kept := by
    rw [kept_stubPath h.plain, List.append_assoc]
    exact (List.prefix_append_right_inj _).2 (hfront.trans (List.prefix_append _ _))
  have hsublist := Path.ofSegments_sublist (hkept.sublist.trans (Path.kept_sublist _))
  rw [isAbsolute_stubPath h.plain] at hsublist
  have hiskept := (Path.isKept_kept (stubPath outputDir anchor extension)).of_front hkept
  rw [isAbsolute_stubPath h.plain] at hiskept
  refine checkPath_of_sublist h.check hsublist (Path.ofSegments_ne_empty hiskept ?_)
  intro hrelative hnil
  exact Path.kept_ne_nil hne hrelative (List.append_eq_nil_iff.1 hnil).1

/-- A directory is reached by the segments that count as well. -/
theorem isDirectory_kept (h : tree.isDirectory outputDir = true)
    (hcheck : checkPath (Path.ofSegments outputDir.isAbsolute outputDir.kept) = .ok ()) :
    tree.isDirectory (Path.ofSegments outputDir.isAbsolute outputDir.kept) = true ∧
      tree.placeOf (Path.ofSegments outputDir.isAbsolute outputDir.kept) =
        tree.placeOf outputDir := by
  obtain ⟨-, hwalk, hplace⟩ := isDirectory_iff.1 h
  have hkept := Path.isKept_kept outputDir
  have hwalk' := walk_kept hwalk
  have heq : tree.placeOf (Path.ofSegments outputDir.isAbsolute outputDir.kept) =
      tree.placeOf outputDir := by
    rw [placeOf_ofSegments hkept]
    exact (eq_foldl_of_walk hwalk').symm
  rw [← heq] at hplace hwalk'
  refine ⟨isDirectory_iff.2 ⟨hcheck, ?_, hplace⟩, heq⟩
  rw [origin, Path.isAbsolute_ofSegments hkept, Path.segments_ofSegments hkept]
  exact hwalk'

/-- A stub can be written in a tree: the output directory is there, nothing but directories is
in the way, and no directory has the name of the stub's file. -/
structure HasRoom (outputDir : Path) (anchor : Anchor) (extension : String) (tree : FileTree) :
    Prop where
  /-- The output directory is there. -/
  directory : tree.isDirectory outputDir = true
  /-- There is nothing else in the way. -/
  free : ∀ around, around <+: packageSegments anchor.package →
    tree.get? (tree.placeOf outputDir ++ around) = none ∨
      tree.get? (tree.placeOf outputDir ++ around) = some .directory
  /-- There is no directory in its place. -/
  file : tree.get? (tree.placeOf outputDir ++ packageSegments anchor.package ++
    [stubFile anchor extension]) ≠ some .directory

theorem canMake_of_hasRoom (h : IsWritable outputDir anchor extension)
    (hroom : HasRoom outputDir anchor extension tree) (hne : outputDir.text ≠ "") :
    CanMake outputDir.isAbsolute outputDir.kept (packageSegments anchor.package) tree := by
  have hcheck := checkPath_around h hne List.nil_prefix
  rw [List.append_nil] at hcheck
  obtain ⟨hdirectory, hplace⟩ := isDirectory_kept hroom.directory hcheck
  have hkept := Path.isKept_kept (stubPath outputDir anchor extension)
  rw [isAbsolute_stubPath h.plain, kept_stubPath h.plain] at hkept
  refine ⟨hkept.of_front (List.prefix_append _ _), fun around => checkPath_around h hne,
    fun name hmem => ⟨?_, h.size name (List.mem_append_left _ hmem)⟩, hdirectory, ?_⟩
  · exact isName_of_isEntryName (isEntryName_of_mem_packageSegments h.plain.package hmem)
  · rw [hplace]
    exact hroom.free

/-- The place of a stub. -/
theorem placeOf_stubPath (h : HasPlainNames anchor extension) (tree : FileTree) :
    tree.placeOf (stubPath outputDir anchor extension) =
      tree.placeOf outputDir ++ packageSegments anchor.package ++ [stubFile anchor extension] := by
  have hnames (name : String)
      (hmem : name ∈ packageSegments anchor.package ++ [stubFile anchor extension]) :
      isName name = true := isName_of_isEntryName (isEntryName_of_mem_stubPath h hmem)
  rw [placeOf, origin, segments_stubPath h, isAbsolute_stubPath h, List.append_assoc,
    List.foldl_append, foldl_step_names hnames, List.append_assoc]
  rfl

/-- Once the directories of a stub are there, its file can be looked for. -/
theorem lastStep_stubPath (h : IsWritable outputDir anchor extension)
    (houtput : tree.isDirectory outputDir = true)
    (hpackage : tree.isDirectory (Path.ofSegments outputDir.isAbsolute
      (outputDir.kept ++ packageSegments anchor.package)) = true)
    (hplace : tree.placeOf (Path.ofSegments outputDir.isAbsolute
      (outputDir.kept ++ packageSegments anchor.package)) =
        tree.placeOf outputDir ++ packageSegments anchor.package) :
    lastStep (stubPath outputDir anchor extension) tree =
      .ok (tree.placeOf outputDir ++ packageSegments anchor.package,
        some (stubFile anchor extension)) := by
  have hkept := (Path.isKept_kept (stubPath outputDir anchor extension))
  rw [isAbsolute_stubPath h.plain, kept_stubPath h.plain] at hkept
  have hkept := hkept.of_front (List.prefix_append _ _)
  obtain ⟨-, hwalk, hthere⟩ := isDirectory_iff.1 hpackage
  obtain ⟨-, hwalk', -⟩ := isDirectory_iff.1 houtput
  have horigin : tree.origin (stubPath outputDir anchor extension) = tree.origin outputDir := by
    rw [origin, origin, isAbsolute_stubPath h.plain]
  have horigin' : tree.origin (Path.ofSegments outputDir.isAbsolute
      (outputDir.kept ++ packageSegments anchor.package)) = tree.origin outputDir := by
    rw [origin, origin, Path.isAbsolute_ofSegments hkept]
  -- the directory of the package is reached by way of the output directory
  rw [hplace] at hwalk hthere
  rw [horigin', Path.segments_ofSegments hkept, walk_append, walk_kept hwalk'] at hwalk
  refine lastStep_eq_ok (segments_stubPath h.plain outputDir) h.check
    (h.size _ (List.mem_append_right _ (List.mem_singleton_self _))) ?_ hthere
  rw [horigin, walk_append, hwalk']
  exact hwalk

/-- **A stub that is written** stands at its place, its directories are there, and everything
else is as it was. -/
theorem run_writeStub (h : IsWritable outputDir anchor extension)
    (hroom : HasRoom outputDir anchor extension tree) (hne : outputDir.text ≠ "")
    (text : String) :
    ∃ after, (writeStub ⟨stubPath outputDir anchor extension, text⟩).run.run tree =
        (.ok (stubPath outputDir anchor extension), after) ∧
      after.here = tree.here ∧ ∀ location, after.get? location =
        if location = tree.placeOf (stubPath outputDir anchor extension) then some (.text text)
        else if tree.placeOf outputDir <+: location ∧
            location <+: tree.placeOf (stubPath outputDir anchor extension) then some .directory
        else tree.get? location := by
  have hmake := canMake_of_hasRoom h hroom hne
  have hparent := Path.parent?_of_kept (kept_stubPath h.plain outputDir)
  rw [isAbsolute_stubPath h.plain] at hparent
  have hcheck := checkPath_around h hne List.nil_prefix
  rw [List.append_nil] at hcheck
  obtain ⟨-, hbase⟩ := isDirectory_kept hroom.directory hcheck
  -- the directories of the package are made first
  obtain ⟨between, hrun, hhere, hpackage, hget⟩ := hmake.exists_run_makeDirectories
  have hplace := hmake.placeOf_eq
  rw [hbase] at hplace hget
  have houtput : between.isDirectory outputDir = true := by
    refine isDirectory_congr hroom.directory hhere fun waypoint hmem => ?_
    rw [hget]
    split
    · rfl
    · exact get?_of_mem_waypoints hroom.directory hmem
  have hlast := lastStep_stubPath h houtput hpackage
    (by rw [placeOf_congr hhere, placeOf_congr hhere, hplace])
  rw [placeOf_congr hhere] at hlast
  have hname := isName_of_isEntryName (isEntryName_stubFile h.plain)
  have hfile : between.get? (tree.placeOf outputDir ++ packageSegments anchor.package ++
      [stubFile anchor extension]) ≠ some .directory := by
    rw [hget, if_neg]
    · exact hroom.file
    · rintro ⟨-, hlong⟩
      have hlength := hlong.length_le
      rw [List.length_append, List.length_singleton] at hlength
      omega
  -- and then the file is written into the last of them
  have hwrite := run_writeText hlast hname (endsWithSlash_stubPath h.plain outputDir) hfile text
  rw [← placeOf_stubPath h.plain] at hwrite
  refine ⟨between.put (tree.placeOf (stubPath outputDir anchor extension)) (.text text), ?_,
    hhere, fun location => ?_⟩
  · rw [writeStub, hparent, run_bind, hrun]
    dsimp only
    rw [run_bind, hwrite]
    rfl
  · -- the file, the directories on the way to it, and all else as it was
    have hsome : tree.placeOf (stubPath outputDir anchor extension) ≠ [] := by
      rw [placeOf_stubPath h.plain]
      simp
    rw [get?_put _ hsome, hget]
    split
    · rfl
    · next hother =>
      have hiff : location <+: tree.placeOf outputDir ++ packageSegments anchor.package ↔
          location <+: tree.placeOf (stubPath outputDir anchor extension) := by
        rw [placeOf_stubPath h.plain] at hother ⊢
        rw [List.prefix_concat_iff]
        exact ⟨Or.inr, fun hfront => hfront.resolve_left hother⟩
      simp only [hiff]

end WriteStub

/-! ### Series of stubs -/

section Places

variable {outputDir : Path} {anchor other : Anchor} {extension ending : String}

/-- A stub's file is no directory on the way to another stub. -/
theorem placeOf_ne_around (h : HasPlainNames anchor extension) (tree : FileTree)
    {around : List String} (hfront : around <+: packageSegments other.package) :
    tree.placeOf outputDir ++ around ≠ tree.placeOf (stubPath outputDir anchor extension) := by
  intro heq
  rw [placeOf_stubPath h, List.append_assoc, List.append_cancel_left_eq] at heq
  have hmem : stubFile anchor extension ∈ around := by simp [heq]
  exact stubFile_notMem_packageSegments _ _ _ (hfront.subset hmem)

/-- No stub lies below another one. -/
theorem placeOf_eq_of_front (h : HasPlainNames anchor extension) (h' : HasPlainNames other ending)
    {tree : FileTree}
    (hfront : tree.placeOf (stubPath outputDir anchor extension) <+:
      tree.placeOf (stubPath outputDir other ending)) :
    tree.placeOf (stubPath outputDir anchor extension) =
      tree.placeOf (stubPath outputDir other ending) := by
  rw [placeOf_stubPath h, placeOf_stubPath h'] at hfront ⊢
  refine (List.prefix_concat_iff.1 hfront).resolve_right fun hinner => ?_
  rw [List.append_assoc, List.prefix_append_right_inj] at hinner
  have hmem : stubFile anchor extension ∈ packageSegments other.package :=
    hinner.subset (List.mem_append_right _ (List.mem_singleton_self _))
  exact stubFile_notMem_packageSegments _ _ _ hmem

end Places

/-- A stub fits below an output directory: it is that of an anchor, it can be written, and the
path of the output directory does not lead through it. -/
inductive Fits (outputDir : Path) (tree : FileTree) : Stub → Prop
  /-- The stub of an anchor. -/
  | mk {anchor : Anchor} {extension : String} (text : String)
      (writable : IsWritable outputDir anchor extension)
      (room : HasRoom outputDir anchor extension tree)
      (aside : tree.placeOf (stubPath outputDir anchor extension) ∉ tree.waypoints outputDir) :
      Fits outputDir tree ⟨stubPath outputDir anchor extension, text⟩

/-- The text of the last one of some stubs that stands at a place. -/
def textAt? (tree : FileTree) : List Stub → Location → Option String
  | [], _ => none
  | stub :: stubs, location =>
      (textAt? tree stubs location).or
        (if location = tree.placeOf stub.path then some stub.text else none)

/-- A place lies below an output directory on the way to one of some stubs. -/
def OnWay (outputDir : Path) (tree : FileTree) (stubs : List Stub) (location : Location) : Prop :=
  tree.placeOf outputDir <+: location ∧
    ∃ stub ∈ stubs, location <+: tree.placeOf stub.path

instance (outputDir : Path) (tree : FileTree) (stubs : List Stub) (location : Location) :
    Decidable (OnWay outputDir tree stubs location) :=
  inferInstanceAs (Decidable (_ ∧ _))

/-- What is at a place after stubs were written. -/
def entryAfter (outputDir : Path) (tree : FileTree) (stubs : List Stub) (location : Location) :
    Option Entry :=
  match textAt? tree stubs location with
  | some text => some (.text text)
  | none =>
      if OnWay outputDir tree stubs location then some .directory else tree.get? location

theorem textAt?_congr {tree other : FileTree} (h : other.here = tree.here) (stubs : List Stub)
    (location : Location) : textAt? other stubs location = textAt? tree stubs location := by
  induction stubs with
  | nil => rfl
  | cons stub stubs ih => rw [textAt?, textAt?, ih, placeOf_congr h]

/-- Where a stub stands there is a text. -/
theorem textAt?_ne_none {tree : FileTree} {stubs : List Stub} {stub : Stub} (h : stub ∈ stubs) :
    textAt? tree stubs (tree.placeOf stub.path) ≠ none := by
  induction stubs with
  | nil => exact absurd h List.not_mem_nil
  | cons first stubs ih =>
    rw [textAt?, ne_eq, Option.or_eq_none_iff, not_and_or]
    rcases List.mem_cons.1 h with rfl | h
    · exact Or.inr (by simp)
    · exact Or.inl (ih h)

theorem onWay_congr {outputDir : Path} {tree other : FileTree} (h : other.here = tree.here)
    {stubs : List Stub} {location : Location} :
    OnWay outputDir other stubs location ↔ OnWay outputDir tree stubs location := by
  simp only [OnWay, placeOf_congr h]

section Series

variable {outputDir : Path} {tree after : FileTree} {stub other : Stub}

theorem entryAfter_singleton (outputDir : Path) (tree : FileTree) (stub : Stub)
    (location : Location) :
    entryAfter outputDir tree [stub] location =
      if location = tree.placeOf stub.path then some (.text stub.text)
      else if tree.placeOf outputDir <+: location ∧ location <+: tree.placeOf stub.path then
        some .directory
      else tree.get? location := by
  unfold entryAfter OnWay textAt? textAt?
  by_cases h : location = tree.placeOf stub.path
  · simp [h]
  · simp [h]

/-- Writing a stub leaves what another one needs. -/
theorem Fits.step (h : Fits outputDir tree stub) (h' : Fits outputDir tree other)
    (hhere : after.here = tree.here)
    (hget : ∀ location, after.get? location = entryAfter outputDir tree [stub] location) :
    Fits outputDir after other := by
  obtain ⟨text, hwritable, hroom, haside⟩ := h
  obtain ⟨text', hwritable', hroom', haside'⟩ := h'
  simp only [entryAfter_singleton] at hget
  refine ⟨text', hwritable', ⟨?_, fun around hfront => ?_, ?_⟩, ?_⟩
  · -- the output directory is still one
    refine isDirectory_congr hroom.directory hhere fun waypoint hmem => ?_
    have hne := ne_of_mem_of_not_mem hmem haside
    rw [hget, if_neg hne]
    split
    · rfl
    · exact get?_of_mem_waypoints hroom.directory hmem
  · -- below it there is a directory or nothing on the way to the file
    rw [placeOf_congr hhere, hget, if_neg (placeOf_ne_around hwritable.plain tree hfront)]
    split
    · exact Or.inr rfl
    · exact hroom'.free around hfront
  · -- no directory stands at the place of the file
    rw [placeOf_congr hhere, ← placeOf_stubPath hwritable'.plain, hget]
    split
    · exact nofun
    · next hne =>
      rw [if_neg]
      · have hfile := hroom'.file
        rwa [← placeOf_stubPath hwritable'.plain] at hfile
      · rintro ⟨-, hfront⟩
        exact hne (placeOf_eq_of_front hwritable'.plain hwritable.plain hfront)
  · -- and that place is still off the way to the output
    rw [placeOf_congr hhere, waypoints_congr hhere]
    exact haside'

theorem onWay_cons {stubs : List Stub} {location : Location} :
    OnWay outputDir tree (stub :: stubs) location ↔
      tree.placeOf outputDir <+: location ∧ location <+: tree.placeOf stub.path ∨
        OnWay outputDir tree stubs location := by
  unfold OnWay
  simp only [List.mem_cons, exists_eq_or_imp]
  exact and_or_left

/-- To write a stub and then others is to write them all. -/
theorem entryAfter_cons {stubs : List Stub} (h : Fits outputDir tree stub)
    (hrest : ∀ other ∈ stubs, Fits outputDir tree other) (hhere : after.here = tree.here)
    (hget : ∀ location, after.get? location = entryAfter outputDir tree [stub] location)
    (location : Location) :
    entryAfter outputDir after stubs location =
      entryAfter outputDir tree (stub :: stubs) location := by
  simp only [entryAfter_singleton] at hget
  simp only [entryAfter, textAt?_congr hhere, onWay_congr hhere, onWay_cons]
  rw [textAt?]
  cases htext : textAt? tree stubs location with
  | some text => rfl
  | none =>
    rw [Option.none_or]
    by_cases hplace : location = tree.placeOf stub.path
    · -- None of the other stubs lies below this one, so its file is no directory.
      have hnot : ¬ OnWay outputDir tree stubs location := by
        rintro ⟨-, other, hmem, hfront⟩
        have hothers : textAt? tree stubs (tree.placeOf other.path) ≠ none := textAt?_ne_none hmem
        have hother := hrest other hmem
        obtain ⟨text, hwritable, -, -⟩ := h
        obtain ⟨text', hwritable', -, -⟩ := hother
        rw [hplace] at hfront
        have heq := placeOf_eq_of_front hwritable.plain hwritable'.plain hfront
        exact hothers (by rw [← heq, ← hplace, htext])
      rw [if_neg hnot, hget, if_pos hplace, if_pos hplace]
    · rw [hget, if_neg hplace, if_neg hplace]
      by_cases hothers : OnWay outputDir tree stubs location
      · simp [hothers]
      · simp [hothers]

/-- **Stubs that are written one after the other** stand at their places, of two at one place
the later one.  The directories on the way to them are there, and everything else is as it
was. -/
theorem run_mapM_writeStub (hne : outputDir.text ≠ "") (stubs : List Stub)
    (h : ∀ stub ∈ stubs, Fits outputDir tree stub) :
    ∃ after, (stubs.mapM writeStub).run.run tree = (.ok (stubs.map Stub.path), after) ∧
      after.here = tree.here ∧
      ∀ location, after.get? location = entryAfter outputDir tree stubs location := by
  induction stubs generalizing tree with
  | nil => exact ⟨tree, rfl, rfl, fun location => by simp [entryAfter, textAt?, OnWay]⟩
  | cons stub stubs ih =>
    obtain ⟨hfirst, hrest⟩ := List.forall_mem_cons.1 h
    obtain ⟨between, hrun, hhere, hget⟩ : ∃ between,
        (writeStub stub).run.run tree = (.ok stub.path, between) ∧ between.here = tree.here ∧
        ∀ location, between.get? location = entryAfter outputDir tree [stub] location := by
      obtain ⟨text, hwritable, hroom, -⟩ := hfirst
      simp only [entryAfter_singleton]
      exact run_writeStub hwritable hroom hne text
    -- the later stubs still fit into the tree that the first one leaves
    obtain ⟨after, hrun', hhere', hget'⟩ := ih fun other hmem =>
      hfirst.step (hrest other hmem) hhere hget
    refine ⟨after, ?_, hhere'.trans hhere, fun location => ?_⟩
    · rw [List.mapM_cons, run_bind, hrun]
      dsimp only
      rw [run_bind, hrun']
      rfl
    · rw [hget']
      exact entryAfter_cons hfirst hrest hhere hget location

theorem exists_of_textAt? {stubs : List Stub} {location : Location} {text : String}
    (h : textAt? tree stubs location = some text) :
    ∃ stub ∈ stubs, location = tree.placeOf stub.path ∧ text = stub.text := by
  induction stubs with
  | nil => cases h
  | cons first stubs ih =>
    rw [textAt?, Option.or_eq_some_iff] at h
    rcases h with h | ⟨-, h⟩
    · obtain ⟨stub, hmem, hstub⟩ := ih h
      exact ⟨stub, List.mem_cons_of_mem _ hmem, hstub⟩
    · obtain ⟨hplace, htext⟩ : location = tree.placeOf first.path ∧ first.text = text := by
        simpa using h
      exact ⟨first, List.mem_cons_self, hplace, htext.symm⟩

end Series

/-! ### The output directory -/

/-- What is at a place after an output directory was replaced by stubs: directories on the way
to it and, below it, the stubs with their directories and nothing else. -/
def outputEntry (outputDir : Path) (tree : FileTree) (stubs : List Stub) (location : Location) :
    Option Entry :=
  if location ∈ tree.waypoints outputDir then some .directory
  else if tree.placeOf outputDir <+: location then
    match textAt? tree stubs location with
    | some text => some (.text text)
    | none => if OnWay outputDir tree stubs location then some .directory else none
  else tree.get? location

/-- An output directory can be replaced: it can be removed where it is there, and made, and if
its path did not lead anywhere there is nothing in its place. -/
structure CanReplace (outputDir : Path) (tree : FileTree) : Prop where
  /-- It has a path. -/
  named : outputDir.text ≠ ""
  /-- It can be removed and made. -/
  renew : ((renewDirectory outputDir).run.run tree).1 = .ok ()
  /-- What is in its place was found there. -/
  found : tree.pathExists outputDir = true ∨
    ∀ location, tree.placeOf outputDir <+: location → tree.get? location = none

/-- A stub has its place in an output directory: it is that of an anchor, it can be written, and
the path of the directory does not lead through it. -/
inductive HasPlace (outputDir : Path) (tree : FileTree) : Stub → Prop
  /-- The stub of an anchor. -/
  | mk {anchor : Anchor} {extension : String} (text : String)
      (writable : IsWritable outputDir anchor extension)
      (aside : tree.placeOf (stubPath outputDir anchor extension) ∉ tree.waypoints outputDir) :
      HasPlace outputDir tree ⟨stubPath outputDir anchor extension, text⟩

section Output

variable {outputDir : Path} {tree fresh : FileTree} {stub : Stub} {stubs : List Stub}

theorem front_of_hasPlace (h : HasPlace outputDir tree stub) :
    tree.placeOf outputDir <+: tree.placeOf stub.path := by
  obtain ⟨text, hwritable, -⟩ := h
  rw [placeOf_stubPath hwritable.plain, List.append_assoc]
  exact List.prefix_append _ _

theorem aside_of_hasPlace (h : HasPlace outputDir tree stub) :
    tree.placeOf stub.path ∉ tree.waypoints outputDir := by
  obtain ⟨text, -, haside⟩ := h
  exact haside

/-- In a directory that was renewed there is room. -/
theorem fits_of_hasPlace (h : HasPlace outputDir tree stub) (hhere : fresh.here = tree.here)
    (hdirectory : fresh.isDirectory outputDir = true)
    (hget : ∀ location, fresh.get? location =
      if location ∈ tree.waypoints outputDir then some .directory
      else if tree.placeOf outputDir <+: location then none
      else tree.get? location) : Fits outputDir fresh stub := by
  obtain ⟨text, hwritable, haside⟩ := h
  refine ⟨text, hwritable, ⟨hdirectory, fun around _ => ?_, ?_⟩, ?_⟩
  · rw [placeOf_congr hhere, hget, if_pos (List.prefix_append _ _)]
    split
    · exact Or.inr rfl
    · exact Or.inl rfl
  · rw [placeOf_congr hhere, ← placeOf_stubPath hwritable.plain, hget, if_neg haside, if_pos]
    · exact nofun
    · rw [placeOf_stubPath hwritable.plain, List.append_assoc]
      exact List.prefix_append _ _
  · rw [placeOf_congr hhere, waypoints_congr hhere]
    exact haside

theorem entryAfter_eq_outputEntry (h : ∀ stub ∈ stubs, HasPlace outputDir tree stub)
    (hhere : fresh.here = tree.here)
    (hget : ∀ location, fresh.get? location =
      if location ∈ tree.waypoints outputDir then some .directory
      else if tree.placeOf outputDir <+: location then none
      else tree.get? location) (location : Location) :
    entryAfter outputDir fresh stubs location = outputEntry outputDir tree stubs location := by
  unfold entryAfter outputEntry
  rw [textAt?_congr hhere, hget]
  simp only [onWay_congr hhere]
  -- a stub is written there; else the place is on the way, below the output, or elsewhere
  cases htext : textAt? tree stubs location with
  | some text =>
    obtain ⟨stub, hmem, rfl, rfl⟩ := exists_of_textAt? htext
    have hplace := h stub hmem
    simp only [aside_of_hasPlace hplace, front_of_hasPlace hplace, if_true, if_false]
  | none =>
    by_cases hway : location ∈ tree.waypoints outputDir
    · simp [hway]
    · rw [if_neg hway, if_neg hway]
      by_cases hfront : tree.placeOf outputDir <+: location
      · rw [if_pos hfront, if_pos hfront]
      · have hnot : ¬ OnWay outputDir tree stubs location := fun honWay => hfront honWay.1
        rw [if_neg hfront, if_neg hfront, if_neg hnot]

/-- **An output directory that is replaced** holds the stubs and nothing else, and everything
outside is as it was. -/
theorem run_writeStubs (h : CanReplace outputDir tree)
    (hstubs : ∀ stub ∈ stubs, HasPlace outputDir tree stub) :
    ∃ after, (writeStubs outputDir stubs).run.run tree = (.ok (stubs.map Stub.path), after) ∧
      after.here = tree.here ∧
      ∀ location, after.get? location = outputEntry outputDir tree stubs location := by
  -- whatever stands at the output, it is renewed, and the stubs are written afterwards
  have hsteps : writeStubs outputDir stubs =
      renewDirectory outputDir >>= fun _ => stubs.mapM writeStub := by
    rw [writeStubs, renewDirectory, bind_assoc]
    congr 1
    funext start
    split <;> simp
  have hok := h.renew
  rcases hrun : (renewDirectory outputDir).run.run tree with ⟨error | _, fresh⟩
  · rw [hrun] at hok
    cases hok
  · obtain ⟨hhere, hdirectory, hget⟩ := get?_of_renewDirectory hrun h.named h.found
    obtain ⟨after, hrun', hhere', hget'⟩ := run_mapM_writeStub h.named stubs fun stub hmem =>
      fits_of_hasPlace (hstubs stub hmem) hhere hdirectory hget
    refine ⟨after, ?_, hhere'.trans hhere, fun location => ?_⟩
    · rw [hsteps, run_bind, hrun]
      exact hrun'
    · rw [hget']
      exact entryAfter_eq_outputEntry hstubs hhere hget location

end Output

end RpcBinder
