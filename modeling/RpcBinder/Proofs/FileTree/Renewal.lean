import RpcBinder.Proofs.FileTree.Action

/-!
# Directories that are renewed

A directory is renewed by removing it and making it again.  Removing it empties it first, and
that may take away what its own path leads through, so it can fail half-way without telling; but
then the place is empty, too.  What is not found is not removed: a path that leads out of a
missing directory finds nothing now and what lies at its end later, so the theorem asks that
there was nothing.

## Main definitions

* `renewDirectory` — removing a directory where there is one, and making it again.

## Main results

* `get?_of_removeDirectory` — a removed directory is empty, and nothing else has changed.
* `get?_of_renewDirectory` — a renewed directory holds what its path leads through, and no more.
-/

namespace RpcBinder.FileAction

open FileTree

/-! ### Removing a directory -/

theorem entryAt_of_removeDirectory {path : Path} {tree after : FileTree}
    (h : (removeDirectory path).run.run tree = (.ok (), after)) :
    tree.entryAt path = .ok .directory := by
  rw [removeDirectory, run_bind, run_query] at h
  cases hentry : tree.entryAt path with
  | error error => rw [hentry] at h; cases h
  | ok entry =>
    rw [hentry] at h
    cases entry with
    | directory => rfl
    | text content => cases h
    | binary bytes => cases h

/-- A directory that is removed is emptied first, and is gone at the end unless its path led
through what was in it. -/
theorem eq_of_removeDirectory {path : Path} {tree after : FileTree}
    (h : (removeDirectory path).run.run tree = (.ok (), after)) :
    after = tree.clear (tree.placeOf path) ∨
      after = (tree.clear (tree.placeOf path)).erase (tree.placeOf path) := by
  have hentry := entryAt_of_removeDirectory h
  obtain ⟨hcheck, hwalk, -⟩ := isDirectory_iff.1 (isDirectory_eq_true_iff.2 hentry)
  have hlocate : tree.locate path = .ok (tree.placeOf path) := locate_eq_ok_iff.2 ⟨hcheck, hwalk⟩
  rw [removeDirectory, run_bind, run_query, hentry] at h
  simp only [bne_self_eq_false, Bool.false_eq_true, if_false] at h
  rw [run_bind, run_query, hlocate] at h
  dsimp only at h
  rw [run_bind, run_modify] at h
  dsimp only at h
  rw [run_get] at h
  split at h
  · cases h
    exact Or.inl rfl
  · cases h
  · cases h
  · cases h
  · cases h
    exact Or.inr rfl

/-- Nothing is left below a directory that was removed, and nothing else has changed. -/
theorem get?_of_removeDirectory {path : Path} {tree after : FileTree}
    (h : (removeDirectory path).run.run tree = (.ok (), after)) :
    after.here = tree.here ∧ ∀ location, location ≠ tree.placeOf path → after.get? location =
      if tree.placeOf path <+: location then none else tree.get? location := by
  rcases eq_of_removeDirectory h with rfl | rfl
  · refine ⟨rfl, fun location hne => ?_⟩
    rw [get?_clear]
    simp only [hne, ne_eq, not_false_eq_true, and_true]
  · refine ⟨rfl, fun location hne => ?_⟩
    by_cases hroot : location = []
    · subst hroot
      have hnot : ¬ tree.placeOf path <+: [] := fun hfront => hne (List.prefix_nil.1 hfront).symm
      rw [if_neg hnot, get?_nil, get?_nil]
    · rw [get?_erase _ _ hroot, get?_clear]
      split
      · rfl
      · next hnot => rw [if_neg fun hboth => hnot hboth.1]

/-! ### Making it again -/

/-- Removes a directory where there is one, and makes it again. -/
def renewDirectory (path : Path) : FileAction Unit := do
  if (← get).pathExists path then removeDirectory path
  makeDirectories path

theorem run_renewDirectory (path : Path) (tree : FileTree) :
    (renewDirectory path).run.run tree =
      if tree.pathExists path then
        (removeDirectory path >>= fun _ => makeDirectories path).run.run tree
      else (makeDirectories path).run.run tree := by
  rw [renewDirectory, run_get]
  split <;> rfl

/-- A directory that is renewed holds nothing but what its own path leads through, and
everything outside is as it was.  If the path did not lead anywhere before, there must have
been nothing at the place that it leads to now. -/
theorem get?_of_renewDirectory {path : Path} {tree after : FileTree}
    (h : (renewDirectory path).run.run tree = (.ok (), after)) (hne : path.text ≠ "")
    (hfree : tree.pathExists path = true ∨
      ∀ location, tree.placeOf path <+: location → tree.get? location = none) :
    after.here = tree.here ∧ after.isDirectory path = true ∧
      ∀ location, after.get? location =
        if location ∈ tree.waypoints path then some .directory
        else if tree.placeOf path <+: location then none
        else tree.get? location := by
  rw [run_renewDirectory] at h
  split at h
  · -- the old directory is removed, and made again with those around it
    rw [run_bind] at h
    rcases hremove : (removeDirectory path).run.run tree with ⟨error | _, between⟩
    · rw [hremove] at h
      cases h
    · rw [hremove] at h
      obtain ⟨hhere, hget⟩ := get?_of_removeDirectory hremove
      obtain ⟨hhere', hdirectory, hget'⟩ := get?_of_makeDirectories h hne
      refine ⟨hhere'.trans hhere, hdirectory, fun location => ?_⟩
      rw [hget', waypoints_congr hhere]
      split
      · rfl
      · next hnot =>
        refine hget location fun heq => hnot ?_
        rw [heq]
        exact placeOf_mem_waypoints tree path
  · next hmissing =>
    -- the path leads to nothing, and then nothing stands at its place either
    obtain ⟨hhere, hdirectory, hget⟩ := get?_of_makeDirectories h hne
    refine ⟨hhere, hdirectory, fun location => ?_⟩
    rw [hget]
    split
    · rfl
    · split
      · next hfront => exact hfree.resolve_left hmissing location hfront
      · rfl

end RpcBinder.FileAction
