import RpcBinder.Proofs.Declaration.TypeText
import RpcBinder.Proofs.Table
import RpcBinder.Scope.Basic

/-!
# Imports in a scope

An import names one type, all of a package, or one type under another name.  A scope records each of
them in a list of its own: types and packages in order of their first occurrence, and of two types
under one name the later one, at the place of the earlier one.

## Main definitions

* `ImportTarget` — what an import names.
* `ImportTarget.record` — the scope with one more import.

## Main results

* `ImportTarget.foldl_record` — **the scope of a list of imports.**
-/

namespace RpcBinder

open Declaration

/-- What an import names. -/
inductive ImportTarget
  /-- A type. -/
  | single (path : List Char)
  /-- All of a package. -/
  | whole (path : List Char)
  /-- A type under another name. -/
  | renamed (path name : List Char)

namespace ImportTarget

/-- The path of an import. -/
def path : ImportTarget → List Char
  | .single path => path
  | .whole path => path
  | .renamed path _ => path

/-- The path as it is written. -/
def written : ImportTarget → List Char
  | .single path => path
  | .whole path => path ++ ".*".toList
  | .renamed path _ => path

/-- The other name, if there is one. -/
def name? : ImportTarget → Option (List Char)
  | .single _ => none
  | .whole _ => none
  | .renamed _ name => some name

/-- The path has word characters and dots, and the other name word characters. -/
structure IsWellFormed (target : ImportTarget) : Prop where
  path : IsDottedName target.path
  name : ∀ name ∈ target.name?, IsIdentifier name

/-- The type that is imported under its own name. -/
def explicit? : ImportTarget → Option String
  | .single path => some (String.ofList path)
  | .whole _ => none
  | .renamed _ _ => none

/-- The package of which everything is imported. -/
def wildcard? : ImportTarget → Option String
  | .single _ => none
  | .whole path => some (String.ofList path)
  | .renamed _ _ => none

/-- The other name, and the type that is imported under it. -/
def alias? : ImportTarget → Option (String × String)
  | .single _ => none
  | .whole _ => none
  | .renamed path name => some (String.ofList name, String.ofList path)

/-- The scope with one more import. -/
def record (scope : Scope) (target : ImportTarget) : Scope :=
  scope.recordImport (String.ofList target.written) (target.name?.map String.ofList)

variable {target : ImportTarget}

/-- An import under its own name. -/
theorem recordImport_none {path : List Char} (hsolid : IsSolid path) (scope : Scope) :
    scope.recordImport (String.ofList path) none =
      match ".*".toList.isSuffixOf? path with
      | some package =>
          { scope with wildcards := addNew (String.ofList package) scope.wildcards }
      | none => { scope with explicit := addNew (String.ofList path) scope.explicit } := by
  have hempty : path.isEmpty = false := by simpa using hsolid.ne_nil
  rw [Scope.recordImport]
  simp only [String.toList_ofList, trim_of_isSolid hsolid, hempty]
  rfl

theorem record_single {path : List Char} (h : IsDottedName path) (scope : Scope) :
    record scope (.single path) =
      { scope with explicit := addNew (String.ofList path) scope.explicit } := by
  have hsolid : IsSolid path :=
    isSolid_of_forall h.ne_nil fun c hc => isSpace_of_isDottedWord (h.forall_char c hc)
  have hsuffix : ".*".toList.isSuffixOf? path = none := by
    rw [Option.eq_none_iff_forall_not_mem]
    intro front hfront
    have heq : front ++ ".*".toList = path := List.isSuffixOf?_eq_some_iff_append_eq.1 hfront
    have hstar : '*' ∈ path := heq ▸ List.mem_append_right _ (by decide)
    exact h.notMem (by decide +kernel) hstar
  exact (recordImport_none hsolid scope).trans (by rw [hsuffix])

theorem record_whole {path : List Char} (h : IsDottedName path) (scope : Scope) :
    record scope (.whole path) =
      { scope with wildcards := addNew (String.ofList path) scope.wildcards } := by
  have hsolid : IsSolid (path ++ ".*".toList) := by
    refine isSolid_of_forall (by simp [h.ne_nil]) fun c hc => ?_
    rcases List.mem_append.1 hc with hc | hc
    · exact isSpace_of_isDottedWord (h.forall_char c hc)
    · have hmark : ∀ c ∈ ".*".toList, isSpace c = false := by simp; decide
      exact hmark c hc
  have hsuffix : ".*".toList.isSuffixOf? (path ++ ".*".toList) = some path :=
    List.isSuffixOf?_eq_some_iff_append_eq.2 rfl
  exact (recordImport_none hsolid scope).trans (by rw [hsuffix])

theorem record_renamed {path name : List Char} (h : IsDottedName path) (hname : IsIdentifier name)
    (scope : Scope) :
    record scope (.renamed path name) =
      { scope with
        aliases := scope.aliases.insert (String.ofList name) (String.ofList path) } := by
  have hpath : trim path = path := trim_of_isSolid (isSolid_of_forall h.ne_nil fun c hc =>
    isSpace_of_isDottedWord (h.forall_char c hc))
  have halias : trim name = name := trim_of_isSolid (isSolid_of_forall hname.ne_nil fun c hc =>
    isSpace_of_isWord (hname.forall_char c hc))
  simp [record, written, name?, Scope.recordImport, hpath, halias, h.ne_nil, hname.ne_nil]

/-- The scope that a package and imports make up. -/
def scopeOfAll (package : String) (targets : List ImportTarget) : Scope where
  package := package
  explicit := (targets.filterMap explicit?).eraseDups
  wildcards := (targets.filterMap wildcard?).eraseDups
  aliases := Table.ofList (targets.filterMap alias?)

theorem ofList_concat {α β : Type} [BEq α] (entries : List (α × β)) (key : α) (value : β) :
    Table.ofList (entries ++ [(key, value)]) = (Table.ofList entries).insert key value := by
  rw [Table.ofList, List.foldl_append]
  rfl

/-- **The scope of a list of imports**: each of them is in exactly one of its lists. -/
theorem foldl_record (package : String) {targets : List ImportTarget}
    (h : ∀ target ∈ targets, target.IsWellFormed) :
    targets.foldl record { package := package } = scopeOfAll package targets := by
  induction targets using List.reverseRecOn with
  | nil => rfl
  | append_singleton targets target ih =>
    have htargets : ∀ target ∈ targets, target.IsWellFormed :=
      fun target hmem => h target (List.mem_append_left _ hmem)
    obtain ⟨hpath, hname⟩ := h target (List.mem_append_right _ (List.mem_singleton_self target))
    -- the last import is recorded behind what the others amount to
    rw [List.foldl_append, ih htargets, List.foldl_cons, List.foldl_nil]
    cases target with
    | single path =>
      rw [record_single (show IsDottedName path from hpath)]
      simp [scopeOfAll, List.filterMap_cons, explicit?, wildcard?, alias?, eraseDups_concat]
    | whole path =>
      rw [record_whole (show IsDottedName path from hpath)]
      simp [scopeOfAll, List.filterMap_cons, explicit?, wildcard?, alias?, eraseDups_concat]
    | renamed path name =>
      rw [record_renamed (show IsDottedName path from hpath) (hname name rfl)]
      simp [scopeOfAll, List.filterMap_cons, explicit?, wildcard?, alias?, ofList_concat]

end ImportTarget

end RpcBinder
