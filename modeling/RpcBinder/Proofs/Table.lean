import Mathlib.Data.List.Induction
import Mathlib.Data.List.Nodup
import RpcBinder.Table

/-!
# Tables of lists

A table that is filled from a list has the keys of the list in order of their first occurrence, and
each of them has its last value.

## Main results

* `Table.keys_ofList`, `Table.nodup_keys_ofList` — the keys.
* `Table.get?_ofList` — the values.
-/

namespace RpcBinder

variable {α β : Type} [BEq α] [LawfulBEq α]

theorem nodup_addNew {x : α} {xs : List α} (h : xs.Nodup) : (addNew x xs).Nodup := by
  unfold addNew
  split
  · exact h
  · next hnew =>
    have hnew : x ∉ xs := by simpa using hnew
    rw [← List.concat_eq_append]
    exact h.concat hnew

/-- One more element is new or erased. -/
theorem eraseDups_concat (xs : List α) (x : α) :
    (xs ++ [x]).eraseDups = addNew x xs.eraseDups := by
  rw [List.eraseDups_append, addNew]
  by_cases h : x ∈ xs
  · -- the element is there already, and nothing is left of the rest
    simp [List.removeAll, h]
  · simp [List.removeAll, List.eraseDups_cons, h]

theorem nodup_eraseDups (xs : List α) : xs.eraseDups.Nodup := by
  induction xs using List.reverseRecOn with
  | nil => exact List.nodup_nil
  | append_singleton xs x ih =>
    rw [eraseDups_concat]
    exact nodup_addNew ih

namespace Table

/-- The keys of a list stand in order of their first occurrence. -/
theorem keys_ofList (entries : List (α × β)) :
    (ofList entries).keys = (entries.map Prod.fst).eraseDups := by
  unfold ofList
  induction entries using List.reverseRecOn with
  | nil => rfl
  | append_singleton entries entry ih =>
    rw [List.foldl_append, List.foldl_cons, List.foldl_nil, insert, keys_alter, ih,
      List.map_append, List.map_singleton, eraseDups_concat]

theorem nodup_keys_ofList (entries : List (α × β)) : (ofList entries).keys.Nodup := by
  rw [keys_ofList]
  exact nodup_eraseDups _

/-- Of several values of a key the last one stays. -/
theorem get?_ofList (entries : List (α × β)) (key : α) :
    (ofList entries).get? key =
      (entries.reverse.find? fun entry => entry.1 == key).map Prod.snd := by
  unfold ofList
  induction entries using List.reverseRecOn with
  | nil => rfl
  | append_singleton entries entry ih =>
    rw [List.foldl_append, List.foldl_cons, List.foldl_nil, insert, get?_alter, ih,
      List.reverse_append, List.reverse_singleton, List.singleton_append, List.find?_cons]
    -- the last entry with the key is the one that counts
    by_cases h : entry.1 = key
    · simp [h]
    · have hkey : (key == entry.1) = false := by simpa using Ne.symm h
      have hentry : (entry.1 == key) = false := by simpa using h
      rw [hkey, hentry]
      rfl

end Table

end RpcBinder
