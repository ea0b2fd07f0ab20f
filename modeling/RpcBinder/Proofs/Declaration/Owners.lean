import RpcBinder.Declaration.Service
import RpcBinder.Proofs.Pattern.Finds

/-!
# Methods and the headers that they belong to

The owner of a method is counted by the headers that begin in front of it, and the methods of a
header are those that carry its number.  Numbering the groups of a list of lists and collecting
each number again gives the groups back.

## Main definitions

* `ownerAmong` — the number of the header, by the bytes that are left at each begin.
* `numbered` — the members of groups with the numbers of their groups.

## Main results

* `ownerOf_eq_ownerAmong`, `ownerAmong_append` — the owner of a method.
* `map_members_numbered` — collecting the members of each number.
-/

namespace RpcBinder.Declaration

/-! ### Owners -/

/-- The number of the last begin with no fewer bytes left, or of the first. -/
def ownerAmong (starts : List Nat) (left : Nat) : Nat :=
  (starts.takeWhile fun start => left ≤ start).length - 1

theorem ownerOf_eq_ownerAmong (headers : List (Match Part)) (place : Cursor) :
    ownerOf headers place = ownerAmong (headers.map (·.start.left)) place.left := by
  unfold ownerOf ownerAmong
  rw [List.takeWhile_map, List.length_map]
  rfl

/-- The owner is the last of the headers that no fewer bytes are left at. -/
theorem ownerAmong_append_of_lt {before after : List Nat} {left : Nat}
    (hbefore : ∀ earlier ∈ before, left ≤ earlier) (hafter : ∀ later ∈ after.head?, later < left) :
    ownerAmong (before ++ after) left = before.length - 1 := by
  unfold ownerAmong
  rw [takeWhile_append_eq (by simpa using hbefore) (by simpa using hafter)]

/-- The last header in front of a place is its owner. -/
theorem ownerAmong_append {before after : List Nat} {start left : Nat}
    (hbefore : ∀ earlier ∈ before, left ≤ earlier) (hstart : left ≤ start)
    (hafter : ∀ later ∈ after.head?, later < left) :
    ownerAmong (before ++ start :: after) left = before.length := by
  have howners : ∀ earlier ∈ before ++ [start], left ≤ earlier := by
    simpa [or_imp, forall_and] using ⟨hbefore, hstart⟩
  have howner := ownerAmong_append_of_lt howners hafter
  simpa using howner

/-! ### Groups -/

/-- The members of groups, each with the number of its group. -/
def numbered {α : Type} : Nat → List (List α) → List (Nat × α)
  | _, [] => []
  | number, group :: groups => group.map (fun a => (number, a)) ++ numbered (number + 1) groups

variable {α : Type}

theorem le_of_mem_numbered {groups : List (List α)} {number : Nat} {member : Nat × α}
    (h : member ∈ numbered number groups) : number ≤ member.1 := by
  induction groups generalizing number with
  | nil => simp [numbered] at h
  | cons group groups ih =>
    rw [numbered, List.mem_append] at h
    rcases h with h | h
    · obtain ⟨a, -, rfl⟩ := List.mem_map.1 h
      exact Nat.le_refl number
    · have := ih h
      omega

/-- The members with a number, in order. -/
def members (number : Nat) (all : List (Nat × α)) : List α :=
  (all.filter (·.1 == number)).map (·.2)

theorem members_numbered_self (number : Nat) (group : List α) (groups : List (List α)) :
    members number (numbered number (group :: groups)) = group := by
  have hothers : (numbered (number + 1) groups).filter (·.1 == number) = [] := by
    refine List.filter_eq_nil_iff.2 fun member hmem => ?_
    have := le_of_mem_numbered hmem
    rw [beq_iff_eq]
    omega
  unfold members
  rw [numbered, List.filter_append, hothers, List.append_nil]
  simp [List.filter_map, Function.comp_def]

theorem members_numbered_of_lt {number later : Nat} (h : number < later) (group : List α)
    (groups : List (List α)) :
    members later (numbered number (group :: groups)) =
      members later (numbered (number + 1) groups) := by
  have hgroup : (group.map fun a => (number, a)).filter (·.1 == later) = [] := by
    refine List.filter_eq_nil_iff.2 fun member hmem => ?_
    obtain ⟨a, -, rfl⟩ := List.mem_map.1 hmem
    rw [beq_iff_eq]
    exact Nat.ne_of_lt h
  unfold members
  rw [numbered, List.filter_append, hgroup, List.nil_append]

/-- **Collecting the members of each number gives the groups back.** -/
theorem map_members_numbered {β γ : Type} {headers : List β} {groups : List (List α)}
    (hlength : headers.length = groups.length) (number : Nat) (f : β → List α → γ) :
    (headers.zipIdx number).map (fun header =>
      f header.1 (members header.2 (numbered number groups))) = List.zipWith f headers groups := by
  induction groups generalizing headers number with
  | nil =>
    rw [List.length_nil, List.length_eq_zero_iff] at hlength
    subst hlength
    rfl
  | cons group groups ih =>
    cases headers with
    | nil => simp at hlength
    | cons header headers =>
      -- the first group is for this header, and for none of the later numbers
      have hrest := ih (by simpa using hlength) (number + 1)
      rw [List.zipIdx_cons, List.map_cons, members_numbered_self, List.zipWith_cons_cons, ← hrest]
      congr 1
      refine List.map_congr_left fun later hmem => ?_
      rw [members_numbered_of_lt (List.le_snd_of_mem_zipIdx hmem)]

end RpcBinder.Declaration
