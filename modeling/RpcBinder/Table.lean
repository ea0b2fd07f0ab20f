/-!
# Tables in order of first insertion

A table lists its keys in the order in which they were first given.  A new value for a key
that is already there takes the old one's place.

## Main definitions

* `Table`, `Table.get?`, `Table.insert`, `Table.alter`, `Table.keys` — tables.
* `addNew` — a list without repetition, with one more element.
-/

namespace RpcBinder

/-- The list with `x` at its end, unless it is there already. -/
def addNew {α : Type} [BEq α] (x : α) (xs : List α) : List α :=
  if xs.contains x then xs else xs ++ [x]

theorem mem_addNew {α : Type} [BEq α] [LawfulBEq α] {x y : α} {xs : List α} :
    y ∈ addNew x xs ↔ y ∈ xs ∨ y = x := by
  unfold addNew
  split
  · next h => exact ⟨Or.inl, fun h' => h'.elim id fun e => e ▸ by simpa using h⟩
  · simp

/-- A table from `α` to `β`. -/
structure Table (α β : Type) where
  /-- The keys with their values, in order of first insertion. -/
  entries : List (α × β)
  deriving DecidableEq, Repr

namespace Table

variable {α β : Type} [BEq α]

/-- The table without entries. -/
def empty : Table α β := ⟨[]⟩

/-- The value of a key. -/
def get? (table : Table α β) (key : α) : Option β :=
  table.entries.lookup key

/-- The keys, in order of first insertion. -/
def keys (table : Table α β) : List α :=
  table.entries.map Prod.fst

/-- The number of keys. -/
def size (table : Table α β) : Nat :=
  table.entries.length

/-- The entries after the value of `key` has become what `f` makes of it. -/
def alterEntries (key : α) (f : Option β → β) : List (α × β) → List (α × β)
  | [] => [(key, f none)]
  | (k, value) :: rest =>
      if key == k then (k, f (some value)) :: rest else (k, value) :: alterEntries key f rest

/-- The table in which the value of `key` is what `f` makes of the old one. -/
def alter (table : Table α β) (key : α) (f : Option β → β) : Table α β :=
  ⟨alterEntries key f table.entries⟩

/-- The table in which `key` has the value `value`. -/
def insert (table : Table α β) (key : α) (value : β) : Table α β :=
  table.alter key fun _ => value

/-- The table of a list of keys with values; of two values for a key the later one stays. -/
def ofList (entries : List (α × β)) : Table α β :=
  entries.foldl (fun table entry => table.insert entry.1 entry.2) empty

/-- Altering a key changes its value and no other. -/
theorem get?_alter [LawfulBEq α] (table : Table α β) (key : α) (f : Option β → β) (other : α) :
    (table.alter key f).get? other =
      if other == key then some (f (table.get? key)) else table.get? other := by
  obtain ⟨entries⟩ := table
  simp only [alter, get?]
  induction entries with
  | nil =>
    by_cases h : other == key <;> simp [alterEntries, List.lookup_cons, h]
  | cons entry rest ih =>
    obtain ⟨k, value⟩ := entry
    by_cases hk : key == k
    · obtain rfl := eq_of_beq hk
      by_cases h : other == key <;> simp [alterEntries, List.lookup_cons, h]
    · simp only [alterEntries, hk, Bool.false_eq_true, if_false, List.lookup_cons]
      by_cases h : other == k
      · obtain rfl := eq_of_beq h
        have : (other == key) = false := by
          rw [← Bool.not_eq_true]
          exact fun e => hk (by simpa using (eq_of_beq e).symm)
        simp [this]
      · simp only [h, ih]

/-- Altering a key keeps the keys, and adds this one at the end if it is new. -/
theorem keys_alter [LawfulBEq α] (table : Table α β) (key : α) (f : Option β → β) :
    (table.alter key f).keys = addNew key table.keys := by
  obtain ⟨entries⟩ := table
  simp only [alter, keys]
  induction entries with
  | nil => simp [alterEntries, addNew]
  | cons entry rest ih =>
    obtain ⟨k, value⟩ := entry
    by_cases hk : key == k
    · simp [alterEntries, addNew, hk]
    · simp only [alterEntries, hk, Bool.false_eq_true, if_false, List.map_cons, ih]
      unfold addNew
      simp only [List.contains_cons, hk, Bool.false_or]
      split <;> simp

end Table

end RpcBinder
