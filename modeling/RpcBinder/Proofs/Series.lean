import RpcBinder.Proofs.Text.Parts

/-!
# Series of computations that may fail

A series of computations stops at the first one that fails.  So its error is the first of all
errors in a row, and without any there are all results.

## Main definitions

* `errorOf?` — the error of a computation.
* `unlessFailed` — the first of some errors, or else a result.

## Main results

* `mapM_eq` — a series of computations fails with its first error.
* `errorOf?_mapM` — the same where the errors of each computation are known as a list.
* `mapM_eq_some`, `foldlM_eq_some` — without any failure a series gives what its members give.
-/

namespace RpcBinder

section Series

variable {α β ε : Type}

/-- The error of a computation that fails. -/
def errorOf? : Except ε α → Option ε
  | .error error => some error
  | .ok _ => none

/-- The first of some errors, or a result if there are none. -/
def unlessFailed : List ε → α → Except ε α
  | error :: _, _ => .error error
  | [], result => .ok result

/-- A series of computations fails with the first error, or gives all results in order. -/
theorem mapM_eq (f : α → Except ε β) (xs : List α) :
    xs.mapM f = unlessFailed (xs.filterMap fun x => errorOf? (f x))
      (xs.filterMap fun x => (f x).toOption) := by
  induction xs with
  | nil => rfl
  | cons x xs ih =>
    rw [List.mapM_cons, ih]
    -- the first error is the result, whatever comes later
    cases hx : f x with
    | error error =>
      have hfirst : errorOf? (f x) = some error := by rw [hx]; rfl
      rw [List.filterMap_cons_some (f := fun x => errorOf? (f x)) hfirst]
      rfl
    | ok y =>
      have hfirst : errorOf? (f x) = none := by rw [hx]; rfl
      have hsecond : (f x).toOption = some y := by rw [hx]; rfl
      rw [List.filterMap_cons_none (f := fun x => errorOf? (f x)) hfirst,
        List.filterMap_cons_some (f := fun x => (f x).toOption) hsecond]
      cases xs.filterMap fun x => errorOf? (f x) <;> rfl

@[simp] theorem errorOf?_ok (a : α) : errorOf? (.ok a : Except ε α) = none := rfl

@[simp] theorem errorOf?_error (error : ε) : errorOf? (.error error : Except ε α) = some error :=
  rfl

theorem errorOf?_eq_some {x : Except ε α} {error : ε} :
    errorOf? x = some error ↔ x = .error error := by
  cases x <;> simp

theorem errorOf?_eq_none {x : Except ε α} : errorOf? x = none ↔ ∃ a, x = .ok a := by
  cases x <;> simp

theorem errorOf?_unlessFailed (errors : List ε) (a : α) :
    errorOf? (unlessFailed errors a) = errors.head? := by
  cases errors <;> rfl

/-- What is done with a result does not matter for the error, if it cannot fail. -/
@[simp] theorem errorOf?_bind_ok (x : Except ε α) (f : α → β) :
    errorOf? (x >>= fun a => .ok (f a)) = errorOf? x := by
  cases x <;> rfl

theorem errorOf?_mapError {ε' : Type} (f : ε → ε') (x : Except ε α) :
    errorOf? (x.mapError f) = (errorOf? x).map f := by
  cases x <;> rfl

theorem of_mapError_eq_ok {ε' : Type} {f : ε → ε'} {x : Except ε α} {a : α}
    (h : x.mapError f = .ok a) : x = .ok a := by
  cases x with
  | error e => cases h
  | ok b =>
    obtain rfl := Except.ok.inj h
    rfl

/-- A series fails with the first computation that fails. -/
theorem mapM_append_cons_eq_error {f : α → Except ε β} {before after : List α} {x : α} {error : ε}
    (hbefore : ∀ earlier ∈ before, ∃ b, f earlier = .ok b) (hx : f x = .error error) :
    (before ++ x :: after).mapM f = .error error := by
  induction before with
  | nil =>
    rw [List.nil_append, List.mapM_cons, hx]
    rfl
  | cons earlier before ih =>
    obtain ⟨⟨b, hb⟩, hbefore⟩ := List.forall_mem_cons.1 hbefore
    rw [List.cons_append, List.mapM_cons, hb, ih hbefore]
    rfl

/-- The first error of a series is the first of all errors, if those of each computation are
given in order. -/
theorem errorOf?_mapM {f : α → Except ε β} {errors : α → List ε}
    (h : ∀ x, errorOf? (f x) = (errors x).head?) (xs : List α) :
    errorOf? (xs.mapM f) = (xs.flatMap errors).head? := by
  induction xs with
  | nil => rfl
  | cons x xs ih =>
    rw [List.mapM_cons, List.flatMap_cons, List.head?_append, ← h, ← ih]
    cases f x with
    | error error => rfl
    | ok y => cases xs.mapM f <;> rfl

/-! ### Computations of which none fails -/

theorem mapM_eq_some {f : α → Option β} {g : α → β} {xs : List α}
    (h : ∀ x ∈ xs, f x = some (g x)) : xs.mapM f = some (xs.map g) := by
  induction xs with
  | nil => rfl
  | cons x xs ih =>
    obtain ⟨hx, hxs⟩ := List.forall_mem_cons.1 h
    rw [List.mapM_cons, hx, ih hxs]
    rfl

theorem foldlM_eq_some {f : β → α → Option β} {g : β → α → β} {xs : List α}
    (h : ∀ x ∈ xs, ∀ b, f b x = some (g b x)) (b : β) :
    xs.foldlM f b = some (xs.foldl g b) := by
  induction xs generalizing b with
  | nil => rfl
  | cons x xs ih =>
    obtain ⟨hx, hxs⟩ := List.forall_mem_cons.1 h
    rw [List.foldlM_cons, hx, List.foldl_cons]
    exact ih hxs (g b x)

end Series

end RpcBinder
