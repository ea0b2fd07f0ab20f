import Mathlib.Data.List.Lex
import RpcBinder.Path

/-!
# The order of paths

Paths are compared by their components, up to the first difference.  Of two components the root
comes before the directory itself, this before the directory around, and names come last, in the
order of their characters.

## Main definitions

* `Path.Component.Precedes` — the order of components.
* `Path.Precedes` — the order of paths, lexicographic in their components.

## Main results

* `Path.Precedes.trans`, `Path.Precedes.asymm`, `Path.precedes_or_precedes` — it is a total order
  of component sequences.
* `Path.le_iff` — the comparison of paths is this order.
-/

namespace RpcBinder.Path

/-! ### Components -/

namespace Component

/-- Where the kind of a component stands among the kinds. -/
def rank : Component → Nat
  | .root => 0
  | .current => 1
  | .parent => 2
  | .named _ => 3

/-- The first component comes before the second: its kind does, or both are names and the first
one does. -/
inductive Precedes : Component → Component → Prop
  /-- The kinds differ. -/
  | kind {a b : Component} (h : a.rank < b.rank) : Precedes a b
  /-- Both are names. -/
  | name {a b : String} (h : a < b) : Precedes (.named a) (.named b)

variable {a b c : Component}

theorem Precedes.rank_le (h : a.Precedes b) : a.rank ≤ b.rank := by
  cases h with
  | kind h => exact Nat.le_of_lt h
  | name h => exact Nat.le_refl _

theorem Precedes.trans (hab : a.Precedes b) (hbc : b.Precedes c) : a.Precedes c := by
  cases hab with
  | kind hab => exact .kind (Nat.lt_of_lt_of_le hab hbc.rank_le)
  | name hab =>
    cases hbc with
    | kind hbc => exact .kind hbc
    | name hbc => exact .name (String.lt_trans hab hbc)

theorem Precedes.asymm (hab : a.Precedes b) : ¬ b.Precedes a := by
  intro hba
  cases hab with
  | kind hab =>
    have := hba.rank_le
    omega
  | name hab =>
    cases hba with
    | kind hba => exact Nat.lt_irrefl _ hba
    | name hba => exact String.lt_asymm hab hba

/-- Components of the same kind are the same, or both are names. -/
theorem eq_or_named_of_rank_eq (h : a.rank = b.rank) :
    a = b ∨ ∃ x y, a = named x ∧ b = named y := by
  cases a with
  | named x =>
    cases b with
    | named y => exact Or.inr ⟨x, y, rfl, rfl⟩
    | _ => cases h
  | _ => cases b <;> first | exact Or.inl rfl | cases h

/-- Of two different components one comes before the other. -/
theorem precedes_or_precedes (h : a ≠ b) : a.Precedes b ∨ b.Precedes a := by
  rcases Nat.lt_trichotomy a.rank b.rank with hlt | heq | hgt
  · exact Or.inl (.kind hlt)
  · obtain ⟨x, y, rfl, rfl⟩ := (eq_or_named_of_rank_eq heq).resolve_left h
    have hne : x ≠ y := fun heq => h (congrArg named heq)
    rcases String.le_total x y with hle | hle
    · exact Or.inl (.name (String.not_le.1 fun hge => hne (String.le_antisymm hle hge)))
    · exact Or.inr (.name (String.not_le.1 fun hge => hne (String.le_antisymm hge hle)))
  · exact Or.inr (.kind hgt)

instance : Std.Asymm Precedes := ⟨fun _ _ => Precedes.asymm⟩

instance : Std.Trichotomous Precedes where
  trichotomous a b hab hba := by
    by_contra hne
    exact (precedes_or_precedes hne).elim hab hba

/-- The comparison of different components is their order. -/
theorem lt_eq_true_iff (h : a ≠ b) : a.lt b = true ↔ a.Precedes b := by
  have hkind : a.rank < b.rank → a.lt b = true := by
    cases a <;> cases b <;> simp [rank, lt]
  constructor
  · intro hlt
    by_contra hnot
    -- one of two different components precedes the other, and not the other way round
    rcases precedes_or_precedes h with hab | hba
    · exact hnot hab
    · cases hba with
      | kind hba => cases a <;> cases b <;> simp [rank, lt] at hlt hba
      | name hba => exact String.lt_asymm hba (by simpa [lt] using hlt)
  · intro hab
    cases hab with
    | kind hab => exact hkind hab
    | name hab => simpa [lt] using hab

theorem Precedes.ne (h : a.Precedes b) : a ≠ b := by
  rintro rfl
  exact h.asymm h

instance : DecidableRel Precedes := fun a b =>
  decidable_of_iff (a ≠ b ∧ a.lt b = true)
    ⟨fun h => (lt_eq_true_iff h.1).1 h.2, fun h => ⟨h.ne, (lt_eq_true_iff h.ne).2 h⟩⟩

end Component

/-! ### Paths -/

/-- The first path comes before the second. -/
def Precedes (a b : Path) : Prop :=
  List.Lex Component.Precedes a.components b.components

instance : DecidableRel Precedes := fun a b =>
  inferInstanceAs (Decidable (List.Lex Component.Precedes a.components b.components))

variable {a b c : Path}

theorem Precedes.trans (hab : a.Precedes b) (hbc : b.Precedes c) : a.Precedes c :=
  List.lex_trans Component.Precedes.trans hab hbc

theorem Precedes.asymm (hab : a.Precedes b) : ¬ b.Precedes a :=
  List.lex_asymm Component.Precedes.asymm hab

/-- Of two paths with different components one comes before the other. -/
theorem precedes_or_precedes (h : a.components ≠ b.components) :
    a.Precedes b ∨ b.Precedes a := by
  by_contra hneither
  obtain ⟨hab, hba⟩ := not_or.1 hneither
  exact h (Std.Trichotomous.trichotomous _ _ hab hba)

theorem componentsLe_iff {as bs : List Component} :
    componentsLe as bs = true ↔ as = bs ∨ List.Lex Component.Precedes as bs := by
  induction as generalizing bs with
  | nil => cases bs <;> simp [componentsLe]
  | cons a as ih =>
    cases bs with
    | nil => simp [componentsLe]
    | cons b bs =>
      rw [componentsLe]
      -- equal components leave it to the rest, different ones decide
      by_cases hab : a = b
      · subst hab
        rw [if_pos (beq_self_eq_true a), ih, List.lex_cons_iff, List.cons.injEq]
        simp
      · rw [if_neg (by simpa using hab), Component.lt_eq_true_iff hab, List.cons.injEq]
        constructor
        · exact fun hprecedes => Or.inr (.rel hprecedes)
        · rintro (heq | hlex)
          · exact absurd heq.1 hab
          · cases hlex with
            | rel hprecedes => exact hprecedes
            | cons hlex => exact absurd rfl hab

/-- A path is not after another if its components are the same or it comes before. -/
theorem le_iff : a.le b = true ↔ a.components = b.components ∨ a.Precedes b :=
  componentsLe_iff

theorem le_trans (hab : a.le b = true) (hbc : b.le c = true) : a.le c = true := by
  rw [le_iff] at hab hbc ⊢
  rcases hab with hab | hab
  · rcases hbc with hbc | hbc
    · exact Or.inl (hab.trans hbc)
    · right
      unfold Precedes at hbc ⊢
      rwa [hab]
  · rcases hbc with hbc | hbc
    · right
      unfold Precedes at hab ⊢
      rwa [← hbc]
    · exact Or.inr (hab.trans hbc)

theorem le_total (a b : Path) : a.le b = true ∨ b.le a = true := by
  rw [le_iff, le_iff]
  by_cases h : a.components = b.components
  · exact Or.inl (Or.inl h)
  · exact (precedes_or_precedes h).imp Or.inr Or.inr

end RpcBinder.Path
