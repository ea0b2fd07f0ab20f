import Mathlib.Data.Option.Basic
import RpcBinder.Proofs.Pattern.Reads

/-!
# What patterns miss further on

A sequence may take a first part of the text in several ways, and it misses the text only if its
second pattern misses what each of them leaves.  The rules go from the end of a pattern to its
beginning: what follows misses the rest of the text, and one kind of pattern after the other is put
in front of it.  They are for sequences that lean to the right; `Misses.assoc` brings others into
this form.

## Main results

* `misses_literal_append`, `misses_stretch_append`, `misses_stretch1_append` — the text in front
  is taken, but what follows misses.
* `misses_maybe`, `misses_either`, `misses_many`, `misses_part` — each way to go on misses.
-/

namespace RpcBinder.Pattern

variable {κ : Type} {p : Char → Bool} {first second third body : Pattern κ}
  {s rest text : List Char}

theorem Misses.assoc (h : Misses (first ++ (second ++ third)) text) :
    Misses (first ++ second ++ third) text :=
  fun place hplace k => h place hplace k

/-- What follows one character misses. -/
theorem misses_one_append (h : Misses second rest) (c : Char) :
    Misses (one p ++ second) (c :: rest) := by
  intro place hplace k
  show place.past p (fun next => second.run next k) = none
  rw [past_of_rest hplace, h _ (Cursor.rest_behind (s := [c]) hplace) k, ite_self]

theorem misses_literal_append (h : Misses second rest) (s : List Char) :
    Misses (literal s ++ second) (s ++ rest) := by
  induction s with
  | nil => exact h
  | cons c s ih =>
    cases s with
    | nil => exact misses_one_append h c
    | cons d s =>
      rw [literal_cons_cons]
      exact (misses_one_append ih c).assoc

/-- Of a choice of words none leads further. -/
theorem misses_anyOf_append {words : List String} {word : String}
    (hother : ∀ other ∈ words, other ≠ word → clashes other.toList word.toList = true)
    (h : Misses second rest) : Misses (anyOf words ++ second) (word.toList ++ rest) := by
  induction words with
  | nil => exact (misses_one fun _ _ => rfl).seq _
  | cons first words ih =>
    have hfirst : Misses (literal first.toList ++ second) (word.toList ++ rest) := by
      -- either the word itself, or one that can be told from it
      by_cases heq : first = word
      · subst heq
        exact misses_literal_append h _
      · exact (misses_literal_of_clashes (hother first List.mem_cons_self heq) rest).seq _
    have hwords := ih fun other hmem => hother other (List.mem_cons_of_mem _ hmem)
    cases words with
    | nil => exact hfirst
    | cons other words =>
      intro place hplace k
      exact (Option.orElse_eq_none _ _).2 ⟨hfirst place hplace k, hwords place hplace k⟩

/-- What follows a stretch misses at each of its places, and behind it. -/
theorem misses_stretch_of_suffixes (hhere : ∀ t, t <:+ s → Misses second (t ++ rest))
    (hrest : Misses (stretch p ++ second) rest) : Misses (stretch p ++ second) (s ++ rest) := by
  induction s with
  | nil => exact hrest
  | cons c s ih =>
    exact misses_stretch_cons (hhere (c :: s) List.suffix_rfl) fun _ =>
      ih fun t ht => hhere t (ht.trans (List.suffix_cons c s))

/-- No character of the stretch is a place for what follows. -/
theorem misses_stretch_append (hhere : ∀ c ∈ s, ∀ text, Misses second (c :: text))
    (hrest : Misses (stretch p ++ second) rest) : Misses (stretch p ++ second) (s ++ rest) := by
  induction s with
  | nil => exact hrest
  | cons c s ih =>
    obtain ⟨hc, hs⟩ := List.forall_mem_cons.1 hhere
    exact misses_stretch_cons (hc _) fun _ => ih hs

/-- A stretch takes nothing where its class ends. -/
theorem misses_stretch_of_misses (hrest : ∀ c ∈ rest.head?, p c = false) (h : Misses second rest) :
    Misses (stretch p ++ second) rest := by
  intro place hplace k
  have hone : Misses (one p : Pattern κ) place.rest := by
    rw [hplace]
    exact misses_one hrest
  show (stretch p).run place (fun stop => second.run stop k) = none
  rw [run_stretch_of_misses hone]
  exact h place hplace k

theorem misses_stretch1_append (hhere : ∀ c ∈ s, ∀ text, Misses second (c :: text))
    (hne : s ≠ []) (hrest : Misses (stretch p ++ second) rest) :
    Misses (stretch1 p ++ second) (s ++ rest) := by
  obtain ⟨c, s, rfl⟩ := List.exists_cons_of_ne_nil hne
  have hs := misses_stretch_append (List.forall_mem_cons.1 hhere).2 hrest
  exact (misses_one_append hs c).assoc

theorem misses_either (hfirst : Misses (first ++ third) text)
    (hsecond : Misses (second ++ third) text) : Misses (either first second ++ third) text := by
  intro place hplace k
  exact (Option.orElse_eq_none _ _).2 ⟨hfirst place hplace k, hsecond place hplace k⟩

/-- What follows misses, whether the pattern in front of it is left out or not. -/
theorem misses_maybe (hbody : Misses (body ++ second) text) (h : Misses second text) :
    Misses (maybe body ++ second) text :=
  misses_either hbody h

theorem Misses.part (h : Misses body text) (name : κ) : Misses (part name body) text := by
  intro place hplace k
  show (body.run place _).map _ = none
  rw [h place hplace]
  rfl

/-- More failures of what follows are more failures of the whole. -/
theorem run_eq_none_of_imp (pattern : Pattern κ) {place : Cursor}
    {f g : Cursor → Option (Trail κ)} (hfg : ∀ next, f next = none → g next = none)
    (h : pattern.run place f = none) : pattern.run place g = none := by
  -- a part of the pattern is followed by its other parts, so `f` and `g` change on the way
  induction pattern generalizing place f g with
  | empty => exact hfg place h
  | lineStart =>
    unfold run at h ⊢
    split
    · next hstart => exact hfg place (by rwa [if_pos hstart] at h)
    · rfl
  | lineEnd =>
    unfold run at h ⊢
    split
    · next hend => exact hfg place (by rwa [if_pos hend] at h)
    · rfl
  | one p =>
    unfold run Cursor.past at h ⊢
    split
    · next c next hnext =>
      rw [hnext] at h
      dsimp only at h
      split
      · next hc => exact hfg next (by rwa [if_pos hc] at h)
      · rfl
    · rfl
  | stretch p =>
    unfold run at h ⊢
    rw [List.findSome?_eq_none_iff] at h ⊢
    exact fun stop hstop => hfg stop (h stop hstop)
  | seq first second ihfirst ihsecond =>
    exact ihfirst (fun next hnext => ihsecond hfg hnext) h
  | either first second ihfirst ihsecond =>
    have hboth := (Option.orElse_eq_none _ _).1 h
    exact (Option.orElse_eq_none _ _).2 ⟨ihfirst hfg hboth.1, ihsecond hfg hboth.2⟩
  | many body ih =>
    induction hleft : place.left using Nat.strongRecOn generalizing place with
    | ind left ihleft =>
      rw [run_many] at h ⊢
      have hboth := (Option.orElse_eq_none _ _).1 h
      refine (Option.orElse_eq_none _ _).2 ⟨ih (fun next hnext => ?_) hboth.1, hfg place hboth.2⟩
      -- a round that moves on is followed by the same repetition
      split
      · next hlt =>
        rw [if_pos hlt] at hnext
        exact ihleft next.left (hleft ▸ hlt) hnext rfl
      · rfl
  | part name body ih =>
    unfold run at h ⊢
    rw [Option.map_eq_none_iff] at h ⊢
    exact ih (fun next hnext =>
      Option.map_eq_none_iff.2 (hfg next (Option.map_eq_none_iff.1 hnext))) h

theorem misses_part (name : κ) (h : Misses (body ++ second) text) :
    Misses (part name body ++ second) text := by
  intro place hplace k
  have hnone : body.run place (fun stop => second.run stop k) = none := h place hplace k
  show (body.run place _).map _ = none
  rw [Option.map_eq_none_iff]
  exact run_eq_none_of_imp body (fun stop hstop => Option.map_eq_none_iff.2 hstop) hnone

/-- What follows misses behind one more round, and where there is none. -/
theorem misses_many (hround : Misses (body ++ (many body ++ second)) text)
    (h : Misses second text) : Misses (many body ++ second) text := by
  intro place hplace k
  have hbody : body.run place (fun next => (many body).run next fun stop => second.run stop k) =
      none := hround place hplace k
  show (many body).run place (fun stop => second.run stop k) = none
  rw [run_many]
  refine (Option.orElse_eq_none _ _).2 ⟨run_eq_none_of_imp body (fun next hnext => ?_) hbody, ?_⟩
  · split
    · exact hnext
    · rfl
  · exact h place hplace k

end RpcBinder.Pattern
