import RpcBinder.Proofs.Pattern.Misses

/-!
# Modifiers

In front of the word that declares something there may be modifiers, each with a gap behind it.
Two different modifiers differ at a place that both have, so there is one way to read them.

## Main results

* `reads_many_modifiers`, `reads_maybe_modifier` — modifiers are read up to what is no modifier.
* `misses_many_modifiers`, `misses_maybe_modifier` — what misses behind them misses in front of
  them.
-/

namespace RpcBinder.Declaration

open Pattern

/-- A modifier with what stands behind it. -/
def modifierText (modifier : String × List Char) : List Char :=
  modifier.1.toList ++ modifier.2

/-- Words that can be told apart where they begin, and from the gaps between them. -/
structure AreModifiers (names : List String) (isGap : Char → Bool) : Prop where
  starts : ∀ word ∈ names, word.toList.head?.any (fun c => !isGap c) = true
  apart : ∀ word ∈ names, ∀ other ∈ names, other ≠ word → clashes other.toList word.toList = true

variable {names : List String} {isGap : Char → Bool} {modifiers : List (String × List Char)}
  {text : List Char}

theorem AreModifiers.head? (h : AreModifiers names isGap) {word : String} (hword : word ∈ names)
    (rest : List Char) : ∀ c ∈ (word.toList ++ rest).head?, isGap c = false := by
  obtain ⟨d, hd, hgap⟩ := (Option.any_eq_true _ _).1 (h.starts word hword)
  intro c hc
  rw [List.head?_append, hd] at hc
  obtain rfl : d = c := Option.some.inj hc
  simpa using hgap

theorem AreModifiers.not_prefix_of_ne (h : AreModifiers names isGap) {word other : String}
    (hword : word ∈ names) (hother : other ∈ names) (hne : other ≠ word) (rest : List Char) :
    ¬ other.toList <+: word.toList ++ rest :=
  not_prefix_of_clashes (h.apart word hword other hother hne) rest

theorem AreModifiers.mono (h : AreModifiers names isGap) {some : List String}
    (hsub : some ⊆ names) : AreModifiers some isGap where
  starts word hword := h.starts word (hsub hword)
  apart word hword other hother := h.apart word (hsub hword) other (hsub hother)

/-- Modifiers do not begin with a gap. -/
theorem head?_modifiers (hnames : AreModifiers names isGap)
    (h : ∀ modifier ∈ modifiers, modifier.1 ∈ names)
    (htext : ∀ c ∈ text.head?, isGap c = false) :
    ∀ c ∈ (modifiers.flatMap modifierText ++ text).head?, isGap c = false := by
  cases modifiers with
  | nil => exact htext
  | cons modifier modifiers =>
    rw [List.flatMap_cons, modifierText, List.append_assoc, List.append_assoc]
    exact hnames.head? (h modifier List.mem_cons_self) _

/-- Modifiers are read up to what is no modifier. -/
theorem reads_many_modifiers (hnames : AreModifiers names isGap)
    (h : ∀ modifier ∈ modifiers, modifier.1 ∈ names ∧ IsRun isGap modifier.2)
    (hmiss : ∀ word ∈ names, ¬ word.toList <+: text)
    (htext : ∀ c ∈ text.head?, isGap c = false) {κ : Type} :
    Reads (many (anyOf names ++ stretch1 isGap) : Pattern κ) (modifiers.flatMap modifierText) text
      [] := by
  induction modifiers with
  | nil => exact reads_many_of_misses ((misses_anyOf hmiss).seq _)
  | cons modifier modifiers ih =>
    obtain ⟨word, gap⟩ := modifier
    obtain ⟨⟨hword, hgap⟩, hmodifiers⟩ := List.forall_mem_cons.1 h
    have hbehind : Reads (stretch1 isGap : Pattern κ) gap
        (modifiers.flatMap modifierText ++ text) [] :=
      reads_stretch1 hgap (head?_modifiers hnames (fun m hm => (hmodifiers m hm).1) htext)
    rw [List.flatMap_cons, modifierText]
    exact ((reads_anyOf hword (hnames.apart word hword) _).seq hbehind).round
      (by simp [hgap.ne_nil]) (ih hmodifiers)

/-- A modifier is read up to what is none, and so is its absence. -/
theorem reads_maybe_modifier (hnames : AreModifiers names isGap)
    {modifier? : Option (String × List Char)}
    (h : ∀ modifier ∈ modifier?, modifier.1 ∈ names ∧ IsRun isGap modifier.2)
    (hmiss : ∀ word ∈ names, ¬ word.toList <+: text)
    (htext : ∀ c ∈ text.head?, isGap c = false) {κ : Type} :
    Reads (maybe (anyOf names ++ stretch1 isGap) : Pattern κ)
      (modifier?.toList.flatMap modifierText) text [] := by
  cases modifier? with
  | none => exact reads_maybe_of_misses ((misses_anyOf hmiss).seq _)
  | some modifier =>
    obtain ⟨hword, hgap⟩ := h modifier rfl
    have hsingle : (some modifier).toList.flatMap modifierText =
        modifier.1.toList ++ modifier.2 := List.flatMap_singleton modifierText modifier
    rw [hsingle]
    exact ((reads_anyOf hword (hnames.apart _ hword) _).seq (reads_stretch1 hgap htext)).maybe

theorem AreModifiers.not_prefix (hnames : AreModifiers names isGap) {c : Char}
    (hc : isGap c = true) (rest : List Char) : ∀ word ∈ names, ¬ word.toList <+: c :: rest := by
  intro word hword hfront
  obtain ⟨d, hd, hgap⟩ := (Option.any_eq_true _ _).1 (hnames.starts word hword)
  obtain ⟨more, heq⟩ := List.head?_eq_some_iff.1 hd
  rw [heq, List.cons_prefix_cons] at hfront
  rw [hfront.1, hc] at hgap
  exact absurd hgap (by decide)

/-- What misses behind modifiers misses in front of them, if neither a modifier nor a gap is a place
for it. -/
theorem misses_many_modifiers {κ : Type} {second : Pattern κ} (hnames : AreModifiers names isGap)
    (h : ∀ modifier ∈ modifiers, modifier.1 ∈ names ∧ IsRun isGap modifier.2)
    (hword : ∀ word ∈ names, ∀ rest, Misses second (word.toList ++ rest))
    (hgap : ∀ c, isGap c = true → ∀ rest, Misses second (c :: rest))
    (hmiss : ∀ word ∈ names, ¬ word.toList <+: text)
    (htext : ∀ c ∈ text.head?, isGap c = false) (hrest : Misses second text) :
    Misses (many (anyOf names ++ stretch1 isGap) ++ second)
      (modifiers.flatMap modifierText ++ text) := by
  -- where no modifier begins, the repetition takes nothing
  have hnone : ∀ {rest}, (∀ word ∈ names, ¬ word.toList <+: rest) → Misses second rest →
      Misses (many (anyOf names ++ stretch1 isGap) ++ second) rest :=
    fun hwords hsecond => misses_many (((misses_anyOf hwords).seq _).seq _) hsecond
  induction modifiers with
  | nil => exact hnone hmiss hrest
  | cons modifier modifiers ih =>
    obtain ⟨word, gap⟩ := modifier
    obtain ⟨⟨hmem, hrun⟩, hmodifiers⟩ := List.forall_mem_cons.1 h
    -- a part of the gap may be given back, but no modifier begins within it
    have hbehind : Misses (stretch1 isGap ++ (many (anyOf names ++ stretch1 isGap) ++ second))
        (gap ++ (modifiers.flatMap modifierText ++ text)) :=
      misses_stretch1_append
        (fun c hc rest => hnone (hnames.not_prefix (hrun.forall_char c hc) rest)
          (hgap c (hrun.forall_char c hc) rest))
        hrun.ne_nil
        (misses_stretch_of_misses (head?_modifiers hnames (fun m hm => (hmodifiers m hm).1) htext)
          (ih hmodifiers))
    rw [List.flatMap_cons, modifierText, List.append_assoc, List.append_assoc]
    exact misses_many (misses_anyOf_append (hnames.apart word hmem) hbehind).assoc
      (hword word hmem _)

/-- What misses behind a modifier misses in front of it, if neither the modifier nor the gap is a
place for it. -/
theorem misses_maybe_modifier {κ : Type} {second : Pattern κ} (hnames : AreModifiers names isGap)
    {modifier? : Option (String × List Char)}
    (h : ∀ modifier ∈ modifier?, modifier.1 ∈ names ∧ IsRun isGap modifier.2)
    (hword : ∀ word ∈ names, ∀ rest, Misses second (word.toList ++ rest))
    (hgap : ∀ c, isGap c = true → ∀ rest, Misses second (c :: rest))
    (hmiss : ∀ word ∈ names, ¬ word.toList <+: text)
    (htext : ∀ c ∈ text.head?, isGap c = false) (hrest : Misses second text) :
    Misses (maybe (anyOf names ++ stretch1 isGap) ++ second)
      (modifier?.toList.flatMap modifierText ++ text) := by
  cases modifier? with
  | none => exact misses_maybe (((misses_anyOf hmiss).seq _).seq _) hrest
  | some modifier =>
    obtain ⟨hmem, hrun⟩ := h modifier rfl
    have hbehind : Misses (stretch1 isGap ++ second) (modifier.2 ++ text) :=
      misses_stretch1_append (fun c hc rest => hgap c (hrun.forall_char c hc) rest) hrun.ne_nil
        (misses_stretch_of_misses htext hrest)
    have hsingle : (some modifier).toList.flatMap modifierText =
        modifier.1.toList ++ modifier.2 := List.flatMap_singleton modifierText modifier
    rw [hsingle, List.append_assoc]
    exact misses_maybe (misses_anyOf_append (hnames.apart _ hmem) hbehind).assoc
      (hword _ hmem _)

end RpcBinder.Declaration
