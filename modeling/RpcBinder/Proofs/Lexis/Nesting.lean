import Mathlib.Data.List.Basic
import RpcBinder.Lexis.Nesting
import RpcBinder.Proofs.Text.Parts

/-!
# Cutting at outer commas undoes joining

The splitter reads a text once and keeps a depth and whether a dash stands before the next
character.  `walk` reads a text in the same way and fails at the first comma that the
splitter would cut at, so a text that can be walked lies within one piece.  If moreover the
walk ends at depth zero, the comma behind the text is a cut.

## Main definitions

* `walk` — the state after a text without outer commas.
* `IsEnclosed`, `IsSealed` — a text without outer commas, and one that also closes its brackets.

## Main results

* `pieces_append_of_walk` — a walked text is the beginning of the first piece.
* `pieces_append_comma` — a sealed text is cut off whole.
* `pieces_intercalate` — joining texts by commas and cutting at the outer ones.
* `cutFrom_append_of_walk` — cutting at another character behind a walked text.
-/

namespace RpcBinder.Lexis

/-! ### Walking through a text -/

/-- The depth after a text, and whether it ends with a dash, read at a depth and after a dash
or not.  There is none if a comma of the text lies outside of all brackets. -/
def walk : Nat × Bool → List Char → Option (Nat × Bool)
  | state, [] => some state
  | (depth, dash), c :: rest =>
      if c == ',' && depth == 0 then none else walk (nest depth dash c, c == '-') rest

@[simp] theorem walk_nil (state : Nat × Bool) : walk state [] = some state := rfl

theorem walk_cons (depth : Nat) (dash : Bool) (c : Char) (rest : List Char) :
    walk (depth, dash) (c :: rest) =
      if c == ',' && depth == 0 then none else walk (nest depth dash c, c == '-') rest := rfl

theorem walk_append (state : Nat × Bool) (s t : List Char) :
    walk state (s ++ t) = (walk state s).bind fun state' => walk state' t := by
  induction s generalizing state with
  | nil => rfl
  | cons c s ih =>
    obtain ⟨depth, dash⟩ := state
    rw [List.cons_append, walk_cons, walk_cons]
    split
    · rfl
    · exact ih _

/-- A character that is no bracket, no comma and no dash changes nothing. -/
def isPlain (c : Char) : Bool := !isBracket c && c != ',' && c != '-'

theorem nest_of_isPlain {c : Char} (h : isPlain c = true) (depth : Nat) (dash : Bool) :
    nest depth dash c = depth := by
  simp only [isPlain, isBracket, Bool.and_eq_true, Bool.not_eq_true', Bool.or_eq_false_iff] at h
  obtain ⟨⟨⟨⟨⟨hlt, hopen⟩, hgt⟩, hclose⟩, -⟩, -⟩ := h
  simp [nest, hlt, hopen, hgt, hclose]

theorem walk_of_forall_isPlain (depth : Nat) {text : List Char}
    (h : ∀ c ∈ text, isPlain c = true) : walk (depth, false) text = some (depth, false) := by
  induction text with
  | nil => rfl
  | cons c rest ih =>
    have hc : isPlain c = true := h c List.mem_cons_self
    have hcomma : c ≠ ',' := ne_of_class hc (by decide)
    have hdash : c ≠ '-' := ne_of_class hc (by decide)
    rw [walk_cons, nest_of_isPlain hc, beq_eq_false_iff_ne.2 hcomma, beq_eq_false_iff_ne.2 hdash]
    exact ih fun d hd => h d (List.mem_cons_of_mem _ hd)

theorem isPlain_of_isSpace {c : Char} (h : isSpace c = true) : isPlain c = true := by
  have hbracket : c ≠ '<' ∧ c ≠ '(' ∧ c ≠ '>' ∧ c ≠ ')' :=
    ⟨ne_of_class h (by decide), ne_of_class h (by decide), ne_of_class h (by decide),
      ne_of_class h (by decide)⟩
  have hcomma : c ≠ ',' := ne_of_class h (by decide)
  have hdash : c ≠ '-' := ne_of_class h (by decide)
  simp [isPlain, isBracket, hbracket, hcomma, hdash]

theorem walk_of_isBlank (depth : Nat) {text : List Char} (h : isBlank text = true) :
    walk (depth, false) text = some (depth, false) :=
  walk_of_forall_isPlain depth fun c hc => isPlain_of_isSpace (forall_isSpace_of_isBlank h c hc)

theorem walk_of_isPadded {depth : Nat} {text padded : List Char} (hp : IsPadded text padded)
    (h : walk (depth, false) text = some (depth, false)) :
    walk (depth, false) padded = some (depth, false) := by
  obtain ⟨before, after, hbefore, hafter, rfl⟩ := hp
  rw [walk_append, walk_append, walk_of_isBlank depth hbefore, Option.bind_some, h,
    Option.bind_some, walk_of_isBlank depth hafter]

/-- Below the outermost level commas are like any other character. -/
theorem walk_intercalate {depth : Nat} {texts : List (List Char)}
    (h : ∀ text ∈ texts, walk (depth + 1, false) text = some (depth + 1, false)) :
    walk (depth + 1, false) ([','].intercalate texts) = some (depth + 1, false) := by
  induction texts with
  | nil => rfl
  | cons text texts ih =>
    have hrest := ih fun other hmem => h other (List.mem_cons_of_mem _ hmem)
    cases texts with
    | nil => simpa using h text List.mem_cons_self
    | cons other texts =>
      -- the comma between them is read at a depth above zero, so the walk goes on
      rw [List.intercalate_cons_cons, walk_append, walk_append, h text List.mem_cons_self]
      exact hrest

/-! ### What the splitter makes of a walked text -/

/-- A character that is no cut stands at the beginning of the first piece. -/
theorem pieces_cons_of_not_cut {depth : Nat} {c : Char} (h : ¬(c == ',' && depth == 0) = true)
    (dash : Bool) (rest : List Char) :
    pieces depth dash (c :: rest) =
      (pieces (nest depth dash c) (c == '-') rest).modifyHead (c :: ·) := by
  rw [pieces, if_neg h]
  cases hrest : pieces (nest depth dash c) (c == '-') rest with
  | nil => exact absurd hrest (pieces_ne_nil _ _ _)
  | cons first others => rfl

/-- A walked text is the beginning of the first piece. -/
theorem pieces_append_of_walk {state : Nat × Bool} {s : List Char} {depth : Nat} {dash : Bool}
    (h : walk (depth, dash) s = some state) (t : List Char) :
    pieces depth dash (s ++ t) = (pieces state.1 state.2 t).modifyHead (s ++ ·) := by
  induction s generalizing depth dash with
  | nil =>
    simp only [walk_nil, Option.some.injEq] at h
    subst h
    exact (congrFun List.modifyHead_id _).symm
  | cons c s ih =>
    rw [walk_cons] at h
    split at h
    · simp at h
    · next hc =>
      rw [List.cons_append, pieces_cons_of_not_cut hc, ih h, List.modifyHead_modifyHead]
      rfl

theorem pieces_of_walk {state : Nat × Bool} {s : List Char} {depth : Nat} {dash : Bool}
    (h : walk (depth, dash) s = some state) : pieces depth dash s = [s] := by
  have := pieces_append_of_walk h []
  rw [List.append_nil] at this
  simp [this, pieces]

/-- Every comma of the text lies within brackets. -/
def IsEnclosed (text : List Char) : Prop := ∃ state, walk (0, false) text = some state

/-- Every comma of the text lies within brackets, and at its end no bracket is open. -/
def IsSealed (text : List Char) : Prop := ∃ dash, walk (0, false) text = some (0, dash)

theorem IsSealed.isEnclosed {text : List Char} (h : IsSealed text) : IsEnclosed text := by
  obtain ⟨dash, h⟩ := h
  exact ⟨(0, dash), h⟩

/-- The comma behind a sealed text is a cut. -/
theorem pieces_append_comma {s : List Char} (h : IsSealed s) (t : List Char) :
    pieces 0 false (s ++ ',' :: t) = s :: pieces 0 false t := by
  obtain ⟨dash, h⟩ := h
  rw [pieces_append_of_walk h]
  simp [pieces]

/-- **Cutting undoes joining**: sealed texts joined by commas, the last of which need only be
enclosed, are the pieces of the whole. -/
theorem pieces_intercalate (texts : List (List Char)) (last : List Char)
    (h : ∀ text ∈ texts, IsSealed text) (hlast : IsEnclosed last) :
    pieces 0 false ([','].intercalate (texts ++ [last])) = texts ++ [last] := by
  induction texts with
  | nil =>
    obtain ⟨state, hlast⟩ := hlast
    simpa using pieces_of_walk hlast
  | cons text texts ih =>
    have hjoin : [','].intercalate (text :: (texts ++ [last])) =
        text ++ ',' :: [','].intercalate (texts ++ [last]) := by
      rw [List.intercalate_cons_of_ne_nil (by simp)]
      simp
    rw [List.cons_append, hjoin, pieces_append_comma (h text List.mem_cons_self),
      ih fun text' hmem => h text' (List.mem_cons_of_mem _ hmem)]

/-- The pieces are the entries if nothing but white space is trimmed off them. -/
theorem splitTopLevel_of_pieces {text : List Char} {entries padded : List (List Char)}
    (hpieces : pieces 0 false text = padded) (hpadded : List.Forall₂ IsPadded entries padded)
    (hsolid : ∀ entry ∈ entries, IsSolid entry) : splitTopLevel text = entries := by
  have htrim : padded.map trim = entries := map_trim_of_isPadded hpadded hsolid
  -- no entry is empty, so none is taken for the one behind a comma at the end
  have hlast : (entries.getLast? == some []) = false := by
    rw [beq_eq_false_iff_ne]
    intro hempty
    exact (hsolid [] (List.mem_of_getLast? hempty)).ne_nil rfl
  rw [splitTopLevel, hpieces, htrim]
  simp only [hlast, Bool.false_eq_true, if_false]

/-- Padded texts joined by commas are found as entries. -/
theorem splitTopLevel_intercalate {entries padded : List (List Char)} (hne : padded ≠ [])
    (hpadded : List.Forall₂ IsPadded entries padded) (hsolid : ∀ entry ∈ entries, IsSolid entry)
    (hsealed : ∀ piece ∈ padded, IsSealed piece) :
    splitTopLevel ([','].intercalate padded) = entries := by
  refine splitTopLevel_of_pieces ?_ hpadded hsolid
  -- the last piece is set apart, since no comma follows it
  rw [← List.dropLast_concat_getLast hne]
  exact pieces_intercalate _ _ (fun piece hmem => hsealed piece (List.dropLast_subset _ hmem))
    (hsealed _ (List.getLast_mem hne)).isEnclosed

/-! ### Cutting at another character -/

/-- What is cut off begins behind a walked text that does not hold the character. -/
theorem cutFrom_append_of_walk {stop : Char} {state : Nat × Bool} {s : List Char} {depth : Nat}
    {dash : Bool} (h : walk (depth, dash) s = some state) (hstop : stop ∉ s) (t : List Char) :
    cutFrom stop depth dash (s ++ t) = s ++ cutFrom stop state.1 state.2 t := by
  induction s generalizing depth dash with
  | nil =>
    simp only [walk_nil, Option.some.injEq] at h
    subst h
    rfl
  | cons c s ih =>
    rw [walk_cons] at h
    split at h
    · simp at h
    · have hne : c ≠ stop := (List.ne_of_not_mem_cons hstop).symm
      have hrest : stop ∉ s := List.not_mem_of_not_mem_cons hstop
      rw [List.cons_append, cutFrom, beq_eq_false_iff_ne.2 hne]
      simp only [Bool.false_and, Bool.false_eq_true, if_false]
      rw [ih h hrest, List.cons_append]

end RpcBinder.Lexis
