import RpcBinder.Proofs.Lexis.Nesting

/-!
# Splitting is cutting again and again

The splitter reads a text once and carries its depth across the commas at which it cuts.  The
cutter stops at the first character that it looks for and knows nothing of what stands behind.
Both ask for the depth of the text in front: it is zero behind a comma that was cut at, and no
dash stands there, which is how a text begins.  So the splitter goes on as if it had started
anew, and this holds in any text, whether or not its brackets are balanced.

## Main definitions

* `depthAfter` — the depth after a text.
* `repeatedCuts` — the entries that are cut off one after the other.

## Main results

* `cutFrom_append_cons_iff`, `pieces_append_comma_iff` — where no bracket is open, and
  only there, the two of them cut.
* `pieces_of_eq_cutTopLevel` — the first piece is what the cutter leaves.
* `splitTopLevel_eq_repeatedCuts` — the splitter finds the entries of repeated cutting.
-/

namespace RpcBinder.Lexis

/-- The depth after a text that is read at a depth and after a dash or not. -/
def depthAfter : Nat → Bool → List Char → Nat
  | depth, _, [] => depth
  | depth, dash, c :: rest => depthAfter (nest depth dash c) (c == '-') rest

/-- The entries of a text when its first outer comma is looked for, then the first one behind it,
and so on.  White space behind the last comma is no entry. -/
def repeatedCuts (text : List Char) : List (List Char) :=
  let front := cutTopLevel ',' text
  if front.length < text.length then
    trim front :: repeatedCuts (text.drop (front.length + 1))
  else if isBlank text then []
  else [trim text]
termination_by text.length
decreasing_by
  rw [List.length_drop]
  omega

/-! ### Where the cutter cuts -/

section

variable {stop : Char} {depth : Nat} {dash : Bool}

/-- The cutter leaves the whole text, or the text in front of its character. -/
theorem cutFrom_cases (stop : Char) (depth : Nat) (dash : Bool) (text : List Char) :
    cutFrom stop depth dash text = text ∨
      ∃ rest, text = cutFrom stop depth dash text ++ stop :: rest := by
  induction text generalizing depth dash with
  | nil => exact Or.inl rfl
  | cons c rest ih =>
    rw [cutFrom]
    split
    · next hcut =>
      have hc : c = stop := by
        simp only [Bool.and_eq_true] at hcut
        exact eq_of_beq hcut.1.1
      exact Or.inr ⟨rest, by rw [hc, List.nil_append]⟩
    · rcases ih (nest depth dash c) (c == '-') with hall | ⟨after, hfront⟩
      · exact Or.inl (by rw [hall])
      · exact Or.inr ⟨after, by rw [List.cons_append, ← hfront]⟩

/-- What is shorter than the text ends in front of the character that was looked for. -/
theorem eq_append_drop_of_length_lt {text : List Char}
    (h : (cutTopLevel stop text).length < text.length) :
    text = cutTopLevel stop text ++ stop :: text.drop ((cutTopLevel stop text).length + 1) := by
  rcases cutFrom_cases stop 0 false text with hall | ⟨rest, hrest⟩
  · exact absurd (congrArg List.length hall) (Nat.ne_of_lt h)
  · have hrest : text = cutTopLevel stop text ++ stop :: rest := hrest
    generalize cutTopLevel stop text = front at hrest ⊢
    subst hrest
    simp

/-- What is not shorter than the text is the text. -/
theorem cutTopLevel_eq_of_not_length_lt {text : List Char}
    (h : ¬(cutTopLevel stop text).length < text.length) : cutTopLevel stop text = text := by
  rcases cutFrom_cases stop 0 false text with hall | ⟨rest, hrest⟩
  · exact hall
  · have hlength := congrArg List.length hrest
    rw [List.length_append, List.length_cons] at hlength
    exact absurd hlength (by unfold cutTopLevel at h; omega)

/-- Nothing is cut off what the cutter leaves. -/
theorem cutFrom_cutFrom (stop : Char) (depth : Nat) (dash : Bool) (text : List Char) :
    cutFrom stop depth dash (cutFrom stop depth dash text) = cutFrom stop depth dash text := by
  induction text generalizing depth dash with
  | nil => rfl
  | cons c rest ih =>
    rw [cutFrom]
    split
    · rfl
    · next hcut => rw [cutFrom, if_neg hcut, ih]

/-- Behind a text of which it leaves everything, the cutter cuts exactly where no bracket is
open. -/
theorem cutFrom_append_cons_iff (hstop : isBracket stop = false) {front : List Char}
    (hfront : cutFrom stop depth dash front = front) (rest : List Char) :
    cutFrom stop depth dash (front ++ stop :: rest) = front ↔ depthAfter depth dash front = 0 := by
  induction front generalizing depth dash with
  | nil =>
    rw [List.nil_append, cutFrom, depthAfter]
    by_cases hdepth : depth = 0
    · simp [hdepth, hstop]
    · simp [hdepth]
  | cons c front ih =>
    rw [cutFrom] at hfront
    split at hfront
    · cases hfront
    · next hcut =>
      rw [List.cons_append, cutFrom, if_neg hcut, depthAfter, List.cons_inj_right]
      exact ih (List.cons.inj hfront).2

/-! ### Where the splitter cuts -/

/-- The splitter cuts at a comma exactly where no bracket is open, whatever commas it has met. -/
theorem pieces_append_comma_iff (front rest : List Char) :
    pieces depth dash (front ++ ',' :: rest) = pieces depth dash front ++ pieces 0 false rest ↔
      depthAfter depth dash front = 0 := by
  induction front generalizing depth dash with
  | nil =>
    rw [List.nil_append, depthAfter]
    by_cases hdepth : depth = 0
    · simp [pieces, hdepth]
    · have hcut : ¬(',' == ',' && depth == 0) = true := by simpa using hdepth
      rw [pieces_cons_of_not_cut hcut]
      cases hrest : pieces (nest depth dash ',') (',' == '-') rest with
      | nil => exact absurd hrest (pieces_ne_nil _ _ _)
      | cons first others => simp [pieces, hdepth]
  | cons c front ih =>
    rw [List.cons_append, depthAfter]
    by_cases hcut : (c == ',' && depth == 0) = true
    · -- behind the comma the text is read as at its beginning
      obtain ⟨hc, hdepth⟩ := Bool.and_eq_true_iff.1 hcut
      obtain rfl : c = ',' := eq_of_beq hc
      obtain rfl : depth = 0 := eq_of_beq hdepth
      rw [pieces, if_pos hcut, pieces, if_pos hcut, List.cons_append, List.cons_inj_right]
      exact ih
    · rw [pieces_cons_of_not_cut hcut, pieces_cons_of_not_cut hcut, ← ih]
      cases hfront : pieces (nest depth dash c) (c == '-') front with
      | nil => exact absurd hfront (pieces_ne_nil _ _ _)
      | cons first others =>
        cases hall : pieces (nest depth dash c) (c == '-') (front ++ ',' :: rest) with
        | nil => exact absurd hall (pieces_ne_nil _ _ _)
        | cons first' others' => simp

/-- A text of which the cutter leaves everything at a comma can be walked through. -/
theorem exists_walk_of_cutFrom_eq {text : List Char} (h : cutFrom ',' depth dash text = text) :
    ∃ state, walk (depth, dash) text = some state := by
  induction text generalizing depth dash with
  | nil => exact ⟨_, rfl⟩
  | cons c rest ih =>
    rw [cutFrom] at h
    split at h
    · cases h
    · next hcut =>
      have hcomma : ¬(c == ',' && depth == 0) = true := by
        intro hc
        obtain rfl : c = ',' := eq_of_beq (Bool.and_eq_true_iff.1 hc).1
        exact hcut (by rw [hc]; rfl)
      rw [walk_cons, if_neg hcomma]
      exact ih (List.cons.inj h).2

/-- A text without outer commas is one piece. -/
theorem pieces_of_cutFrom_eq {text : List Char} (h : cutFrom ',' depth dash text = text) :
    pieces depth dash text = [text] := by
  obtain ⟨state, hwalk⟩ := exists_walk_of_cutFrom_eq h
  exact pieces_of_walk hwalk

end

/-- The first piece is what the cutter leaves, and the others are those of the text behind the
comma. -/
theorem pieces_of_eq_cutTopLevel {text rest : List Char}
    (h : text = cutTopLevel ',' text ++ ',' :: rest) :
    pieces 0 false text = cutTopLevel ',' text :: pieces 0 false rest := by
  have hfront : cutTopLevel ',' (cutTopLevel ',' text) = cutTopLevel ',' text :=
    cutFrom_cutFrom ',' 0 false text
  have houter : depthAfter 0 false (cutTopLevel ',' text) = 0 := by
    refine (cutFrom_append_cons_iff (by decide) hfront rest).1 ?_
    rw [← h]
    rfl
  have hpieces := (pieces_append_comma_iff (cutTopLevel ',' text) rest).2 houter
  rwa [← h, pieces_of_cutFrom_eq hfront] at hpieces

/-! ### The entries -/

theorem splitTopLevel_of_pieces_cons {text piece rest : List Char}
    (h : pieces 0 false text = piece :: pieces 0 false rest) :
    splitTopLevel text = trim piece :: splitTopLevel rest := by
  have hne : (pieces 0 false rest).map trim ≠ [] := by simp [pieces_ne_nil]
  rw [splitTopLevel, splitTopLevel, h, List.map_cons]
  generalize (pieces 0 false rest).map trim = entries at hne ⊢
  rw [List.getLast?_cons_of_ne_nil hne, List.dropLast_cons_of_ne_nil hne]
  split <;> rfl

theorem splitTopLevel_of_pieces_singleton {text : List Char} (h : pieces 0 false text = [text]) :
    splitTopLevel text = if isBlank text then [] else [trim text] := by
  rw [splitTopLevel, h, List.map_singleton]
  by_cases hblank : isBlank text = true
  · simp [(trim_eq_nil_iff text).2 hblank, hblank]
  · have hne : trim text ≠ [] := fun hnil => hblank ((trim_eq_nil_iff text).1 hnil)
    simp [hne, hblank]

/-- **The splitter finds the entries of repeated cutting**, in balanced and unbalanced texts.
It and the cutter agree on what lies outside of brackets: behind a text of which the cutter leaves
everything, the cutter cuts at its own character, such as the sign of a default value, exactly
where the splitter cuts at a comma. -/
theorem splitTopLevel_eq_repeatedCuts :
    (∀ text, splitTopLevel text = repeatedCuts text) ∧
    ∀ stop front rest, isBracket stop = false → cutTopLevel stop front = front →
      (cutTopLevel stop (front ++ stop :: rest) = front ↔
        pieces 0 false (front ++ ',' :: rest) = pieces 0 false front ++ pieces 0 false rest) := by
  refine ⟨fun text => ?_, fun stop front rest hstop hfront => ?_⟩
  · fun_induction repeatedCuts text with
    | case1 text front hshort ih =>
      -- the front ends at a comma, behind which the rest is cut again
      have hpieces := pieces_of_eq_cutTopLevel (eq_append_drop_of_length_lt hshort)
      rw [splitTopLevel_of_pieces_cons hpieces, ih]
    | case2 text front hshort hblank =>
      have hpieces := pieces_of_cutFrom_eq (cutTopLevel_eq_of_not_length_lt hshort)
      rw [splitTopLevel_of_pieces_singleton hpieces, if_pos hblank]
    | case3 text front hshort hblank =>
      have hpieces := pieces_of_cutFrom_eq (cutTopLevel_eq_of_not_length_lt hshort)
      rw [splitTopLevel_of_pieces_singleton hpieces, if_neg hblank]
  · rw [pieces_append_comma_iff]
    exact cutFrom_append_cons_iff hstop hfront rest

/-- Brackets that are closed too often or not at all, an arrow, and the sign of a default value
behind an outer comma. -/
theorem splitTopLevel_eq_repeatedCuts_example :
    let front := "a: List<A>>), b: (A, B) -> C ".toList
    let rest := " f(1, 2), c<, ".toList
    splitTopLevel (front ++ '=' :: rest) = repeatedCuts (front ++ '=' :: rest) ∧
      splitTopLevel (front ++ '=' :: rest) =
        ["a: List<A>>)".toList, "b: (A, B) -> C = f(1, 2)".toList, "c<,".toList] ∧
      isBracket '=' = false ∧ cutTopLevel '=' front = front ∧
      cutTopLevel '=' (front ++ '=' :: rest) = front ∧
      pieces 0 false (front ++ ',' :: rest) = pieces 0 false front ++ pieces 0 false rest := by
  intro front rest
  have hbracket : isBracket '=' = false := by decide
  have hfront : cutTopLevel '=' front = front := by decide
  have hcut : cutTopLevel '=' (front ++ '=' :: rest) = front := by decide
  exact ⟨splitTopLevel_eq_repeatedCuts.1 _, by decide, hbracket, hfront, hcut,
    (splitTopLevel_eq_repeatedCuts.2 '=' front rest hbracket hfront).1 hcut⟩

end RpcBinder.Lexis
