import RpcBinder.Proofs.Lexis.Depth

/-!
# Blanking a text twice

What is kept of a text is read in the blanked text as it was before, and no comment begins there:
where a slash of code is kept, it was followed neither by a slash nor by a star, and blanking makes
no such characters.  So there is nothing left to blank.

## Main definitions

* `opensComment` — a comment begins with a character in front of a text.

## Main results

* `strip_strip` — a text that was blanked from a mode on stays as it is.
* `stripComments_stripComments` — **blanking a text twice is blanking it once.**
-/

namespace RpcBinder.Lexis

/-- In code a comment begins with the character `c` in front of `rest`. -/
def opensComment (c : Char) (rest : List Char) : Bool :=
  c == '/' && (rest.head? == some '/' || rest.head? == some '*')

/-- Where no comment begins, it does not matter whether comments are known. -/
theorem step_true_eq_step_false {mode : Mode} {c : Char} {rest : List Char}
    (h : mode = .code → opensComment c rest = false) :
    mode.step true c rest = mode.step false c rest := by
  cases mode with
  | code =>
    have hopens : ∀ d, d = '/' ∨ d = '*' → ¬(c = '/' ∧ rest.head? = some d) := by
      rintro d hd ⟨rfl, hhead⟩
      have hclear := h rfl
      rcases hd with rfl | rfl <;> simp [opensComment, hhead] at hclear
    simp [Mode.step, hopens '/' (Or.inl rfl), hopens '*' (Or.inr rfl)]
  | _ => rfl

theorem fst_step_of_opensComment {c : Char} {rest : List Char} (h : opensComment c rest = true) :
    (Mode.code.step true c rest).1 = .comment := by
  simp only [opensComment, Bool.and_eq_true, Bool.or_eq_true, beq_iff_eq] at h
  obtain ⟨rfl, hhead | hhead⟩ := h <;> simp [Mode.step, hhead]

/-- Blanking makes no slashes and no stars. -/
theorem opensComment_of_strip {mode : Mode} {c : Char} {rest : List Char}
    (h : opensComment c (strip mode rest) = true) : opensComment c rest = true := by
  cases rest with
  | nil => exact h
  | cons d rest =>
    rcases strip_cons_kept_or_space mode d rest with hcons | ⟨more, hcons⟩
    · rw [hcons] at h
      exact h
    · simp [hcons, opensComment] at h

/-- Spaces and line breaks in code are kept. -/
theorem strip_code_blanks {blanks : List Char} (h : ∀ c ∈ blanks, c = ' ' ∨ c = '\n' ∨ c = '\r')
    (text : List Char) : strip .code (blanks ++ text) = blanks ++ strip .code text := by
  induction blanks with
  | nil => rfl
  | cons c blanks ih =>
    obtain ⟨hc, hblanks⟩ := List.forall_mem_cons.1 h
    have hstep : Mode.code.step true c (blanks ++ text) = (.code, .code) := by
      rcases hc with rfl | rfl | rfl <;> simp [Mode.step]
    rw [List.cons_append, strip_cons_of_step hstep, ih hblanks]
    rfl

/-- A text that was blanked from a mode on stays as it is, read with code in place of a
comment. -/
theorem strip_strip {mode : Mode} (h : mode.isOutside = true ∨ mode.isInside = true)
    (text : List Char) : strip mode.withoutComment (strip mode text) = strip mode text := by
  induction text generalizing mode with
  | nil => rfl
  | cons c rest ih =>
    have hinStep := inStep_step h c rest
    rw [strip_cons]
    generalize hsource : mode.step true c rest = step at hinStep ⊢
    cases hinStep with
    | @blanked next houtside hnext =>
      have hrest := ih (Or.inl hnext)
      rw [Mode.withoutComment_of_isOutside hnext] at hrest
      rw [Mode.withoutComment_of_isOutside houtside,
        strip_code_blanks fun d hd => eq_of_mem_blank_comment hd, hrest]
    | @kept region next hregion hinside hnext hstep =>
      have hrest := ih (Or.inr hnext)
      rw [Mode.withoutComment_of_isInside hnext] at hrest
      have hblank := blank_of_ne_comment hregion c
      -- no comment began here in the source, so none begins in the blanked text
      have hclear : mode = .code → opensComment c (strip next rest) = false := by
        rintro rfl
        rw [Bool.eq_false_iff]
        intro hopens
        have hcomment := fst_step_of_opensComment (opensComment_of_strip hopens)
        rw [hsource] at hcomment
        exact hregion hcomment
      have hstep' : mode.step true c (strip next rest) = (region, next) :=
        (step_true_eq_step_false hclear).trans hstep
      dsimp only
      rw [Mode.withoutComment_of_isInside hinside, hblank, List.singleton_append,
        strip_cons_of_step hstep', hblank, hrest, List.singleton_append]

/-- **Blanking a text twice is blanking it once.** -/
theorem stripComments_stripComments (text : List Char) :
    stripComments (stripComments text) = stripComments text :=
  @strip_strip .code (Or.inl rfl) text

end RpcBinder.Lexis
