import RpcBinder.Lexis.Braces
import RpcBinder.Proofs.Lexis.Segments

/-!
# Brace depth of a text whose comments were blanked

A tracker reads a text without comments with a small lexer of its own.  On a text whose comments
were blanked it finds the literals where the pass over the source found them, so the depth that
it answers is the one of the source.

Two things are kept in step.  A tracker may stand behind the offset that it was asked for, but
what it read there along with something else is never code: the depth at every offset from the
last one on (`DepthTracker.depthAt`) stays as it was.  And each character of the source is read
in the blanked text as code where it was a comment, and as before where it was not
(`foldl_codeBefore_strip`).

## Main definitions

* `codeBefore` — the code in front of an offset.
* `Within.mode`, `Mode.isOutside`, `Mode.isInside` — the modes of a text without comments.
* `DepthTracker.depthAt` — what a tracker has to answer at an offset.

## Main results

* `DepthTracker.depths_ofText` — a tracker answers the depth of the code in front of each offset.
* `DepthTracker.depths_stripComments` — **on a blanked text these are the depths of the source.**
-/

namespace RpcBinder.Lexis

/-! ### Code in front of an offset -/

/-- The characters of code that begin in front of an offset. -/
def codeBefore : Nat → List (Char × Region) → List Char
  | 0, _ => []
  | _ + 1, [] => []
  | offset + 1, (c, region) :: rest =>
      (if region = .code then [c] else []) ++ codeBefore (offset + 1 - c.utf8Size) rest

@[simp] theorem codeBefore_zero (labelled : List (Char × Region)) : codeBefore 0 labelled = [] := by
  cases labelled <;> rfl

@[simp] theorem codeBefore_nil (offset : Nat) : codeBefore offset [] = [] := by
  cases offset <;> rfl

theorem codeBefore_code {offset : Nat} (h : 0 < offset) (c : Char)
    (rest : List (Char × Region)) :
    codeBefore offset ((c, .code) :: rest) = c :: codeBefore (offset - c.utf8Size) rest := by
  obtain ⟨offset, rfl⟩ := Nat.exists_eq_add_one_of_ne_zero (Nat.ne_of_gt h)
  simp [codeBefore]

/-- A character that is no code only takes its bytes. -/
theorem codeBefore_of_ne_code {region : Region} (h : region ≠ .code) (offset : Nat) (c : Char)
    (rest : List (Char × Region)) :
    codeBefore offset ((c, region) :: rest) = codeBefore (offset - c.utf8Size) rest := by
  cases offset with
  | zero => simp
  | succ offset => simp [codeBefore, h]

/-! ### What a tracker reads -/

/-- The mode of the pass over a text without comments. -/
def Within.mode : Within → Mode
  | .code => .code
  | .quoted quote => .quoted quote
  | .rawString => .rawString

/-- The mode in front of characters of a literal that are read along. -/
def heldMode (next : Mode) : Nat → Mode
  | 0 => next
  | along + 1 => .held .literal (heldMode next along)

/-- What a tracker reads in one go begins with a character of code, or lies in a literal. -/
theorem step_mode (within : Within) (c : Char) (rest : List Char) :
    ∃ region, within.mode.step false c rest =
        (region, heldMode (within.read c rest).2.mode (within.read c rest).1) ∧
      (region = .code → within = .code) ∧
      (region ≠ .code → ∀ depth, within.depthAfter depth c = depth) := by
  cases within with
  | code =>
    by_cases hraw : c = '"' ∧ startsWithTwoQuotes rest = true
    · refine ⟨.literal, ?_, by simp, fun _ depth => ?_⟩
      · simp [Within.mode, Within.read, Mode.step, heldMode, hraw]
      · simp [Within.depthAfter, braceStep, hraw.1]
    · by_cases hquote : c = '"' ∨ c = '\''
      · refine ⟨.literal, ?_, by simp, fun _ depth => ?_⟩
        · simp [Within.mode, Within.read, Mode.step, heldMode, hraw, hquote]
        · rcases hquote with rfl | rfl <;> rfl
      · exact ⟨.code, by simp [Within.mode, Within.read, Mode.step, heldMode, hraw, hquote],
          fun _ => rfl, fun h => absurd rfl h⟩
  | quoted quote =>
    refine ⟨.literal, ?_, by simp, fun _ _ => rfl⟩
    by_cases hback : c = '\\'
    · simp [Within.mode, Within.read, Mode.step, heldMode, hback]
    · by_cases hend : c = quote ∨ c = '\n' <;>
        simp [Within.mode, Within.read, Mode.step, heldMode, hback, hend]
  | rawString =>
    refine ⟨.literal, ?_, by simp, fun _ _ => rfl⟩
    by_cases hraw : c = '"' ∧ startsWithTwoQuotes rest = true <;>
      simp [Within.mode, Within.read, Mode.step, heldMode, hraw]

namespace DepthTracker

/-- The depth in front of an offset, known from a place on. -/
def depthFrom (mode : Mode) (pending : List Char) (offset depth : Nat) (target : Nat) : Nat :=
  (codeBefore (target - offset) (regionsFrom false mode pending)).foldl braceStep depth

/-- What a tracker has to answer at an offset. -/
def depthAt (tracker : DepthTracker) (target : Nat) : Nat :=
  depthFrom tracker.within.mode tracker.pending tracker.offset tracker.depth target

/-- What is read along is no code, so it does not matter on which side of it an offset lies. -/
theorem depthFrom_held (next : Mode) (c : Char) (pending : List Char)
    (offset depth target : Nat) :
    depthFrom (.held .literal next) (c :: pending) offset depth target =
      depthFrom next pending (offset + c.utf8Size) depth target := by
  have hregions : regionsFrom false (.held .literal next) (c :: pending) =
      (c, .literal) :: regionsFrom false next pending := rfl
  unfold depthFrom
  rw [hregions, codeBefore_of_ne_code (by decide), Nat.sub_sub]

/-- A character in front of the offset is read. -/
theorem depthFrom_read (within : Within) (c : Char) (pending : List Char) {offset target : Nat}
    (h : offset < target) (depth : Nat) :
    depthFrom within.mode (c :: pending) offset depth target =
      depthFrom (heldMode (within.read c pending).2.mode (within.read c pending).1) pending
        (offset + c.utf8Size) (within.depthAfter depth c) target := by
  obtain ⟨region, hstep, hcode, hother⟩ := step_mode within c pending
  have hregions : regionsFrom false within.mode (c :: pending) = (c, region) ::
      regionsFrom false (heldMode (within.read c pending).2.mode (within.read c pending).1)
        pending := by
    rw [regionsFrom_cons, hstep]
  unfold depthFrom
  rw [hregions]
  -- only a character of code counts for the depth
  by_cases hregion : region = .code
  · subst hregion
    rw [codeBefore_code (by omega), hcode rfl, Nat.sub_sub]
    rfl
  · rw [codeBefore_of_ne_code hregion, hother hregion, Nat.sub_sub]

/-- Reading on changes no answer from the offset `target` on, and brings the depth to what has
to be answered there. -/
theorem depthAt_advanceFrom {target later : Nat} (hlater : target ≤ later) (within : Within)
    (along : Nat) (pending : List Char) (offset depth : Nat) :
    (advanceFrom target within along pending offset depth).depthAt later =
        depthFrom (heldMode within.mode along) pending offset depth later ∧
      (advanceFrom target within along pending offset depth).depth =
        depthFrom (heldMode within.mode along) pending offset depth target := by
  induction pending generalizing within along offset depth with
  | nil => simp [advanceFrom, depthAt, depthFrom]
  | cons c pending ih =>
    cases along with
    | succ along =>
      have hnext := ih within along (offset + c.utf8Size) depth
      rw [heldMode, depthFrom_held, depthFrom_held]
      exact hnext
    | zero =>
      by_cases hoffset : offset < target
      · have hnext := ih (within.read c pending).2 (within.read c pending).1
          (offset + c.utf8Size) (within.depthAfter depth c)
        rw [heldMode, depthFrom_read within c pending hoffset,
          depthFrom_read within c pending (Nat.lt_of_lt_of_le hoffset hlater), advanceFrom,
          if_pos hoffset]
        exact hnext
      · -- the tracker stands here: nothing lies between this place and the offset
        have hhere : target - offset = 0 := by omega
        rw [advanceFrom, if_neg hoffset]
        refine ⟨rfl, ?_⟩
        unfold depthFrom
        rw [hhere, codeBefore_zero]
        rfl

theorem depthAt_advance (tracker : DepthTracker) {target later : Nat} (h : target ≤ later) :
    (tracker.advance target).depthAt later = tracker.depthAt later :=
  (depthAt_advanceFrom h _ 0 _ _ _).1

theorem depth_advance (tracker : DepthTracker) (target : Nat) :
    (tracker.advance target).depth = tracker.depthAt target :=
  (depthAt_advanceFrom (Nat.le_refl target) _ 0 _ _ _).2

/-- No answer depends on the offsets that were asked before. -/
theorem depths_eq (tracker : DepthTracker) {offsets : List Nat}
    (h : offsets.Pairwise (· ≤ ·)) : tracker.depths offsets = offsets.map tracker.depthAt := by
  induction offsets generalizing tracker with
  | nil => rfl
  | cons target targets ih =>
    rw [List.pairwise_cons] at h
    rw [depths, depth_advance, ih _ h.2, List.map_cons]
    congr 1
    exact List.map_congr_left fun later hmem => depthAt_advance tracker (h.1 later hmem)

/-- A tracker answers the depth of the code in front of each offset. -/
theorem depths_ofText (text : List Char) {offsets : List Nat} (h : offsets.Pairwise (· ≤ ·)) :
    (ofText text).depths offsets =
      offsets.map fun offset => braceDepth (codeBefore offset (commentFreeRegions text)) :=
  depths_eq _ h

end DepthTracker

/-! ### The blanked text -/

/-- The mode of code, or of a comment. -/
def Mode.isOutside : Mode → Bool
  | .code => true
  | .lineComment => true
  | .blockComment _ => true
  | .held .comment next => next.isOutside
  | _ => false

/-- The mode of code, or of a literal. -/
def Mode.isInside : Mode → Bool
  | .code => true
  | .quoted _ => true
  | .rawString => true
  | .held .literal next => next.isInside
  | _ => false

/-- Where a text without comments has the same mode, or code in place of a comment. -/
def Mode.withoutComment (mode : Mode) : Mode :=
  if mode.isOutside then .code else mode

theorem Mode.withoutComment_of_isOutside {mode : Mode} (h : mode.isOutside = true) :
    mode.withoutComment = .code := if_pos h

theorem Mode.withoutComment_of_isInside {mode : Mode} (h : mode.isInside = true) :
    mode.withoutComment = mode := by
  unfold Mode.withoutComment
  cases mode with
  | code => rfl
  | lineComment => cases h
  | blockComment outer => cases h
  | quoted quote => rfl
  | rawString => rfl
  | held region next =>
    cases region with
    | code => rfl
    | comment => cases h
    | literal => rfl

/-- A character is kept, or a space stands for its first byte. -/
theorem strip_cons_kept_or_space (mode : Mode) (c : Char) (rest : List Char) :
    strip mode (c :: rest) = c :: strip (mode.step true c rest).2 rest ∨
      ∃ more, strip mode (c :: rest) = ' ' :: more := by
  obtain ⟨size, hsize⟩ := Nat.exists_eq_add_one_of_ne_zero (Nat.ne_of_gt c.utf8Size_pos)
  rw [strip_cons]
  cases (mode.step true c rest).1 with
  | code => exact Or.inl rfl
  | literal => exact Or.inl rfl
  | comment =>
    by_cases hbreak : c = '\n' ∨ c = '\r'
    · exact Or.inl (by simp [blank, hbreak])
    · exact Or.inr ⟨_, by simp [blank, hbreak, hsize, List.replicate_succ]; rfl⟩

/-- Blanking makes no quotes. -/
theorem startsWithTwoQuotes_of_strip {mode : Mode} {text : List Char}
    (h : startsWithTwoQuotes (strip mode text) = true) : startsWithTwoQuotes text = true := by
  obtain ⟨more, hstrip⟩ := exists_of_startsWithTwoQuotes h
  cases text with
  | nil => simp at hstrip
  | cons c rest =>
    -- a character is kept or turned into blanks, and a blank is no quote
    rcases strip_cons_kept_or_space mode c rest with hcons | ⟨others, hcons⟩
    · rw [hcons] at hstrip
      obtain ⟨rfl, hrest⟩ := List.cons.inj hstrip
      cases rest with
      | nil => simp at hrest
      | cons d rest =>
        rcases strip_cons_kept_or_space _ d rest with hcons' | ⟨others, hcons'⟩
        · rw [hcons'] at hrest
          obtain ⟨rfl, -⟩ := List.cons.inj hrest
          rfl
        · simp [hcons'] at hrest
    · simp [hcons] at hstrip

theorem startsWithTwoQuotes_cons_cons (c d : Char) (rest : List Char) :
    startsWithTwoQuotes (c :: d :: rest) = (c == '"' && d == '"') := by
  by_cases hc : c = '"'
  · by_cases hd : d = '"' <;> simp [startsWithTwoQuotes, hc, hd]
  · simp [startsWithTwoQuotes, hc]

/-- Characters that are held in a literal are kept. -/
theorem startsWithTwoQuotes_strip_held (next : Mode) (text : List Char) :
    startsWithTwoQuotes (strip (.held .literal (.held .literal next)) text) =
      startsWithTwoQuotes text := by
  match text with
  | [] => rfl
  | [c] => rfl
  | c :: d :: rest =>
    show startsWithTwoQuotes (c :: d :: strip next rest) = startsWithTwoQuotes (c :: d :: rest)
    rw [startsWithTwoQuotes_cons_cons, startsWithTwoQuotes_cons_cons]

/-- How a character of the source, read from `mode` on, is read in the blanked text. -/
inductive InStep (mode : Mode) (c : Char) (rest : List Char) : Region × Mode → Prop
  /-- It belongs to a comment, and code or a comment goes on behind it. -/
  | blanked {next : Mode} (outside : mode.isOutside = true) (next_outside : next.isOutside = true) :
      InStep mode c rest (.comment, next)
  /-- It belongs to code or a literal, there as here. -/
  | kept {region : Region} {next : Mode} (ne_comment : region ≠ .comment)
      (inside : mode.isInside = true) (next_inside : next.isInside = true)
      (step_eq : mode.step false c (strip next rest) = (region, next)) :
      InStep mode c rest (region, next)

theorem inStep_code (c : Char) (rest : List Char) :
    InStep .code c rest (Mode.code.step true c rest) := by
  -- comments are blanked; what opens a literal opens it in the stripped text as well
  by_cases hline : c = '/' ∧ rest.head? = some '/'
  · have hstep : Mode.code.step true c rest = (.comment, .held .comment .lineComment) := by
      simp [Mode.step, hline]
    rw [hstep]
    exact .blanked rfl rfl
  by_cases hblock : c = '/' ∧ rest.head? = some '*'
  · have hstep : Mode.code.step true c rest = (.comment, .held .comment (.blockComment 0)) := by
      simp [Mode.step, hblock]
    rw [hstep]
    exact .blanked rfl rfl
  by_cases hraw : c = '"' ∧ startsWithTwoQuotes rest = true
  · have hstep : Mode.code.step true c rest =
        (.literal, .held .literal (.held .literal .rawString)) := by
      simp [Mode.step, hraw]
    rw [hstep]
    refine .kept (by decide) rfl rfl ?_
    simp [Mode.step, startsWithTwoQuotes_strip_held, hraw]
  by_cases hquote : c = '"' ∨ c = '\''
  · have hstep : Mode.code.step true c rest = (.literal, .quoted c) := by
      simp [Mode.step, hline, hblock, hraw, hquote]
    rw [hstep]
    refine .kept (by decide) rfl rfl ?_
    have hstrip : ¬ (c = '"' ∧ startsWithTwoQuotes (strip (.quoted c) rest) = true) :=
      fun hboth => hraw ⟨hboth.1, startsWithTwoQuotes_of_strip hboth.2⟩
    simp [Mode.step, hstrip, hquote]
  · have hstep : Mode.code.step true c rest = (.code, .code) := by
      simp [Mode.step, hline, hblock, hraw, hquote]
    rw [hstep]
    refine .kept (by decide) rfl rfl ?_
    simp [Mode.step, not_or.1 hquote]

theorem inStep_quoted (quote c : Char) (rest : List Char) :
    InStep (.quoted quote) c rest ((Mode.quoted quote).step true c rest) := by
  -- whether comments are known makes no difference in a literal
  by_cases hback : c = '\\'
  · have hstep : ∀ comments rest, (Mode.quoted quote).step comments c rest =
        (.literal, .held .literal (.quoted quote)) := by simp [Mode.step, hback]
    rw [hstep]
    exact .kept (by decide) rfl rfl (hstep _ _)
  by_cases hend : c = quote ∨ c = '\n'
  · have hstep : ∀ comments rest, (Mode.quoted quote).step comments c rest =
        (.literal, .code) := by simp [Mode.step, hback, hend]
    rw [hstep]
    exact .kept (by decide) rfl rfl (hstep _ _)
  · have hstep : ∀ comments rest, (Mode.quoted quote).step comments c rest =
        (.literal, .quoted quote) := by simp [Mode.step, hback, hend]
    rw [hstep]
    exact .kept (by decide) rfl rfl (hstep _ _)

theorem inStep_rawString (c : Char) (rest : List Char) :
    InStep .rawString c rest (Mode.rawString.step true c rest) := by
  by_cases hraw : c = '"' ∧ startsWithTwoQuotes rest = true
  · have hstep : Mode.rawString.step true c rest =
        (.literal, .held .literal (.held .literal .code)) := by simp [Mode.step, hraw]
    rw [hstep]
    refine .kept (by decide) rfl rfl ?_
    simp [Mode.step, startsWithTwoQuotes_strip_held, hraw]
  · have hstep : Mode.rawString.step true c rest = (.literal, .rawString) := by
      simp [Mode.step, hraw]
    rw [hstep]
    refine .kept (by decide) rfl rfl ?_
    -- stripping adds no quotes, so the raw string goes on
    have hstrip : ¬ (c = '"' ∧ startsWithTwoQuotes (strip .rawString rest) = true) :=
      fun hboth => hraw ⟨hboth.1, startsWithTwoQuotes_of_strip hboth.2⟩
    simp [Mode.step, hstrip]

theorem inStep_blockComment (outer : Nat) (c : Char) (rest : List Char) :
    InStep (.blockComment outer) c rest ((Mode.blockComment outer).step true c rest) := by
  unfold Mode.step
  dsimp only
  split
  · exact .blanked rfl (by cases outer <;> rfl)
  · split
    · exact .blanked rfl rfl
    · exact .blanked rfl rfl

/-- **The two lexers are in step** wherever the source is read as code, comment or literal. -/
theorem inStep_step {mode : Mode} (h : mode.isOutside = true ∨ mode.isInside = true) (c : Char)
    (rest : List Char) : InStep mode c rest (mode.step true c rest) := by
  cases mode with
  | code => exact inStep_code c rest
  | lineComment =>
    refine .blanked rfl ?_
    split <;> rfl
  | blockComment outer => exact inStep_blockComment outer c rest
  | quoted quote => exact inStep_quoted quote c rest
  | rawString => exact inStep_rawString c rest
  | held region next =>
    cases region with
    | code => exact h.elim nofun nofun
    | comment =>
      have hnext : next.isOutside = true := h.elim id nofun
      exact .blanked hnext hnext
    | literal =>
      have hnext : next.isInside = true := h.elim nofun id
      exact .kept (by decide) hnext hnext rfl

/-! ### The depth of the blanked text -/

/-- Spaces and line breaks between code and comments do not change the depth. -/
theorem foldl_codeBefore_append {blanks : List Char}
    (h : ∀ c ∈ blanks, c = ' ' ∨ c = '\n' ∨ c = '\r') (text : List Char) (offset depth : Nat) :
    (codeBefore offset (regionsFrom false .code (blanks ++ text))).foldl braceStep depth =
      (codeBefore (offset - byteLength blanks) (regionsFrom false .code text)).foldl braceStep
        depth := by
  induction blanks generalizing offset with
  | nil => rfl
  | cons c blanks ih =>
    have hc := h c List.mem_cons_self
    have hrest := ih (fun d hd => h d (List.mem_cons_of_mem _ hd)) (offset - c.utf8Size)
    have hstep : Mode.code.step false c (blanks ++ text) = (.code, .code) := by
      rcases hc with rfl | rfl | rfl <;> simp [Mode.step]
    have hdepth : braceStep depth c = depth := by rcases hc with rfl | rfl | rfl <;> rfl
    rw [List.cons_append, regionsFrom_cons, hstep, byteLength_cons, ← Nat.sub_sub]
    rcases Nat.eq_zero_or_pos offset with rfl | hpos
    · simp
    · rw [codeBefore_code hpos, List.foldl_cons, hdepth, hrest]

theorem eq_of_mem_blank_comment {c d : Char} (h : d ∈ blank (c, .comment)) :
    d = ' ' ∨ d = '\n' ∨ d = '\r' := by
  unfold blank at h
  dsimp only at h
  split at h
  · next hbreak =>
    have hbreak : c = '\n' ∨ c = '\r' := by simpa using hbreak
    rw [List.mem_singleton.1 h]
    exact Or.inr hbreak
  · exact Or.inl (List.eq_of_mem_replicate h)

/-- In front of every offset the blanked text has the depth of the source. -/
theorem foldl_codeBefore_strip {mode : Mode} (h : mode.isOutside = true ∨ mode.isInside = true)
    (text : List Char) (offset depth : Nat) :
    (codeBefore offset (regionsFrom false mode.withoutComment (strip mode text))).foldl
        braceStep depth =
      (codeBefore offset (regionsFrom true mode text)).foldl braceStep depth := by
  induction text generalizing mode offset depth with
  | nil => rfl
  | cons c rest ih =>
    have hinStep := inStep_step h c rest
    rw [strip_cons, regionsFrom_cons]
    -- a character is blanked, which counts for no depth, or kept, and then read alike
    generalize mode.step true c rest = step at hinStep ⊢
    cases hinStep with
    | @blanked next houtside hnext =>
      have hrest := ih (Or.inl hnext) (offset - c.utf8Size) depth
      rw [Mode.withoutComment_of_isOutside hnext] at hrest
      dsimp only
      rw [Mode.withoutComment_of_isOutside houtside,
        foldl_codeBefore_append fun d hd => eq_of_mem_blank_comment hd, byteLength_blank, hrest,
        codeBefore_of_ne_code (by decide)]
    | @kept region next hregion hinside hnext hstep =>
      have hblank := blank_of_ne_comment hregion c
      have hrest := ih (Or.inr hnext) (offset - c.utf8Size)
      rw [Mode.withoutComment_of_isInside hnext] at hrest
      dsimp only
      rw [Mode.withoutComment_of_isInside hinside, hblank, List.singleton_append,
        regionsFrom_cons, hstep]
      by_cases hcode : region = .code
      · subst hcode
        rcases Nat.eq_zero_or_pos offset with rfl | hpos
        · simp
        · rw [codeBefore_code hpos, codeBefore_code hpos, List.foldl_cons, List.foldl_cons, hrest]
      · rw [codeBefore_of_ne_code hcode, codeBefore_of_ne_code hcode, hrest]

/-- **On a blanked text a tracker answers the depths of the source**: at each of a series of
ascending offsets the balance of the braces among the bytes in front of it that the pass over
the source reads as code, whatever the offsets before were. -/
theorem DepthTracker.depths_stripComments (source : List Char) {offsets : List Nat}
    (h : offsets.Pairwise (· ≤ ·)) :
    (ofText (stripComments source)).depths offsets =
      offsets.map fun offset => braceDepth (codeBefore offset (regions source)) := by
  rw [depths_ofText _ h]
  have hcode : Mode.code.isOutside = true ∨ Mode.code.isInside = true := Or.inl rfl
  exact List.map_congr_left fun offset _ => foldl_codeBefore_strip hcode source offset 0

theorem DepthTracker.depths_stripComments_example :
    let source := "\x7b/*é\x7b*/\"\\\x7d\x7b\"'\\'\x7d'\x7b\"\"\"\x7d\"\x7d\"\"\"//\x7d\n\x7d\x7d\x7d\x7b".toList
    let offsets := [0, 4, 10, 10, 19, 20, 21, 33, 34, 35, 36, 99]
    offsets.Pairwise (· ≤ ·) ∧
      (ofText (stripComments source)).depths offsets = [0, 1, 1, 1, 2, 2, 2, 1, 0, 0, 1, 1] := by
  intro source offsets
  have hascending : offsets.Pairwise (· ≤ ·) := by decide
  refine ⟨hascending, ?_⟩
  rw [depths_stripComments source hascending]
  decide

end RpcBinder.Lexis
