import RpcBinder.Proofs.Declaration.Between

/-!
# Tags that get stuck

The arguments of a further tag are read up to the first closing parenthesis, whatever opened
before it.  So if they hold one, as they do where something is called in them, then what is left
of them has to be read as another tag or as a word of the declaration.  It never is: whatever is
read behind the tag of a declaration has a sign between any two closing parentheses, and it has
the keyword of the declaration in it.  The declaration is not found.

## Main definitions

* `declarationHead` — the shape of a declaration up to its keyword.
* `closesApart` — there is a sign between any two closing parentheses.
* `Between.IsStuck` — the arguments of a tag go on behind a closing parenthesis.

## Main results

* `exists_of_takes_declarationHead` — what is read behind a tag.
* `Between.misses` — **a declaration behind tags that get stuck is missed.**
-/

namespace RpcBinder.Declaration

open Pattern

variable {between : Between} {argument rest : List Char}

/-! ### Closing parentheses -/

/-- Between any two closing parentheses there is the sign of a tag.  In front of the first one
there has to be one as well, unless it is `free`. -/
def closesApart : Bool → List Char → Bool
  | _, [] => true
  | free, c :: text =>
      if c == ')' then free && closesApart false text else closesApart (free || c == '@') text

theorem closesApart_cons_of_ne {c : Char} (hc : c ≠ ')') (free : Bool) (text : List Char) :
    closesApart free (c :: text) = closesApart (free || c == '@') text :=
  if_neg (mt eq_of_beq hc)

theorem closesApart_of_false {text : List Char} (h : closesApart false text = true) (free : Bool) :
    closesApart free text = true := by
  induction text generalizing free with
  | nil => rfl
  | cons c text ih =>
    by_cases hc : c = ')'
    · subst hc
      cases h
    · rw [closesApart_cons_of_ne hc] at h ⊢
      -- a sign frees what follows, whatever stood in front of it
      generalize (c == '@') = sign at h ⊢
      cases sign with
      | true => rwa [Bool.or_true] at h ⊢
      | false =>
        rw [Bool.or_false] at h ⊢
        exact ih h free

/-- Text without closing parentheses may stand in front. -/
theorem closesApart_append {s text : List Char} (hs : ')' ∉ s)
    (h : closesApart false text = true) (free : Bool) : closesApart free (s ++ text) = true := by
  induction s generalizing free with
  | nil => exact closesApart_of_false h free
  | cons c s ih =>
    have hc : c ≠ ')' := (List.ne_of_not_mem_cons hs).symm
    rw [List.cons_append, closesApart_cons_of_ne hc]
    exact ih (List.not_mem_of_not_mem_cons hs) _

/-- Behind a sign it does not use up the freedom to close. -/
theorem closesApart_true_append {s text : List Char} (hs : ')' ∉ s) :
    closesApart true (s ++ text) = closesApart true text := by
  induction s with
  | nil => rfl
  | cons c s ih =>
    have hc : c ≠ ')' := (List.ne_of_not_mem_cons hs).symm
    rw [List.cons_append, closesApart_cons_of_ne hc, Bool.true_or]
    exact ih (List.not_mem_of_not_mem_cons hs)

/-- A closing parenthesis behind another one needs a sign in between. -/
theorem closesApart_eq_false {front back text : List Char} (hback : '@' ∉ back) (free : Bool) :
    closesApart free (front ++ ')' :: (back ++ ')' :: text)) = false := by
  -- no sign between the two closing parentheses frees the second one
  have hstuck : closesApart false (back ++ ')' :: text) = false := by
    induction back with
    | nil => rfl
    | cons c back ih =>
      have hc : (c == '@') = false := by
        rw [beq_eq_false_iff_ne]
        exact (List.ne_of_not_mem_cons hback).symm
      rw [List.cons_append, closesApart, hc, Bool.or_false,
        ih (List.not_mem_of_not_mem_cons hback), Bool.false_and, ite_self]
  induction front generalizing free with
  | nil =>
    show (free && closesApart false (back ++ ')' :: text)) = false
    rw [hstuck, Bool.and_false]
  | cons c front ih =>
    rw [List.cons_append, closesApart, ih, ih, Bool.and_false, ite_self]

/-- What closes apart stops in front of such a parenthesis. -/
theorem exists_append_of_closesApart {s behind front back text : List Char} (hback : '@' ∉ back)
    {free : Bool} (h : closesApart free s = true)
    (heq : s ++ behind = front ++ ')' :: (back ++ ')' :: text)) :
    ∃ middle, front ++ ')' :: back = s ++ middle := by
  have hsplit : s ++ behind = (front ++ ')' :: back) ++ ')' :: text := by
    simpa using heq
  rcases List.append_eq_append_iff.1 hsplit with ⟨middle, hstop, -⟩ | ⟨middle, rfl, hbeyond⟩
  · exact ⟨middle, hstop⟩
  · cases middle with
    | nil => exact ⟨[], by simp⟩
    | cons c middle =>
      obtain rfl : ')' = c := (List.cons.inj hbeyond).1
      rw [List.append_assoc, List.cons_append, closesApart_eq_false hback] at h
      cases h

/-- Tags that are read to their first closing parenthesis close apart. -/
theorem closesApart_tags {space : Pattern Part} {tags : List Tag}
    (hspace : ∀ {place s parts}, space.Takes place s parts → ')' ∉ s)
    (h : ∀ tag ∈ tags, tag.IsTaken (· != ')') space) {text : List Char} (htext : ')' ∉ text) :
    closesApart false (tags.flatMap Tag.text ++ text) = true := by
  induction tags with
  | nil =>
    have hend : closesApart false (text ++ []) = true := closesApart_append htext rfl false
    rwa [List.append_nil] at hend
  | cons tag tags ih =>
    obtain ⟨⟨hname, harguments, _, _, hgap⟩, htags⟩ := List.forall_mem_cons.1 h
    have hrest := closesApart_append (hspace hgap) (ih htags)
    have hclose : ')' ∉ tag.name := hname.notMem (by decide)
    -- the sign of the tag frees its closing parenthesis
    have hsplit : (tag :: tags).flatMap Tag.text ++ text = '@' :: (tag.name ++
        (tag.argumentList ++ (tag.gap ++ (tags.flatMap Tag.text ++ text)))) := by
      simp [Tag.text, Tag.bare]
    rw [hsplit]
    show closesApart true _ = true
    rw [closesApart_true_append hclose]
    unfold Tag.argumentList
    cases hlist : tag.arguments? with
    | none => exact hrest true
    | some arguments =>
      have hinner : ')' ∉ '(' :: arguments := by
        have hall := harguments arguments hlist
        simp only [List.mem_cons, not_or]
        exact ⟨by decide, fun hmem => absurd (hall _ hmem) (by decide)⟩
      show closesApart true (('(' :: (arguments ++ [')'])) ++ _) = true
      rw [List.cons_append, List.append_assoc, ← List.cons_append,
        closesApart_true_append hinner]
      exact hrest false

/-! ### What is read behind a tag -/

/-- The shape of a declaration from its tag up to the white space behind its keyword. -/
def declarationHead (name : String) (content : Part) (names : List String)
    (optional keyword : String) : Pattern Part :=
  Shape.quotedTag name content ++ Shape.tags ++ Shape.modifiers names ++
    maybe (Shape.word optional ++ Shape.spaces1) ++ Shape.word keyword ++ Shape.spaces1

/-- Texts that go on with the same character, which neither of them holds, are the same. -/
theorem append_cons_inj {stop : Char} {s t a b : List Char} (hs : stop ∉ s) (ht : stop ∉ t)
    (h : s ++ stop :: a = t ++ stop :: b) : s = t ∧ a = b := by
  have hsplit := congrArg (splitFirst? stop) h
  rw [splitFirst?_append hs, splitFirst?_append ht] at hsplit
  simpa using hsplit

theorem notMem_of_takes_spaces {place : Cursor} {s : List Char} {parts : List (Part × List Char)}
    (h : Shape.spaces.Takes place s parts) {c : Char} (hc : isSpace c = false) : c ∉ s := by
  cases h with
  | stretch hall =>
    intro hmem
    rw [hall c hmem] at hc
    cases hc

/-- The shape of a tag with a quoted argument takes such a tag and white space behind it. -/
theorem rest_eq_of_takes_quotedTag {name word : String} (hname : name.toList = '@' :: word.toList)
    {content : Part} {place : Cursor} {s : List Char} {parts : List (Part × List Char)}
    (h : (Shape.quotedTag name content).Takes place s parts) (hargument : IsArgument argument)
    {behind : List Char} (hs : s ++ behind = lead word argument between ++ rest) :
    ∃ blank, ')' ∉ blank ∧ blank ++ behind = between.text ++ rest := by
  obtain ⟨before, blank, ps, qs, rfl, -, h, hblank⟩ := takes_seq.1 h
  obtain ⟨before, close, ps, qs, rfl, -, h, hclose⟩ := takes_seq.1 h
  obtain ⟨before, blank₃, ps, qs, rfl, -, h, hblank₃⟩ := takes_seq.1 h
  obtain ⟨before, quote₂, ps, qs, rfl, -, h, hquote₂⟩ := takes_seq.1 h
  obtain ⟨before, quoted, ps, qs, rfl, -, h, hquoted⟩ := takes_seq.1 h
  obtain ⟨before, quote₁, ps, qs, rfl, -, h, hquote₁⟩ := takes_seq.1 h
  obtain ⟨before, blank₂, ps, qs, rfl, -, h, hblank₂⟩ := takes_seq.1 h
  obtain ⟨before, opened, ps, qs, rfl, -, h, hopened⟩ := takes_seq.1 h
  obtain ⟨named, blank₁, ps, qs, rfl, -, hnamed, hblank₁⟩ := takes_seq.1 h
  obtain rfl := hnamed.of_literal
  obtain rfl := hopened.of_literal
  obtain rfl := hquote₁.of_literal
  obtain rfl := hquote₂.of_literal
  obtain rfl := hclose.of_literal
  have hquoted : '"' ∉ quoted := by
    cases hquoted with
    | part hquoted => exact (isRun_of_takes hquoted).notMem (by decide)
  -- the two texts agree from mark to mark
  rw [lead_eq, hname] at hs
  have hopen : blank₁ ++ '(' :: (blank₂ ++ '"' :: (quoted ++ '"' :: (blank₃ ++ ')' ::
      (blank ++ behind)))) = [] ++ '(' :: ('"' :: (argument ++ '"' :: ')' ::
        (between.text ++ rest))) := by
    simpa using hs
  obtain ⟨-, hfirst⟩ := append_cons_inj (notMem_of_takes_spaces hblank₁ (by decide))
    List.not_mem_nil hopen
  obtain ⟨-, hsecond⟩ := append_cons_inj (t := []) (notMem_of_takes_spaces hblank₂ (by decide))
    List.not_mem_nil hfirst
  obtain ⟨-, hthird⟩ := append_cons_inj hquoted (hargument.notMem (by decide)) hsecond
  obtain ⟨-, hfourth⟩ := append_cons_inj (t := []) (notMem_of_takes_spaces hblank₃ (by decide))
    List.not_mem_nil hthird
  exact ⟨blank, notMem_of_takes_spaces hblank (by decide), hfourth⟩

/-- What a declaration takes behind its tag closes apart, and its keyword is in it. -/
theorem exists_of_takes_declarationHead {name : String} {content : Part} {names : List String}
    {optional keyword : String} (hwords : ∀ word ∈ keyword :: optional :: names, ')' ∉ word.toList)
    {place : Cursor} {s : List Char} {parts : List (Part × List Char)}
    (h : (declarationHead name content names optional keyword).Takes place s parts) :
    ∃ quoted taken parts, s = quoted ++ taken ∧
      (Shape.quotedTag name content).Takes place quoted parts ∧ closesApart false taken = true ∧
        ∃ before c after, isSpace c = true ∧ taken = before ++ (keyword.toList ++ c :: after) := by
  -- the parts of the match, from the last one back to the tags
  obtain ⟨front, blank, ps, qs, rfl, -, h, hblank⟩ := takes_seq.1 h
  obtain ⟨front, word, ps, qs, rfl, -, h, hword⟩ := takes_seq.1 h
  obtain ⟨front, option, ps, qs, rfl, -, h, hoption⟩ := takes_seq.1 h
  obtain ⟨front, modifiers, ps, qs, rfl, -, h, hmodifiers⟩ := takes_seq.1 h
  obtain ⟨quoted, tags, ps, qs, rfl, -, hquoted, htags⟩ := takes_seq.1 h
  obtain rfl := hword.of_literal
  obtain ⟨tags, htaken, rfl⟩ := Tag.exists_of_takes_many htags
  have hblank := isRun_of_takes hblank
  obtain ⟨hkeyword, hoptional, hnames⟩ : ')' ∉ keyword.toList ∧ ')' ∉ optional.toList ∧
      ∀ word ∈ names, ')' ∉ word.toList := by
    simpa using hwords
  have hspace (c : Char) (hc : isSpace c = true) : c ≠ ')' := ne_of_class hc (by decide)
  have hne {word : String} (hword : ')' ∉ word.toList) (c : Char) (hc : c ∈ word.toList) :
      c ≠ ')' := ne_of_mem_of_not_mem hc hword
  -- words and blanks hold no closing parenthesis, so the tags alone decide
  have hoption : ')' ∉ option := by
    have hwithin : (maybe (Shape.word optional ++ Shape.spaces1) : Pattern Part).Within
        (· != ')') fun _ => none := by
      simpa [Shape.word, Shape.spaces1] using ⟨hne hoptional, hspace⟩
    intro hmem
    exact absurd (hoption.forall_char hwithin _ hmem) (by decide)
  have hmodifiers : ')' ∉ modifiers := by
    have hwithin : (Shape.modifiers names).Within (· != ')') fun _ => none := by
      simpa [Shape.modifiers, Shape.spaces1] using
        ⟨fun word hword => hne (hnames word hword), hspace⟩
    intro hmem
    exact absurd (hmodifiers.forall_char hwithin _ hmem) (by decide)
  have hrest : ')' ∉ modifiers ++ (option ++ (keyword.toList ++ blank)) := by
    simp [hmodifiers, hoption, hkeyword, hblank.notMem (by decide : isSpace ')' = false)]
  have hapart := closesApart_tags (fun hspaces => notMem_of_takes_spaces hspaces (by decide))
    htaken hrest
  obtain ⟨c, after, rfl⟩ := List.exists_cons_of_ne_nil hblank.ne_nil
  refine ⟨quoted, _, ps, ?_, hquoted, hapart, tags.flatMap Tag.text ++ (modifiers ++ option), c,
    after, hblank.forall_char c List.mem_cons_self, ?_⟩
  · simp
  · simp

/-! ### Stuck tags -/

/-- Somewhere in the text there is the keyword with white space behind it. -/
def holdsWord (keyword : String) (text : List Char) : Bool :=
  text.tails.any fun text => keyword.toList.isPrefixOf text &&
    (text.drop keyword.toList.length).head?.any isSpace

theorem holdsWord_append {keyword : String} {c : Char} (hc : isSpace c = true)
    (before after : List Char) : holdsWord keyword (before ++ (keyword.toList ++ c :: after)) =
      true := by
  refine List.any_eq_true.2 ⟨keyword.toList ++ c :: after,
    (List.mem_tails _ _).2 (List.suffix_append _ _), ?_⟩
  rw [List.drop_left, Bool.and_eq_true, List.isPrefixOf_iff_prefix]
  exact ⟨List.prefix_append _ _, hc⟩

/-- The arguments of a further tag go on behind a closing parenthesis without another tag, and
the keyword of the declaration is in none of the tags. -/
structure Between.IsStuck (keyword : String) (between : Between) : Prop where
  nested : ∃ tag ∈ between.tags, ∃ arguments ∈ tag.arguments?, ∃ back ∈ arguments.tails,
    ')' :: back ∈ arguments.tails ∧ '@' ∉ back
  keyword : holdsWord keyword between.text = false

instance (keyword : String) : DecidablePred (Between.IsStuck keyword) := fun between =>
  decidable_of_iff ((∃ tag ∈ between.tags, ∃ arguments ∈ tag.arguments?, ∃ back ∈ arguments.tails,
      ')' :: back ∈ arguments.tails ∧ '@' ∉ back) ∧ holdsWord keyword between.text = false)
    ⟨fun h => ⟨h.1, h.2⟩, fun h => ⟨h.nested, h.keyword⟩⟩

/-- The text of stuck tags goes on behind a closing parenthesis up to another one, without a sign
in between. -/
theorem Between.IsStuck.exists_text_eq {keyword : String} (h : between.IsStuck keyword) :
    ∃ front back after, '@' ∉ back ∧ between.text = front ++ ')' :: (back ++ ')' :: after) := by
  obtain ⟨tag, htag, arguments, harguments, back, -, hsuffix, hback⟩ := h.nested
  obtain ⟨before, others, htags⟩ := List.append_of_mem htag
  obtain ⟨inner, rfl⟩ := (List.mem_tails _ _).1 hsuffix
  have hlist : tag.argumentList = '(' :: (inner ++ ')' :: (back ++ [')'])) := by
    rw [Tag.argumentList, harguments]
    simp
  refine ⟨between.gap ++ (before.flatMap Tag.text ++ '@' :: (tag.name ++ '(' :: inner)), back,
    tag.gap ++ others.flatMap Tag.text, hback, ?_⟩
  simp [Between.text, htags, Tag.text, Tag.bare, hlist]

/-- **A declaration behind tags that get stuck is missed.** -/
theorem Between.misses {name word : String} (hname : name.toList = '@' :: word.toList)
    {content : Part} {names : List String} {optional keyword : String}
    (hwords : ∀ word ∈ keyword :: optional :: names, ')' ∉ word.toList)
    (hargument : IsArgument argument) (hstuck : between.IsStuck keyword) (rest : List Char) :
    (declarationHead name content names optional keyword).Misses
      (lead word argument between ++ rest) := by
  intro place hplace k
  cases hrun : (declarationHead name content names optional keyword).run place k with
  | none => rfl
  | some trail =>
    have hwithin : (declarationHead name content names optional keyword).Within (fun _ => true)
        fun _ => some fun _ => true := by
      simp [declarationHead, Shape.quotedTag, Shape.tags, Shape.tag, Shape.modifiers, Shape.word,
        Shape.spaces, Shape.spaces1]
    obtain ⟨s, behind, spans, -, hs, htakes, -, -⟩ := hwithin.takes_of_run hrun
    obtain ⟨quoted, taken, parts, rfl, hquoted, hapart, before, c, after, hc, htaken⟩ :=
      exists_of_takes_declarationHead hwords htakes
    rw [hplace, List.append_assoc] at hs
    obtain ⟨blank, hblank, hbetween⟩ := rest_eq_of_takes_quotedTag hname hquoted hargument hs.symm
    obtain ⟨front, back, inner, hback, htext⟩ := hstuck.exists_text_eq
    have hsplit : (blank ++ taken) ++ behind =
        front ++ ')' :: (back ++ ')' :: (inner ++ rest)) := by
      simpa [htext] using hbetween
    -- so the match ends within the tags, where the keyword is missing
    obtain ⟨middle, hmiddle⟩ :=
      exists_append_of_closesApart hback (closesApart_append hblank hapart false) hsplit
    have hwhole : between.text = (blank ++ before) ++ (keyword.toList ++
        c :: (after ++ (middle ++ ')' :: inner))) := by
      have hfront : between.text = (front ++ ')' :: back) ++ ')' :: inner := by
        simpa using htext
      simp [hfront, hmiddle, htaken]
    have hholds := hstuck.keyword
    rw [hwhole, holdsWord_append hc] at hholds
    cases hholds

end RpcBinder.Declaration
