import Mathlib.Data.List.Infix
import RpcBinder.Proofs.Declaration.Shapes
import RpcBinder.Proofs.Declaration.Tag

/-!
# What stands between a tag and its declaration

Between the tag of a service or of a method and the first word of its declaration there may be
further tags.  The arguments of a further tag are read up to the first closing parenthesis, so
further tags are read if none of them holds one in its arguments.

A declaration of another kind begins in none of these tags as long as they neither are nor hold
a tag of that kind: not its name alone, but with the parenthesis behind it.

## Main definitions

* `Between`, `Between.IsReadable` — white space and further tags, none of which holds a closing
  parenthesis in its arguments.
* `lead` — the tag of a declaration, with what stands between.
* `opensTag`, `BeginsWithTag` — where a pattern can match that begins with a tag.
* `Tag.IsFurther` — a tag that neither is nor holds one of a kind.

## Main results

* `Between.reads` — readable tags are read.
* `BeginsWithTag.isClear_tag`, `BeginsWithTag.isClear_head` — where nothing begins.
-/

namespace RpcBinder.Declaration

open Pattern

/-- What stands between the tag of a declaration and its first word. -/
structure Between where
  /-- White space. -/
  gap : List Char
  /-- Further tags. -/
  tags : List Tag

namespace Between

def text (between : Between) : List Char :=
  between.gap ++ between.tags.flatMap Tag.text

/-- The same without the further tags. -/
def bare (between : Between) : Between :=
  ⟨between.gap, []⟩

/-- No arguments go on behind a closing parenthesis. -/
def IsReadable (between : Between) : Prop :=
  ∀ tag ∈ between.tags, ∀ arguments ∈ tag.arguments?, ')' ∉ arguments

instance : DecidablePred IsReadable := fun between =>
  inferInstanceAs (Decidable (∀ tag ∈ between.tags, ∀ arguments ∈ tag.arguments?, ')' ∉ arguments))

/-- What stands between is made of white space and of tags. -/
structure IsWellFormed (between : Between) : Prop where
  gap : isBlank between.gap = true
  tags : ∀ tag ∈ between.tags, tag.IsWellFormed (fun _ => true) isSpace

instance : DecidablePred IsWellFormed := fun between =>
  decidable_of_iff (isBlank between.gap = true ∧
      ∀ tag ∈ between.tags, tag.IsWellFormed (fun _ => true) isSpace)
    ⟨fun h => ⟨h.1, h.2⟩, fun h => ⟨h.gap, h.tags⟩⟩

end Between

/-- The tag of a declaration, with its quoted argument. -/
def ownTag (word : String) (argument gap : List Char) : Tag :=
  ⟨word.toList, some ('"' :: (argument ++ ['"'])), gap⟩

/-- The tag of a declaration and what stands between. -/
def lead (word : String) (argument : List Char) (between : Between) : List Char :=
  (ownTag word argument between.gap).text ++ between.tags.flatMap Tag.text

theorem lead_eq (word : String) (argument : List Char) (between : Between) :
    lead word argument between =
      '@' :: (word.toList ++ '(' :: '"' :: (argument ++ '"' :: ')' :: between.text)) := by
  simp [lead, ownTag, Tag.text, Tag.bare, Tag.argumentList, Between.text]

/-! ### Reading -/

variable {between : Between} {argument rest : List Char}

namespace Between

/-- Tags that are readable are read, up to the first word of the declaration. -/
theorem reads {name word : String} (hname : name.toList = '@' :: word.toList) {content : Part}
    (hargument : IsArgument argument) (hwf : between.IsWellFormed) (hreadable : between.IsReadable)
    (hspace : ∀ c ∈ rest.head?, isSpace c = false) (hsign : '@' ∉ rest.head?) :
    Reads (Shape.quotedTag name content ++ Shape.tags) (lead word argument between) rest
      [(content, argument)] := by
  have hquoted : IsRun (· != '"') argument :=
    hargument.mono fun c hc => (Bool.and_eq_true_iff.1 hc).1
  have hgap : ∀ c, isSpace c = true → isSpace c = true := fun _ h => h
  -- no argument holds a closing parenthesis, so the list ends where the pattern ends it
  have htags : ∀ tag ∈ between.tags, tag.IsWellFormed (· != ')') isSpace := by
    intro tag hmem
    have htag := hwf.tags tag hmem
    refine ⟨htag.name, ?_, htag.gap, htag.gap_ne_nil⟩
    intro arguments harguments c hc
    rw [bne_iff_ne]
    rintro rfl
    exact hreadable tag hmem arguments harguments hc
  have hmany : Reads Shape.tags (between.tags.flatMap Tag.text) rest [] := by
    refine Tag.reads_many (by decide) hgap htags ?_ hspace hsign
    intro tag hmem rest hrest
    exact Shape.reads_spaces (List.all_eq_true.2 (hwf.tags tag hmem).gap) hrest
  have htag : Reads (Shape.quotedTag name content)
      (name.toList ++ '(' :: '"' :: (argument ++ '"' :: ')' :: between.gap))
      (between.tags.flatMap Tag.text ++ rest) [(content, argument)] :=
    Shape.reads_quotedTag hquoted hwf.gap (Tag.head?_tags between.tags hgap hspace)
  have hlead : lead word argument between =
      (name.toList ++ '(' :: '"' :: (argument ++ '"' :: ')' :: between.gap)) ++
        between.tags.flatMap Tag.text := by
    simp [lead_eq, hname, Between.text]
  rw [hlead]
  exact htag.seq hmany

end Between

/-! ### Where a tag begins -/

/-- The text begins with a tag of this name and with the parenthesis of its arguments. -/
def opensTag (word : String) (text : List Char) : Bool :=
  ('@' :: word.toList).isPrefixOf text &&
    ((text.drop ('@' :: word.toList).length).dropWhile isSpace).head? == some '('

theorem opensTag_iff {word : String} {text : List Char} : opensTag word text = true ↔
    ∃ blank more, isBlank blank = true ∧ text = '@' :: word.toList ++ (blank ++ '(' :: more) := by
  unfold opensTag
  rw [Bool.and_eq_true, List.isPrefixOf_iff_prefix, beq_iff_eq]
  constructor
  · rintro ⟨⟨behind, rfl⟩, hopen⟩
    rw [List.drop_left, List.head?_eq_some_iff] at hopen
    obtain ⟨more, hmore⟩ := hopen
    refine ⟨behind.takeWhile isSpace, more, List.all_takeWhile, ?_⟩
    rw [← hmore, List.takeWhile_append_dropWhile]
  · rintro ⟨blank, more, hblank, rfl⟩
    refine ⟨List.prefix_append _ _, ?_⟩
    have hopen : isSpace '(' = false := by decide
    rw [List.drop_left, dropWhile_append_eq (List.all_eq_true.1 hblank) (by simpa using hopen)]
    rfl

/-- Runs of a class that end where no character of the class follows are the same. -/
theorem eq_of_append_eq {p : Char → Bool} {s t a b : List Char} (hs : IsRun p s) (ht : IsRun p t)
    (ha : ∀ c ∈ a.head?, p c = false) (hb : ∀ c ∈ b.head?, p c = false) (h : s ++ a = t ++ b) :
    s = t := by
  have htake := congrArg (List.takeWhile p) h
  rwa [takeWhile_append_eq hs.forall_char ha, takeWhile_append_eq ht.forall_char hb] at htake

/-- What begins with a tag begins with its sign. -/
theorem opensTag_eq_false_of_ne {word : String} {c : Char} (hc : c ≠ '@') (text : List Char) :
    opensTag word (c :: text) = false := by
  rw [Bool.eq_false_iff]
  intro hopens
  obtain ⟨blank, more, -, heq⟩ := opensTag_iff.1 hopens
  exact hc (List.cons.inj heq).1

/-- A tag with another name is none of this name. -/
theorem opensTag_eq_false_of_name_ne {word : String} {name rest : List Char}
    (hword : IsRun Shape.isDottedWord word.toList) (hname : IsRun Shape.isDottedWord name)
    (hne : name ≠ word.toList) (hrest : ∀ c ∈ rest.head?, Shape.isDottedWord c = false) :
    opensTag word ('@' :: (name ++ rest)) = false := by
  rw [Bool.eq_false_iff]
  intro hopens
  obtain ⟨blank, more, hblank, heq⟩ := opensTag_iff.1 hopens
  have hmore : ∀ c ∈ (blank ++ '(' :: more).head?, Shape.isDottedWord c = false := by
    cases blank with
    | nil => simpa using (by decide : Shape.isDottedWord '(' = false)
    | cons c blank =>
      have hc : isSpace c = true := List.all_eq_true.1 hblank c List.mem_cons_self
      simpa using isDottedWord_eq_false_of_isSpace hc
  exact hne (eq_of_append_eq hname hword hrest hmore (List.cons.inj heq).2)

/-- Whatever the pattern matches begins with a tag of this name and its parenthesis. -/
structure BeginsWithTag (pattern : Pattern Part) (word : String) : Prop where
  isRun : IsRun Shape.isDottedWord word.toList
  misses : ∀ {text}, opensTag word text = false → pattern.Misses text

/-- The quoted argument of a tag stands in parentheses. -/
theorem misses_quotedTag_of_opensTag {name word : String} (hname : name.toList = '@' :: word.toList)
    {content : Part} {text : List Char} (h : opensTag word text = false) :
    (Shape.quotedTag name content).Misses text := by
  -- a match would begin with the word, blanks and a parenthesis, and so open a tag
  have hfront : (Shape.word name ++ Shape.spaces ++ Shape.word "(").Misses text := by
    intro place hplace k
    cases hrun : (Shape.word name ++ Shape.spaces ++ Shape.word "(").run place k with
    | none => rfl
    | some trail =>
      have hwithin : (Shape.word name ++ Shape.spaces ++ Shape.word "(" : Pattern Part).Within
          (fun _ => true) fun _ => none := by
        simp [Shape.word, Shape.spaces]
      obtain ⟨s, rest, spans, -, hs, htakes, -, -⟩ := hwithin.takes_of_run hrun
      obtain ⟨front, opened, ps, qs, rfl, -, hfront, hopened⟩ := takes_seq.1 htakes
      obtain ⟨named, blank, ps, qs, rfl, -, hnamed, hblank⟩ := takes_seq.1 hfront
      obtain rfl := hopened.of_literal
      obtain rfl := hnamed.of_literal
      cases hblank with
      | stretch hall =>
        have hopens : opensTag word text = true := by
          refine opensTag_iff.2 ⟨blank, rest, List.all_eq_true.2 hall, ?_⟩
          rw [← hplace, hs, hname]
          simp
        rw [h] at hopens
        cases hopens
  exact (((((((hfront.seq _).seq _).seq _).seq _).seq _).seq _).seq _)

theorem beginsWithTag_service : BeginsWithTag Shape.service "RpcService" where
  isRun := by decide
  misses h := by
    have hmiss : (Shape.quotedTag "@RpcService" .route).Misses _ :=
      misses_quotedTag_of_opensTag (by decide) h
    exact (((((hmiss.seq _).seq _).seq _).seq _).seq _).seq _

theorem beginsWithTag_method : BeginsWithTag Shape.method "RpcMethod" where
  isRun := by decide
  misses h := by
    have hmiss : (Shape.quotedTag "@RpcMethod" .id).Misses _ :=
      misses_quotedTag_of_opensTag (by decide) h
    exact (((((((hmiss.seq _).seq _).seq _).seq _).seq _).seq _).seq _).seq _

/-- A tag that is none of this name and holds none in its arguments. -/
structure Tag.IsFurther (word : String) (tag : Tag) : Prop where
  name : tag.name ≠ word.toList
  arguments : ∀ arguments ∈ tag.arguments?, ∀ text ∈ arguments.tails, opensTag word text = false

instance (word : String) : DecidablePred (Tag.IsFurther word) := fun tag =>
  decidable_of_iff (tag.name ≠ word.toList ∧
      ∀ arguments ∈ tag.arguments?, ∀ text ∈ arguments.tails, opensTag word text = false)
    ⟨fun h => ⟨h.1, h.2⟩, fun h => ⟨h.name, h.arguments⟩⟩

/-- Behind a closing parenthesis there is nothing left of a tag that opens. -/
theorem opensTag_of_append_close {word : String} (hword : IsRun Shape.isDottedWord word.toList)
    {text rest : List Char} (h : opensTag word (text ++ ')' :: rest) = true) :
    opensTag word text = true := by
  obtain ⟨blank, more, hblank, heq⟩ := opensTag_iff.1 h
  have hclose : ')' ∉ '@' :: word.toList ++ (blank ++ ['(']) := by
    have hname : ')' ∉ word.toList := hword.notMem (by decide)
    have hgap : ')' ∉ blank := notMem_of_isBlank hblank (by decide)
    simp [hname, hgap]
  have hsplit : text ++ ')' :: rest = ('@' :: word.toList ++ (blank ++ ['('])) ++ more := by
    simpa using heq
  rcases List.append_eq_append_iff.1 hsplit with ⟨middle, hopening, hrest⟩ | ⟨middle, rfl, -⟩
  · -- the parenthesis would lie in what the tag opens with
    cases middle with
    | nil =>
      refine opensTag_iff.2 ⟨blank, [], hblank, ?_⟩
      simpa using hopening.symm
    | cons c middle =>
      obtain rfl : ')' = c := (List.cons.inj hrest).1
      exact absurd (hopening ▸ List.mem_append_right _ List.mem_cons_self) hclose
  · exact opensTag_iff.2 ⟨blank, middle, hblank, by simp⟩

namespace BeginsWithTag

variable {pattern : Pattern Part} {word : String}

theorem isClear_of_notMem (h : BeginsWithTag pattern word) {s : List Char} (hs : '@' ∉ s)
    (rest : List Char) : pattern.IsClear s rest := by
  refine isClear_of_forall (fun c hc rest => ?_) rest
  have hne : c ≠ '@' := fun heq => hs (heq ▸ hc)
  exact h.misses (opensTag_eq_false_of_ne hne rest)

theorem isClear_arguments (h : BeginsWithTag pattern word) {arguments : List Char}
    (harguments : ∀ text ∈ arguments.tails, opensTag word text = false) (rest : List Char) :
    pattern.IsClear arguments (')' :: rest) := by
  induction arguments with
  | nil => exact trivial
  | cons c arguments ih =>
    have hhere := harguments (c :: arguments) ((List.mem_tails _ _).2 List.suffix_rfl)
    refine ⟨h.misses ?_, ih fun text htext => ?_⟩
    · rw [Bool.eq_false_iff]
      intro hopens
      rw [opensTag_of_append_close h.isRun hopens] at hhere
      cases hhere
    · exact harguments text ((List.mem_tails _ _).2
        (((List.mem_tails _ _).1 htext).trans (List.suffix_cons c arguments)))

/-- Nothing begins in a further tag. -/
theorem isClear_tag (h : BeginsWithTag pattern word) {tag : Tag} {isArgument : Char → Bool}
    (hwf : tag.IsWellFormed isArgument isSpace) (hfurther : tag.IsFurther word)
    (rest : List Char) : pattern.IsClear tag.text rest := by
  have hgap : '@' ∉ tag.gap := notMem_of_isBlank (List.all_eq_true.2 hwf.gap) (by decide)
  have hname : '@' ∉ tag.name := hwf.name.notMem (by decide)
  have hhead : ∀ c ∈ (tag.argumentList ++ (tag.gap ++ rest)).head?, Shape.isDottedWord c = false :=
    Tag.head?_gap hwf fun _ h => h
  have hlist : pattern.IsClear tag.argumentList (tag.gap ++ rest) := by
    unfold Tag.argumentList
    cases harguments : tag.arguments? with
    | none => exact trivial
    | some arguments =>
      have hopen := h.isClear_of_notMem (s := ['(']) (by decide)
      have hinner := h.isClear_arguments (hfurther.arguments arguments harguments)
      have hclose := h.isClear_of_notMem (s := [')']) (by decide)
      exact (hopen _).append ((hinner _).append (hclose _))
  -- only the sign of the tag could begin a match, and its name is another one
  have hbare : pattern.IsClear tag.bare (tag.gap ++ rest) := by
    have hfirst := opensTag_eq_false_of_name_ne h.isRun hwf.name hfurther.name hhead
    rw [← List.append_assoc] at hfirst
    exact ⟨h.misses hfirst, (h.isClear_of_notMem hname _).append hlist⟩
  exact hbare.append (h.isClear_of_notMem hgap rest)

/-- Nothing begins in further tags. -/
theorem isClear_tags (h : BeginsWithTag pattern word) {tags : List Tag} {isArgument : Char → Bool}
    (hwf : ∀ tag ∈ tags, tag.IsWellFormed isArgument isSpace)
    (hfurther : ∀ tag ∈ tags, tag.IsFurther word) (rest : List Char) :
    pattern.IsClear (tags.flatMap Tag.text) rest := by
  induction tags with
  | nil => exact trivial
  | cons tag tags ih =>
    obtain ⟨htag, htags⟩ := List.forall_mem_cons.1 hwf
    obtain ⟨hfirst, hothers⟩ := List.forall_mem_cons.1 hfurther
    rw [List.flatMap_cons]
    exact (h.isClear_tag htag hfirst _).append (ih htags hothers)

/-- Nothing begins behind the sign of a declaration's tag and in what stands between. -/
theorem isClear_lead (h : BeginsWithTag pattern word) {own : String} (hown : '@' ∉ own.toList)
    (hargument : IsArgument argument) (hwf : between.IsWellFormed)
    (hfurther : ∀ tag ∈ between.tags, tag.IsFurther word)
    (hfirst : pattern.Misses (lead own argument between ++ rest)) :
    pattern.IsClear (lead own argument between) rest := by
  have hquoted : '@' ∉ argument := hargument.notMem (by decide)
  have hgap : '@' ∉ between.gap := notMem_of_isBlank hwf.gap (by decide)
  have hlead : lead own argument between = ('@' :: (own.toList ++ '(' :: '"' ::
      (argument ++ '"' :: ')' :: between.gap))) ++ between.tags.flatMap Tag.text := by
    simp [lead_eq, Between.text]
  rw [hlead] at hfirst ⊢
  have htags := h.isClear_tags hwf.tags hfurther rest
  rw [List.append_assoc] at hfirst
  have hbehind := h.isClear_of_notMem (s := own.toList ++ '(' :: '"' ::
    (argument ++ '"' :: ')' :: between.gap)) (by simp [hown, hquoted, hgap])
  exact IsClear.append ⟨hfirst, hbehind _⟩ htags

/-- Nor in the words of the declaration, up to its name. -/
theorem isClear_head (h : BeginsWithTag pattern word) {own : String} (hown : '@' ∉ own.toList)
    (hargument : IsArgument argument) (hwf : between.IsWellFormed)
    (hfurther : ∀ tag ∈ between.tags, tag.IsFurther word) {words : List Char} (hwords : '@' ∉ words)
    (hfirst : pattern.Misses (lead own argument between ++ (words ++ rest))) :
    pattern.IsClear (lead own argument between ++ words) rest :=
  (h.isClear_lead hown hargument hwf hfurther hfirst).append (h.isClear_of_notMem hwords rest)

/-- The tag of another kind of declaration is none of this name. -/
theorem misses_lead (h : BeginsWithTag pattern word) {own : String}
    (hown : IsRun Shape.isDottedWord own.toList) (hne : own.toList ≠ word.toList)
    (argument : List Char) (between : Between) (rest : List Char) :
    pattern.Misses (lead own argument between ++ rest) := by
  have hopen : Shape.isDottedWord '(' = false := by decide
  have hfirst : opensTag word ('@' :: (own.toList ++ '(' :: '"' ::
      (argument ++ '"' :: ')' :: (between.text ++ rest)))) = false :=
    opensTag_eq_false_of_name_ne h.isRun hown hne (by simpa using hopen)
  refine h.misses ?_
  simpa [lead_eq] using hfirst

end BeginsWithTag

end RpcBinder.Declaration
