import RpcBinder.Declaration.Anchor
import RpcBinder.Proofs.Declaration.Modifiers
import RpcBinder.Proofs.Declaration.Shapes
import RpcBinder.Proofs.Declaration.Tag
import RpcBinder.Proofs.Pattern.Finds

/-!
# The head of an anchor

An anchor of either side begins with its tag, which may have arguments, and with the words of an
abstract class up to the name.  The shape of an anchor reads such a head and misses any text that
does not begin with the sign of a tag.

## Main definitions

* `AnchorHead` — what stands in an anchor up to the name of the class.

## Main results

* `AnchorHead.reads` — the shape of a head reads it.
* `misses_anchorShape`, `isClear_anchorShape` — an anchor begins with its tag and nowhere else.
* `anchorAt_of_describes` — the anchor behind a match that begins with a head.
-/

namespace RpcBinder.Declaration

open Pattern

/-- The modifiers of an anchor's class. -/
def anchorModifiers : List String :=
  ["public", "internal", "private", "open", "final", "sealed"]

/-- What stands in an anchor up to the name of its class. -/
structure AnchorHead where
  /-- The tag with the white space behind it. -/
  tag : Tag
  /-- The modifiers, each with the white space behind it. -/
  modifiers : List (String × List Char)
  /-- The white space behind the word that makes the class abstract. -/
  abstractGap : List Char
  /-- The white space in front of the name. -/
  classGap : List Char
  /-- The name of the class. -/
  name : List Char

namespace AnchorHead

/-- The words of the class, up to its name. -/
def words (head : AnchorHead) : List Char :=
  head.modifiers.flatMap modifierText ++
    ("abstract".toList ++ (head.abstractGap ++ ("class".toList ++ (head.classGap ++ head.name))))

/-- The text of a head. -/
def text (head : AnchorHead) : List Char :=
  head.tag.text ++ head.words

/-- A head with the tag `word`. -/
structure IsWellFormed (word : String) (head : AnchorHead) : Prop where
  tag_name : word.toList = '@' :: head.tag.name
  tag : head.tag.IsWellFormed (· != ')') isSpace
  modifiers : ∀ modifier ∈ head.modifiers,
    modifier.1 ∈ anchorModifiers ∧ IsRun isSpace modifier.2
  abstractGap : IsRun isSpace head.abstractGap
  classGap : IsRun isSpace head.classGap
  name : IsIdentifier head.name

instance (word : String) (head : AnchorHead) : Decidable (head.IsWellFormed word) :=
  decidable_of_iff (word.toList = '@' :: head.tag.name ∧
      head.tag.IsWellFormed (· != ')') isSpace ∧
      (∀ modifier ∈ head.modifiers, modifier.1 ∈ anchorModifiers ∧ IsRun isSpace modifier.2) ∧
      IsRun isSpace head.abstractGap ∧ IsRun isSpace head.classGap ∧ IsIdentifier head.name)
    ⟨fun ⟨h1, h2, h3, h4, h5, h6⟩ => ⟨h1, h2, h3, h4, h5, h6⟩,
      fun ⟨h1, h2, h3, h4, h5, h6⟩ => ⟨h1, h2, h3, h4, h5, h6⟩⟩

/-- The parts of a head. -/
def parts (head : AnchorHead) : List (Part × List Char) :=
  (if head.tag.arguments?.isSome then [(.arguments, head.tag.argumentList)] else []) ++
    [(.name, head.name)]

variable {word : String} {head : AnchorHead} {rest : List Char}

theorem areModifiers_anchor : AreModifiers anchorModifiers isSpace where
  starts := by decide
  apart := by decide

/-- They begin with a letter. -/
theorem areModifiers_word : AreModifiers anchorModifiers fun c => !isWord c where
  starts := by decide +kernel
  apart := areModifiers_anchor.apart

/-- The tag is read with its arguments. -/
theorem reads_tag (h : head.IsWellFormed word) (hrest : ∀ c ∈ rest.head?, isSpace c = false)
    (hopen : '(' ∉ rest.head?) :
    Reads (Shape.word word ++ Shape.spaces ++
        maybe (part .arguments (Shape.word "(" ++ stretch (· != ')') ++ Shape.word ")")) ++
        Shape.spaces)
      head.tag.text rest
      (if head.tag.arguments?.isSome then [(.arguments, head.tag.argumentList)] else []) := by
  have hgap : isBlank head.tag.gap = true := List.all_eq_true.2 h.tag.gap
  have hbehind : Reads Shape.spaces head.tag.gap rest [] := Shape.reads_spaces hgap hrest
  cases harguments : head.tag.arguments? with
  | none =>
    -- without arguments the white space is read in front of them
    have hmiss : Misses (part Part.arguments
        (Shape.word "(" ++ stretch (· != ')') ++ Shape.word ")")) rest := by
      have hword : Misses (Shape.word "(" : Pattern Part) rest :=
        misses_literal fun ⟨more, hmore⟩ => hopen (hmore ▸ rfl)
      exact ((hword.seq _).seq _).part _
    have htext : head.tag.text = word.toList ++ head.tag.gap := by
      simp [Tag.text, Tag.bare, Tag.argumentList, harguments, h.tag_name]
    rw [htext]
    exact (((reads_literal _ _).seq hbehind).seq_nil (reads_maybe_of_misses hmiss)).seq_nil
      (Shape.reads_spaces_nil hrest)
  | some arguments =>
    have htext : head.tag.text =
        word.toList ++ [] ++ ('(' :: (arguments ++ [')'])) ++ head.tag.gap := by
      simp [Tag.text, Tag.bare, Tag.argumentList, harguments, h.tag_name]
    have hlist : head.tag.argumentList = '(' :: (arguments ++ [')']) := by
      simp [Tag.argumentList, harguments]
    have hall : arguments.all (· != ')') = true :=
      List.all_eq_true.2 fun c hc => h.tag.arguments arguments harguments c hc
    have hinner : Reads (Shape.word "(" ++ stretch (· != ')') ++ Shape.word ")" : Pattern Part)
        ('(' :: (arguments ++ [')'])) (head.tag.gap ++ rest) [] :=
      ((reads_literal ['('] _).seq (reads_stretch hall (by simp))).seq (reads_literal [')'] _)
    rw [htext, hlist]
    exact (((reads_literal _ _).seq (Shape.reads_spaces_nil (by simp; decide))).seq
      (hinner.part Part.arguments).maybe).seq hbehind

/-- No type parameters follow. -/
theorem misses_typeParams {blank : List Char} (hblank : isBlank blank = true) {stop : Char}
    (hstop : stop = ':' ∨ stop = '(') (more : List Char) :
    Misses (Shape.spaces ++ Shape.word "<" ++ stretch (· != '>') ++ Shape.word ">" : Pattern Part)
      (blank ++ stop :: more) := by
  have hspace : isSpace stop = false := by rcases hstop with rfl | rfl <;> decide
  have hopen : stop ≠ '<' := by rcases hstop with rfl | rfl <;> decide
  have hfront : Misses (Shape.spaces ++ Shape.word "<" : Pattern Part) (blank ++ stop :: more) :=
    misses_stretch_append
      (fun c hc text => misses_literal_cons
        (ne_of_class (forall_isSpace_of_isBlank hblank c hc) (by decide)) _ text)
      (misses_stretch_of_misses (by simpa using hspace) (misses_literal_cons hopen _ more))
  exact (hfront.seq _).seq _

theorem isWord_stop {stop : Char} (hstop : stop = ':' ∨ stop = '(') : isWord stop = false := by
  rcases hstop with rfl | rfl <;> decide +kernel

theorem words_append (head : AnchorHead) (rest : List Char) :
    head.words ++ rest = head.modifiers.flatMap modifierText ++ ("abstract".toList ++
      (head.abstractGap ++ ("class".toList ++ (head.classGap ++ (head.name ++ rest))))) := by
  simp [words]

/-- The words of a class begin with a letter. -/
theorem isWord_of_mem_head?_words (h : head.IsWellFormed word) {c : Char}
    (hc : c ∈ (head.words ++ rest).head?) : isWord c = true := by
  rw [words_append] at hc
  have habstract : ∀ c ∈ ("abstract".toList ++ (head.abstractGap ++ ("class".toList ++
      (head.classGap ++ (head.name ++ rest))))).head?, (!isWord c) = false := by
    simp
    decide +kernel
  have hword := head?_modifiers areModifiers_word (fun modifier hm => (h.modifiers modifier hm).1)
    habstract c hc
  simpa using hword

/-- **The shape of a head reads a head**, in front of white space and of a colon or a
parenthesis. -/
theorem reads (h : head.IsWellFormed word) {blank : List Char} (hblank : isBlank blank = true)
    {stop : Char} (hstop : stop = ':' ∨ stop = '(') (more : List Char) :
    Reads (Shape.anchorHead word) head.text (blank ++ stop :: more) head.parts := by
  generalize hrest : blank ++ stop :: more = rest
  have hword : ∀ c ∈ rest.head?, isWord c = false :=
    hrest ▸ head?_blank_append hblank (isWord_stop hstop) more
  -- the words begin with a letter, at which the tag ends
  have hletter : ∀ c ∈ (head.words ++ rest).head?, isWord c = true := fun c =>
    isWord_of_mem_head?_words h
  have hopen : '(' ∉ (head.words ++ rest).head? :=
    fun hc => absurd (hletter _ hc) (by decide +kernel)
  have hsign : ¬ "@".toList <+: head.words ++ rest :=
    fun ⟨more, hmore⟩ => absurd (hletter '@' (hmore ▸ rfl)) (by decide +kernel)
  have hname : ∀ c ∈ (head.name ++ rest).head?, isSpace c = false := fun c hc =>
    isSpace_of_isWord (Shape.head?_append_of_isRun h.name hc)
  have hclash : ∀ word ∈ anchorModifiers, clashes word.toList "abstract".toList = true := by decide
  have htag := (reads_tag h (fun c hc => isSpace_of_isWord (hletter c hc)) hopen).seq_nil
    (reads_many_of_misses ((((misses_literal hsign).seq _).seq _).seq _) : Reads Shape.tags [] _ [])
  -- no modifier is a front of the word behind them, so the modifiers end there
  have hmodifiers : Reads (Shape.modifiers anchorModifiers) (head.modifiers.flatMap modifierText)
      ("abstract".toList ++ (head.abstractGap ++ ("class".toList ++ (head.classGap ++
        (head.name ++ rest))))) [] :=
    reads_many_modifiers areModifiers_anchor h.modifiers
      (fun word hword => not_prefix_of_clashes (hclash word hword) _) (by simp; decide)
  have habstract : Reads (Shape.spaces1) head.abstractGap ("class".toList ++ (head.classGap ++
        (head.name ++ rest))) [] := reads_stretch1 h.abstractGap (by simp; decide)
  have hclass : Reads Shape.spaces1 head.classGap (head.name ++ rest) [] :=
    reads_stretch1 h.classGap hname
  have hpart : Reads (part Part.name (stretch1 isWord)) head.name rest [(.name, head.name)] :=
    (reads_stretch1 h.name hword).part Part.name
  rw [words_append] at htag
  have hall := ((((((htag.seq hmodifiers).seq (reads_literal _ _)).seq
    habstract).seq (reads_literal _ _)).seq hclass).seq hpart).seq_nil
    (reads_maybe_of_misses (hrest ▸ misses_typeParams hblank hstop more))
  have htext : head.text = head.tag.text ++ head.modifiers.flatMap modifierText ++
      "abstract".toList ++ head.abstractGap ++ "class".toList ++ head.classGap ++ head.name := by
    simp [text, words]
  have hparts : head.parts = (if head.tag.arguments?.isSome then
      [(Part.arguments, head.tag.argumentList)] else []) ++ [] ++ [] ++ [] ++ [] ++ [] ++
        [(Part.name, head.name)] := by
    simp [parts]
  rw [htext, hparts]
  exact hall

section Misses

variable {second : Pattern Part}

/-- What has to follow a name misses in the middle of one, and behind this one. -/
theorem misses_name {name : List Char} (hname : IsIdentifier name) {blank : List Char}
    (hblank : isBlank blank = true) {stop : Char} (hstop : stop = ':' ∨ stop = '(')
    {more : List Char} (hword : ∀ c, isWord c = true → ∀ text, Misses second (c :: text))
    (hrest : Misses second (blank ++ stop :: more)) :
    Misses (part Part.name (stretch1 isWord) ++
        (maybe (Shape.spaces ++ Shape.word "<" ++ stretch (· != '>') ++ Shape.word ">") ++ second))
      (name ++ (blank ++ stop :: more)) := by
  -- a part of the name may be given back, but no type parameters open within it
  have hmiddle : ∀ c, isWord c = true → ∀ text, Misses (maybe (Shape.spaces ++ Shape.word "<" ++
      stretch (· != '>') ++ Shape.word ">") ++ second) (c :: text) := by
    intro c hc text
    have hopen : c ≠ '<' := ne_of_class hc (by decide +kernel)
    have hparams : Misses (Shape.spaces ++ Shape.word "<" : Pattern Part) (c :: text) :=
      misses_stretch_of_misses (by simpa using isSpace_of_isWord hc)
        (misses_literal_cons hopen _ text)
    exact misses_maybe (((hparams.seq _).seq _).seq _) (hword c hc text)
  have hbehind : Misses (maybe (Shape.spaces ++ Shape.word "<" ++ stretch (· != '>') ++
      Shape.word ">") ++ second) (blank ++ stop :: more) :=
    misses_maybe ((misses_typeParams hblank hstop more).seq _) hrest
  exact misses_part _ (misses_stretch1_append
    (fun c hc text => hmiddle c (hname.forall_char c hc) text) hname.ne_nil
    (misses_stretch_of_misses (head?_blank_append hblank (isWord_stop hstop) more)
      hbehind))

/-- What a head has behind its tag. -/
def wordsShape (second : Pattern Part) : Pattern Part :=
  Shape.tags ++ (Shape.modifiers anchorModifiers ++ (Shape.word "abstract" ++ (Shape.spaces1 ++
    (Shape.word "class" ++ (Shape.spaces1 ++ (part Part.name (stretch1 isWord) ++
      (maybe (Shape.spaces ++ Shape.word "<" ++ stretch (· != '>') ++ Shape.word ">") ++
        second)))))))

theorem misses_tags {text : List Char} (h : ¬ "@".toList <+: text) (hsecond : Misses second text) :
    Misses (Shape.tags ++ second) text :=
  misses_many (((((misses_literal h).seq _).seq _).seq _).seq _) hsecond

/-- It begins with a sign or a letter. -/
theorem misses_wordsShape {c : Char} (hword : isWord c = false) (hsign : c ≠ '@')
    (text : List Char) : Misses (wordsShape second) (c :: text) := by
  have hc : (!isWord c) = true := by simp [hword]
  have hletter : c ≠ 'a' := by
    rintro rfl
    exact absurd hword (by decide +kernel)
  have habstract : Misses (Shape.word "abstract" : Pattern Part) (c :: text) :=
    misses_literal_cons hletter _ text
  exact misses_tags (fun hfront => hsign (List.cons_prefix_cons.1 hfront).1.symm)
    (misses_many (((misses_anyOf (areModifiers_word.not_prefix hc text)).seq _).seq _)
      (habstract.seq _))

/-- What has to follow the words misses behind them, so they are missed. -/
theorem misses_words (h : head.IsWellFormed word) {blank : List Char}
    (hblank : isBlank blank = true) {stop : Char} (hstop : stop = ':' ∨ stop = '(')
    {more : List Char} (hword : ∀ c, isWord c = true → ∀ text, Misses second (c :: text))
    (hrest : Misses second (blank ++ stop :: more)) :
    Misses (wordsShape second) (head.words ++ (blank ++ stop :: more)) := by
  have hfirst : ∀ c ∈ (head.words ++ (blank ++ stop :: more)).head?, isWord c = true :=
    fun c => isWord_of_mem_head?_words h
  have hsign : ¬ "@".toList <+: head.words ++ (blank ++ stop :: more) :=
    fun ⟨text, htext⟩ => absurd (hfirst '@' (htext ▸ rfl)) (by decide +kernel)
  have hletter : ∀ c ∈ (head.name ++ (blank ++ stop :: more)).head?, isSpace c = false :=
    fun c hc => isSpace_of_isWord (Shape.head?_append_of_isRun h.name hc)
  have hnoName : ∀ c, isSpace c = true → ∀ text,
      Misses (part Part.name (stretch1 isWord)) (c :: text) := fun c hc text =>
    (misses_stretch1_cons (isWord_eq_false_of_isSpace hc) text).part _
  -- from the name back to the modifiers, each word leads to a text that is missed
  have hname := misses_name h.name hblank hstop hword hrest
  have hclass := misses_literal_append (misses_stretch1_append (p := isSpace)
    (fun c hc text => (hnoName c (h.classGap.forall_char c hc) text).seq _) h.classGap.ne_nil
    (misses_stretch_of_misses hletter hname)) "class".toList
  have habstract := misses_literal_append (misses_stretch1_append (p := isSpace)
    (fun c hc text => (misses_literal_cons
      (ne_of_class (h.abstractGap.forall_char c hc) (by decide)) _ text).seq _) h.abstractGap.ne_nil
    (misses_stretch_of_misses (by simp; decide) hclass)) "abstract".toList
  have hclash : ∀ word ∈ anchorModifiers, clashes word.toList "abstract".toList = true ∧
      clashes "abstract".toList word.toList = true := by decide
  refine misses_tags hsign ?_
  rw [words_append]
  exact misses_many_modifiers areModifiers_anchor h.modifiers
    (fun word hword rest => (misses_literal_of_clashes (hclash word hword).2 rest).seq _)
    (fun c hc rest => (misses_literal_cons (ne_of_class hc (by decide)) _ rest).seq _)
    (fun word hword => not_prefix_of_clashes (hclash word hword).1 _) (by simp; decide) habstract

/-- What has to follow a head misses behind this one, so the whole is missed. -/
theorem misses (h : head.IsWellFormed word) {blank : List Char} (hblank : isBlank blank = true)
    {stop : Char} (hstop : stop = ':' ∨ stop = '(') {more : List Char}
    (hword : ∀ c, isWord c = true → ∀ text, Misses second (c :: text))
    (hrest : Misses second (blank ++ stop :: more)) :
    Misses (Shape.anchorHead word ++ second) (head.text ++ (blank ++ stop :: more)) := by
  have hwords := misses_words h hblank hstop hword hrest
  have hfirst : ∀ c ∈ (head.words ++ (blank ++ stop :: more)).head?, isWord c = true :=
    fun c => isWord_of_mem_head?_words h
  have hletter : ∀ c ∈ (head.words ++ (blank ++ stop :: more)).head?, isSpace c = false :=
    fun c hc => isSpace_of_isWord (hfirst c hc)
  have hgap : ∀ c ∈ head.tag.gap, isSpace c = true := h.tag.gap
  have hspaces : ∀ gap, gap <:+ head.tag.gap → Misses (Shape.spaces ++ wordsShape second)
      (gap ++ (head.words ++ (blank ++ stop :: more))) := fun gap hsuffix =>
    misses_stretch_append
      (fun c hc text => misses_wordsShape (isWord_eq_false_of_isSpace (hgap c (hsuffix.subset hc)))
        (ne_of_class (hgap c (hsuffix.subset hc)) (by decide)) text)
      (misses_stretch_of_misses hletter hwords)
  suffices hright : Misses (Shape.word word ++ (Shape.spaces ++ (maybe (part Part.arguments
      (Shape.word "(" ++ stretch (· != ')') ++ Shape.word ")")) ++
        (Shape.spaces ++ wordsShape second)))) (head.text ++ (blank ++ stop :: more)) from
    fun place hplace k => hright place hplace k
  cases harguments : head.tag.arguments? with
  | none =>
    have htext : head.text ++ (blank ++ stop :: more) = word.toList ++ (head.tag.gap ++
        (head.words ++ (blank ++ stop :: more))) := by
      simp [text, Tag.text, Tag.bare, Tag.argumentList, harguments, h.tag_name]
    -- the gap may be divided anywhere between the two places for white space
    have hlist : ∀ gap, gap <:+ head.tag.gap → Misses (maybe (part Part.arguments
        (Shape.word "(" ++ stretch (· != ')') ++ Shape.word ")")) ++
          (Shape.spaces ++ wordsShape second))
            (gap ++ (head.words ++ (blank ++ stop :: more))) := by
      intro gap hsuffix
      have hopen : Misses (Shape.word "(" : Pattern Part)
          (gap ++ (head.words ++ (blank ++ stop :: more))) := by
        refine misses_literal fun hfront => ?_
        obtain ⟨text, htext⟩ := hfront
        have hhead := congrArg List.head? htext
        cases gap with
        | nil => exact absurd (hfirst '(' (hhead ▸ rfl)) (by decide +kernel)
        | cons c gap =>
          obtain rfl : '(' = c := Option.some.inj hhead
          exact absurd (hgap '(' (hsuffix.subset List.mem_cons_self)) (by decide)
      exact misses_maybe ((((hopen.seq _).seq _).part _).seq _) (hspaces gap hsuffix)
    rw [htext]
    exact misses_literal_append (misses_stretch_of_suffixes hlist
      (misses_stretch_of_misses hletter (hlist [] (List.nil_suffix)))) _
  | some arguments =>
    have htext : head.text ++ (blank ++ stop :: more) = word.toList ++ ("(".toList ++ (arguments ++
        (")".toList ++ (head.tag.gap ++ (head.words ++ (blank ++ stop :: more)))))) := by
      simp [text, Tag.text, Tag.bare, Tag.argumentList, harguments, h.tag_name]
    have hclose : ∀ c ∈ arguments, ∀ text, Misses (Shape.word ")" ++
        (Shape.spaces ++ wordsShape second)) (c :: text) := by
      intro c hc text
      have hne : c ≠ ')' := by simpa using h.tag.arguments arguments harguments c hc
      exact (misses_literal_cons hne _ text).seq _
    have hlist : Misses (part Part.arguments (Shape.word "(" ++ stretch (· != ')') ++
        Shape.word ")") ++ (Shape.spaces ++ wordsShape second)) ("(".toList ++ (arguments ++
          (")".toList ++ (head.tag.gap ++ (head.words ++ (blank ++ stop :: more)))))) := by
      have hright := misses_literal_append (misses_stretch_append hclose
        (misses_stretch_of_misses (p := (· != ')')) (by simp)
          (misses_literal_append (hspaces _ List.suffix_rfl) ")".toList))) "(".toList
      exact misses_part _ fun place hplace k => hright place hplace k
    -- without its arguments the tag is followed by their parenthesis
    have hnone : Misses (Shape.spaces ++ wordsShape second) ("(".toList ++ (arguments ++
        (")".toList ++ (head.tag.gap ++ (head.words ++ (blank ++ stop :: more)))))) :=
      misses_stretch_of_misses (by simp; decide)
        (misses_wordsShape (by decide +kernel) (by decide) _)
    rw [htext]
    exact misses_literal_append (misses_stretch_of_misses (by simp; decide)
      (misses_maybe hlist hnone)) _

end Misses

end AnchorHead

/-! ### Anchors in a text -/

/-- The word of the tag of a side. -/
def anchorWord : Side → String
  | .client => "@RpcClient"
  | .server => "@RpcServer"

/-- An anchor begins with its tag. -/
theorem misses_anchorShape (side : Side) {text : List Char}
    (h : ¬ (anchorWord side).toList <+: text) : Misses (anchorShape side) text := by
  have hhead : Misses (Shape.anchorHead (anchorWord side)) text :=
    (((((((((((misses_literal h).seq _).seq _).seq _).seq _).seq _).seq _).seq _).seq _).seq
      _).seq _).seq _
  cases side with
  | client => exact (((hhead.seq _).seq _).seq _).seq _
  | server =>
    exact ((((((((((((((hhead.seq _).seq _).seq _).seq _).seq _).seq _).seq _).seq _).seq _).seq
      _).seq _).seq _).seq _).seq _).seq _

theorem isClear_anchorShape (side : Side) {s : List Char} (h : '@' ∉ s) (rest : List Char) :
    (anchorShape side).IsClear s rest := by
  refine isClear_of_forall (fun c hc rest => misses_anchorShape side fun hfront => h ?_) rest
  have hsign : '@' = c := by
    cases side with
    | client => exact (List.cons_prefix_cons.1 hfront).1
    | server => exact (List.cons_prefix_cons.1 hfront).1
  rwa [hsign]

theorem finds_anchorShape_nil (side : Side) : (anchorShape side).Finds [] [] :=
  .nil (misses_anchorShape side (by cases side <;> decide))

/-- The anchor behind a match that begins with a head and goes on with the type of an interface. -/
theorem anchorAt_of_describes {side : Side} {head : AnchorHead} {found : Found Part}
    {actual : Match Part} (h : found.Describes actual) {captured : List Char}
    {more : List (Part × List Char)}
    (hparts : found.parts = head.parts ++ (interfacePart side, captured) :: more)
    (hmore : more.lookup .arguments = none) (resolver : Resolver) :
    anchorAt resolver side actual =
      { package := resolver.scope.package
        className := String.ofList head.name
        interfaceFqn := String.ofList (resolver.qualify (anchorBase captured))
        routeOverride := (parseAnchorArguments head.tag.argumentList).service
        generateFactory := (parseAnchorArguments head.tag.argumentList).generateFactory } := by
  have hname : actual.part .name = head.name := by
    rw [Match.part, h.part?, hparts, AnchorHead.parts]
    split <;> rfl
  have hinterface : actual.part (interfacePart side) = captured := by
    rw [Match.part, h.part?, hparts, AnchorHead.parts]
    cases side <;> split <;> rfl
  -- a tag without arguments captures none, which reads as an empty list
  have harguments : actual.part .arguments = head.tag.argumentList := by
    rw [Match.part, h.part?, hparts, AnchorHead.parts]
    split
    · rfl
    · next hnone =>
      have hlist : head.tag.argumentList = [] := by
        have htag : head.tag.arguments? = none := by simpa using hnone
        simp [Tag.argumentList, htag]
      rw [hlist]
      cases side with
      | client => exact congrArg (Option.getD · []) hmore
      | server => exact congrArg (Option.getD · []) hmore
  rw [anchorAt, hname, hinterface, harguments]

end RpcBinder.Declaration
