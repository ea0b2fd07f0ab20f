import RpcBinder.Proofs.Declaration.AnchorHead
import RpcBinder.Proofs.Declaration.NamedType
import RpcBinder.Proofs.TypeRef.Commas

/-!
# Reading server anchors back

The interface of a server anchor is the type of a constructor parameter.  The pattern of an anchor
takes of it what stands in front of the first comma or closing parenthesis, and goes on with the
parenthesis that closes the constructor, perhaps behind a comma.  Any closing parenthesis does,
one within the type as well.  But behind a comma of the type another type begins, so an anchor is
lost if its type has a comma in front of its first closing parenthesis.

## Main definitions

* `ServerDecl` — a server anchor, with `ServerDecl.source` and `ServerDecl.anchor`.
* `NamedType.hasEarlyComma` — the type has a comma in front of its first closing parenthesis.

## Main results

* `ServerDecl.IsWellFormed.exists_reads` — an anchor without an early comma is read.
* `ServerDecl.IsWellFormed.misses` — an anchor with an early comma is missed.
* `anchorsOf_serverSource` — **the anchors without an early comma are read back.**
-/

namespace RpcBinder

/-- A comma stands in the type in front of any closing parenthesis. -/
def NamedType.hasEarlyComma (type : NamedType) : Bool :=
  (type.text.takeWhile (· != ')')).contains ','

namespace Declaration

open Pattern

/-- The modifiers that say who may see a parameter. -/
def visibilities : List String :=
  ["private", "protected", "internal", "public"]

/-- The modifiers that make a property of a parameter. -/
def bindings : List String :=
  ["val", "var"]

/-- The words of a parameter. -/
def paramWords : List String :=
  "impl" :: bindings ++ visibilities

theorem areModifiers_paramWords : AreModifiers paramWords isSpace where
  starts := by decide
  apart := by decide

theorem areModifiers_visibilities : AreModifiers visibilities isSpace :=
  areModifiers_paramWords.mono (List.subset_append_right _ _)

theorem areModifiers_bindings : AreModifiers bindings isSpace :=
  areModifiers_paramWords.mono fun _ hword =>
    List.mem_append_left _ (List.mem_cons_of_mem _ hword)

/-- A server anchor. -/
structure ServerDecl where
  /-- The tag and the words up to the name of the class. -/
  head : AnchorHead
  /-- The white space in front of the parenthesis. -/
  beforeOpen : List Char
  /-- The white space behind it. -/
  behindOpen : List Char
  /-- Who may see the parameter, if this is said, with the white space behind it. -/
  visibility? : Option (String × List Char)
  /-- Whether the parameter is a property, with the white space behind it. -/
  binding? : Option (String × List Char)
  /-- The white space in front of the colon. -/
  beforeColon : List Char
  /-- The white space behind the colon. -/
  behindColon : List Char
  /-- The type of the interface. -/
  type : NamedType
  /-- The white space behind the type. -/
  behindType : List Char
  /-- The white space behind a last comma, if there is one. -/
  behindComma? : Option (List Char)
  /-- What follows the constructor, up to the next anchor. -/
  ending : List Char

namespace ServerDecl

/-- The parameter up to its type. -/
def param (declared : ServerDecl) : List Char :=
  declared.visibility?.toList.flatMap modifierText ++
    (declared.binding?.toList.flatMap modifierText ++
      ("impl".toList ++ (declared.beforeColon ++ ':' :: declared.behindColon)))

/-- What stands behind the type. -/
def behind (declared : ServerDecl) : List Char :=
  declared.behindType ++ (declared.behindComma?.elim [] (',' :: ·) ++ ')' :: declared.ending)

/-- What stands between the name of the class and the type. -/
def opening (declared : ServerDecl) : List Char :=
  declared.beforeOpen ++ '(' :: (declared.behindOpen ++ declared.param)

/-- The text of an anchor. -/
def source (declared : ServerDecl) : List Char :=
  declared.head.text ++ (declared.opening ++ (declared.type.text ++ declared.behind))

/-- The text of anchors, one after the other. -/
def sourceAll (declared : List ServerDecl) : List Char :=
  declared.flatMap source

/-- The anchor that is declared. -/
def anchor (resolver : Resolver) (declared : ServerDecl) : Anchor where
  package := resolver.scope.package
  className := String.ofList declared.head.name
  interfaceFqn := String.ofList (resolver.qualify declared.type.base)
  routeOverride := (parseAnchorArguments declared.head.tag.argumentList).service
  generateFactory := (parseAnchorArguments declared.head.tag.argumentList).generateFactory

/-- No tag begins within an anchor, in its arguments neither if its type has an early comma. -/
structure IsWellFormed (declared : ServerDecl) : Prop where
  head : declared.head.IsWellFormed (anchorWord .server)
  beforeOpen : isBlank declared.beforeOpen = true
  behindOpen : isBlank declared.behindOpen = true
  visibility : ∀ modifier ∈ declared.visibility?,
    modifier.1 ∈ visibilities ∧ IsRun isSpace modifier.2
  binding : ∀ modifier ∈ declared.binding?, modifier.1 ∈ bindings ∧ IsRun isSpace modifier.2
  beforeColon : isBlank declared.beforeColon = true
  behindColon : isBlank declared.behindColon = true
  type : declared.type.IsWellFormed
  behindType : isBlank declared.behindType = true
  behindComma : ∀ blank ∈ declared.behindComma?, isBlank blank = true
  sign_notMem_type : '@' ∉ declared.type.text
  sign_notMem_ending : '@' ∉ declared.ending
  sign_notMem_arguments : declared.type.hasEarlyComma = true →
    '@' ∉ declared.head.tag.argumentList

/-- A character that the pattern takes for one of the type. -/
def isImplementedChar (c : Char) : Bool :=
  c != ',' && c != ')'

/-- The pattern of a supertype behind the constructor. -/
def parent : Pattern Part :=
  Shape.spaces ++ Shape.word ":" ++ Shape.spaces ++ part .supertype (stretch1 Shape.isDottedWord)

/-- The pattern behind the type. -/
def closing : Pattern Part :=
  Shape.spaces ++ (maybe (Shape.word ",") ++ (Shape.spaces ++ (Shape.word ")" ++ maybe parent)))

/-- The pattern from the white space in front of the type on. -/
def typed : Pattern Part :=
  Shape.spaces ++ (part .implemented (stretch1 isImplementedChar) ++ closing)

variable {declared : ServerDecl}

theorem isImplementedChar_of_isSpace {c : Char} (hc : isSpace c = true) :
    isImplementedChar c = true := by
  have hcomma : c ≠ ',' := ne_of_class hc (by decide)
  have hparen : c ≠ ')' := ne_of_class hc (by decide)
  simp [isImplementedChar, hcomma, hparen]

theorem isImplementedChar_of_notMem {text : List Char} (hcomma : ',' ∉ text) (hparen : ')' ∉ text) :
    ∀ c ∈ text, isImplementedChar c = true := by
  intro c hc
  have hne : c ≠ ',' := ne_of_mem_of_not_mem hc hcomma
  have hne' : c ≠ ')' := ne_of_mem_of_not_mem hc hparen
  simp [isImplementedChar, hne, hne']

/-! ### Anchors that are lost -/

/-- Behind a comma no parenthesis closes. -/
theorem misses_spaces_closeParen {text : List Char} (h : opensEntry text = true)
    (second : Pattern Part) : Misses (Shape.spaces ++ (Shape.word ")" ++ second)) text := by
  obtain ⟨c, hc, hparen⟩ := (Option.any_eq_true _ _).1 h
  obtain ⟨more, heq⟩ := List.head?_eq_some_iff.1 hc
  have hmiss : Misses (Shape.word ")" ++ second) (text.dropWhile isSpace) := by
    rw [heq]
    have hne : c ≠ ')' := by simpa using hparen
    exact (misses_literal_cons hne _ more).seq _
  have hspace : ∀ d ∈ (text.dropWhile isSpace).head?, isSpace d = false := by
    simpa using @head?_dropWhile_append _ isSpace text [] nofun
  -- the blanks may be given back one by one, but none of them is the parenthesis
  rw [← List.takeWhile_append_dropWhile (p := isSpace) (l := text)]
  exact misses_stretch_append
    (fun d hd rest => (misses_literal_cons
      (ne_of_class (List.mem_takeWhile_imp hd) (by decide)) _ rest).seq _)
    (misses_stretch_of_misses hspace hmiss)

/-- What has to follow the type misses in front of a comma with a type behind it. -/
theorem misses_closing {s text : List Char} (hs : ∀ c ∈ s, isImplementedChar c = true)
    (h : opensEntry text = true) : Misses closing (s ++ ',' :: text) := by
  have hchar : ∀ {t}, t <:+ s → ∀ c ∈ t, c ≠ ',' ∧ c ≠ ')' := fun ht c hc => by
    simpa [isImplementedChar] using hs c (ht.subset hc)
  have hparen : ∀ t, t <:+ s → Misses (Shape.word ")" ++ maybe parent) (t ++ ',' :: text) := by
    intro t ht
    cases t with
    | nil => exact (misses_literal_cons (by decide) _ text).seq _
    | cons c t => exact (misses_literal_cons (hchar ht c List.mem_cons_self).2 _ _).seq _
  -- `t` is what earlier white space leaves of the text in front of the comma
  have hspaces : ∀ t, t <:+ s → Misses (Shape.spaces ++ (Shape.word ")" ++ maybe parent))
      (t ++ ',' :: text) := fun t ht =>
    misses_stretch_of_suffixes (fun u hu => hparen u (hu.trans ht))
      (misses_stretch_of_misses (by simp; decide) (hparen [] List.nil_suffix))
  have hcomma : ∀ t, t <:+ s → Misses (maybe (Shape.word ",") ++ (Shape.spaces ++ (Shape.word ")" ++
      maybe parent))) (t ++ ',' :: text) := by
    intro t ht
    refine misses_maybe ?_ (hspaces t ht)
    cases t with
    | nil => exact misses_literal_append (misses_spaces_closeParen h _) [',']
    | cons c t => exact (misses_literal_cons (hchar ht c List.mem_cons_self).1 _ _).seq _
  exact misses_stretch_of_suffixes hcomma
    (misses_stretch_of_misses (by simp; decide) (hcomma [] List.nil_suffix))

/-- **A type is missed** in front of a comma with another type behind it. -/
theorem misses_typed {s text : List Char} (hs : ∀ c ∈ s, isImplementedChar c = true)
    (h : opensEntry text = true) : Misses typed (s ++ ',' :: text) := by
  -- the type may begin and end anywhere in front of the comma
  have hclosing : ∀ t, t <:+ s → Misses closing (t ++ ',' :: text) := fun t ht =>
    misses_closing (fun c hc => hs c (ht.subset hc)) h
  have hpart : ∀ t, t <:+ s → Misses (part Part.implemented (stretch1 isImplementedChar) ++ closing)
      (t ++ ',' :: text) := by
    intro t ht
    refine misses_part _ ?_
    cases t with
    | nil =>
      exact (misses_stretch1_cons (by decide) text).seq _
    | cons c t =>
      have htail : t <:+ s := (List.suffix_cons c t).trans ht
      have hstretch : Misses (stretch isImplementedChar ++ closing) (t ++ ',' :: text) :=
        misses_stretch_of_suffixes (fun u hu => hclosing u (hu.trans htail))
          (misses_stretch_of_misses (by simp; decide) (hclosing [] List.nil_suffix))
      exact (misses_one_append hstretch c).assoc
  exact misses_stretch_of_suffixes hpart
    (misses_stretch_of_misses (by simp; decide) (hpart [] List.nil_suffix))

/-- The pattern of the parameter. -/
def paramShape : Pattern Part :=
  maybe (anyOf visibilities ++ Shape.spaces1) ++ (maybe (anyOf bindings ++ Shape.spaces1) ++
    (Shape.word "impl" ++ (Shape.spaces ++ (Shape.word ":" ++ typed))))

/-- What has to follow a mark, and white space in front of it, misses behind it. -/
theorem misses_spaces_mark {mark : Char} (hspace : isSpace mark = false) {second : Pattern Part}
    {blank : List Char} (hblank : isBlank blank = true) {text : List Char}
    (h : Misses second text) :
    Misses (Shape.spaces ++ (literal [mark] ++ second)) (blank ++ mark :: text) := by
  refine misses_stretch_append (fun c hc rest => ?_)
    (misses_stretch_of_misses (by simpa using hspace) (misses_literal_append h [mark]))
  have hne : c ≠ mark := ne_of_class (forall_isSpace_of_isBlank hblank c hc) hspace
  exact (misses_literal_cons hne [] rest).seq _

/-- Behind its visibility a parameter begins with a word. -/
theorem IsWellFormed.exists_word (h : declared.IsWellFormed) (rest : List Char) :
    ∃ word ∈ "impl" :: bindings, ∃ more, declared.binding?.toList.flatMap modifierText ++
      ("impl".toList ++ rest) = word.toList ++ more := by
  cases hbinding : declared.binding? with
  | none => exact ⟨"impl", List.mem_cons_self, rest, rfl⟩
  | some modifier =>
    have hmem := (h.binding modifier hbinding).1
    refine ⟨modifier.1, List.mem_cons_of_mem _ hmem, modifier.2 ++ ("impl".toList ++ rest), ?_⟩
    simp [modifierText]

/-- None of the words that say who may see a parameter is one of the others. -/
theorem ne_of_visibility {word other : String} (hword : word ∈ visibilities)
    (hother : other ∈ "impl" :: bindings) : other ≠ word := by
  have hall : ∀ word ∈ visibilities, ∀ other ∈ "impl" :: bindings, other ≠ word := by decide
  exact hall word hword other hother

/-- What has to follow the colon misses behind it, so the parameter is missed. -/
theorem IsWellFormed.misses_paramShape (h : declared.IsWellFormed) {text : List Char}
    (hmiss : Misses typed text) :
    Misses paramShape (declared.visibility?.toList.flatMap modifierText ++
      (declared.binding?.toList.flatMap modifierText ++
        ("impl".toList ++ (declared.beforeColon ++ ':' :: text)))) := by
  have hword : ∀ {word}, word ∈ "impl" :: bindings → word ∈ paramWords :=
    fun hmem => List.mem_append_left _ hmem
  have hvisibility : ∀ {word}, word ∈ visibilities → word ∈ paramWords :=
    fun hmem => List.mem_append_right _ hmem
  have himpl : "impl" ∈ paramWords := hword List.mem_cons_self
  have hne : ∀ word ∈ bindings, word ≠ "impl" := by decide
  -- from the mark back to the visibility: each optional word may be passed over, and none helps
  have hrest : Misses (Shape.word "impl" ++ (Shape.spaces ++ (Shape.word ":" ++ typed)))
      ("impl".toList ++ (declared.beforeColon ++ ':' :: text)) :=
    misses_literal_append (misses_spaces_mark (by decide) h.beforeColon hmiss) _
  have hbound : Misses (maybe (anyOf bindings ++ Shape.spaces1) ++ (Shape.word "impl" ++
      (Shape.spaces ++ (Shape.word ":" ++ typed))))
        (declared.binding?.toList.flatMap modifierText ++
          ("impl".toList ++ (declared.beforeColon ++ ':' :: text))) := by
    refine misses_maybe_modifier areModifiers_bindings h.binding (fun word hmem rest => ?_)
      (fun c hc rest => ?_) (fun word hmem => ?_) (by simp; decide) hrest
    · exact (misses_literal (areModifiers_paramWords.not_prefix_of_ne
        (hword (List.mem_cons_of_mem _ hmem)) himpl (hne word hmem).symm rest)).seq _
    · exact (misses_literal (areModifiers_paramWords.not_prefix hc rest "impl" himpl)).seq _
    · exact areModifiers_paramWords.not_prefix_of_ne himpl (hword (List.mem_cons_of_mem _ hmem))
        (hne word hmem) _
  have hnone : ∀ {rest}, (∀ word ∈ "impl" :: bindings, ¬ word.toList <+: rest) →
      Misses (maybe (anyOf bindings ++ Shape.spaces1) ++ (Shape.word "impl" ++
        (Shape.spaces ++ (Shape.word ":" ++ typed)))) rest := fun hwords =>
    misses_maybe
      (((misses_anyOf fun word hmem => hwords word (List.mem_cons_of_mem _ hmem)).seq _).seq _)
      ((misses_literal (hwords "impl" List.mem_cons_self)).seq _)
  obtain ⟨first, hfirst, more, heq⟩ := h.exists_word (declared.beforeColon ++ ':' :: text)
  refine misses_maybe_modifier areModifiers_visibilities h.visibility (fun word hmem rest => ?_)
    (fun c hc rest => ?_) (fun word hmem => ?_) ?_ hbound
  · exact hnone fun other hother => areModifiers_paramWords.not_prefix_of_ne (hvisibility hmem)
      (hword hother) (ne_of_visibility hmem hother) rest
  · exact hnone fun other hother =>
      areModifiers_paramWords.not_prefix hc rest other (hword hother)
  · rw [heq]
    exact areModifiers_paramWords.not_prefix_of_ne (hword hfirst) (hvisibility hmem)
      (ne_of_visibility hmem hfirst).symm _
  · rw [heq]
    exact areModifiers_paramWords.head? (hword hfirst) _

/-- An early comma with what stands around it. -/
theorem exists_split_of_earlyComma {text : List Char}
    (h : (text.takeWhile (· != ')')).contains ',' = true) :
    ∃ s more, text = s ++ ',' :: more ∧ ∀ c ∈ s, isImplementedChar c = true := by
  induction text with
  | nil => cases h
  | cons c text ih =>
    by_cases hparen : c = ')'
    · subst hparen
      cases h
    · by_cases hcomma : c = ','
      · exact ⟨[], text, by rw [hcomma]; rfl, List.forall_mem_nil _⟩
      · have hlater : (text.takeWhile (· != ')')).contains ',' = true := by
          rw [List.takeWhile_cons_of_pos (by simpa using hparen)] at h
          simpa [Ne.symm hcomma] using h
        obtain ⟨s, more, rfl, hs⟩ := ih hlater
        exact ⟨c :: s, more, rfl, List.forall_mem_cons.2
          ⟨by simp [isImplementedChar, hparen, hcomma], hs⟩⟩

/-- A parameter begins with a letter. -/
theorem IsWellFormed.head?_words (h : declared.IsWellFormed) (rest : List Char) :
    ∀ c ∈ (declared.visibility?.toList.flatMap modifierText ++
      (declared.binding?.toList.flatMap modifierText ++ ("impl".toList ++ rest))).head?,
      isSpace c = false := by
  obtain ⟨word, hword, more, heq⟩ := h.exists_word rest
  rw [heq]
  exact head?_modifiers areModifiers_visibilities
    (fun modifier hmem => (h.visibility modifier (Option.mem_toList.1 hmem)).1)
    (areModifiers_paramWords.head? (List.mem_append_left _ hword) more)

theorem misses_paramShape_of_isSpace {c : Char} (hc : isSpace c = true) (rest : List Char) :
    Misses paramShape (c :: rest) := by
  have hwords : ∀ word ∈ paramWords, ¬ word.toList <+: c :: rest :=
    areModifiers_paramWords.not_prefix hc rest
  exact misses_maybe (((misses_anyOf fun word hmem =>
      hwords word (List.mem_append_right _ hmem)).seq _).seq _)
    (misses_maybe (((misses_anyOf fun word hmem =>
        hwords word (List.mem_append_left _ (List.mem_cons_of_mem _ hmem))).seq _).seq _)
      ((misses_literal (hwords "impl" List.mem_cons_self)).seq _))

theorem source_append (declared : ServerDecl) (rest : List Char) :
    declared.source ++ rest = declared.head.text ++ (declared.beforeOpen ++ '(' ::
      (declared.behindOpen ++ (declared.visibility?.toList.flatMap modifierText ++
        (declared.binding?.toList.flatMap modifierText ++ ("impl".toList ++
          (declared.beforeColon ++ ':' :: (declared.behindColon ++
            (declared.type.text ++ (declared.behind ++ rest))))))))) := by
  simp [source, opening, param]

/-- **An anchor with an early comma is missed.** -/
theorem IsWellFormed.misses (h : declared.IsWellFormed)
    (hearly : declared.type.hasEarlyComma = true) (rest : List Char) :
    Misses Shape.serverAnchor (declared.source ++ rest) := by
  obtain ⟨s, more, htext, hs⟩ := exists_split_of_earlyComma hearly
  have hopens : opensEntry (more ++ (declared.behind ++ rest)) = true := by
    have hcommas := (NamedType.isWrittenType_text h.type).commasLeadOn
    rw [htext] at hcommas
    exact opensEntry_append (opensEntry_of_commasLeadOn hcommas) _
  have hchars : ∀ c ∈ declared.behindColon ++ s, isImplementedChar c = true := by
    intro c hc
    rcases List.mem_append.1 hc with hc | hc
    · exact isImplementedChar_of_isSpace (forall_isSpace_of_isBlank h.behindColon c hc)
    · exact hs c hc
  have hparam := h.misses_paramShape (misses_typed hchars hopens)
  have hbehind := misses_stretch_append (p := isSpace)
    (fun c hc rest => misses_paramShape_of_isSpace
      (forall_isSpace_of_isBlank h.behindOpen c hc) rest)
    (misses_stretch_of_misses (h.head?_words _) hparam)
  have hopen : Misses (Shape.spaces ++ (Shape.word "(" ++ (Shape.spaces ++ paramShape)))
      (declared.beforeOpen ++ '(' :: (declared.behindOpen ++ _)) :=
    misses_spaces_mark (by decide) h.beforeOpen hbehind
  -- a name that ends too early is followed by one of its own letters
  have hletter : ∀ c, isWord c = true → ∀ text, Misses (Shape.spaces ++ (Shape.word "(" ++
      (Shape.spaces ++ paramShape))) (c :: text) := by
    intro c hc text
    have hne : c ≠ '(' := ne_of_class hc (by decide +kernel)
    exact misses_stretch_of_misses (by simpa using isSpace_of_isWord hc)
      ((misses_literal_cons hne _ text).seq _)
  have hall := AnchorHead.misses h.head h.beforeOpen (Or.inr rfl) hletter hopen
  have hsource : declared.source ++ rest = declared.head.text ++ (declared.beforeOpen ++ '(' ::
      (declared.behindOpen ++ (declared.visibility?.toList.flatMap modifierText ++
        (declared.binding?.toList.flatMap modifierText ++ ("impl".toList ++
          (declared.beforeColon ++ ':' :: (declared.behindColon ++ s ++
            ',' :: (more ++ (declared.behind ++ rest))))))))) := by
    rw [source_append, htext]
    simp
  rw [hsource]
  exact fun place hplace k => hall place hplace k

/-! ### Anchors that are read -/

/-- What is taken of the type of an anchor and what follows it. -/
def captured (declared : ServerDecl) : List Char :=
  (declared.type.text ++ declared.behind).takeWhile isImplementedChar

/-- A closing parenthesis, perhaps behind a comma. -/
def IsCloser (closer : List Char) : Prop :=
  closer = [')'] ∨ ∃ blank, isBlank blank = true ∧ closer = ',' :: (blank ++ [')'])

theorem IsWellFormed.sign_notMem_behind (h : declared.IsWellFormed) : '@' ∉ declared.behind := by
  have hcomma : '@' ∉ declared.behindComma?.elim [] (',' :: ·) := by
    cases hblank : declared.behindComma? with
    | none => exact List.not_mem_nil
    | some blank =>
      have hsign : '@' ∉ blank := notMem_of_isBlank (h.behindComma blank hblank) (by decide)
      simpa using hsign
  have htype : '@' ∉ declared.behindType := notMem_of_isBlank h.behindType (by decide)
  have hending : '@' ∉ ')' :: declared.ending := by simpa using h.sign_notMem_ending
  rw [behind, List.mem_append, List.mem_append]
  exact not_or.2 ⟨htype, not_or.2 ⟨hcomma, hending⟩⟩

/-- What is captured ends at the first comma or closing parenthesis. -/
theorem captured_eq {s more : List Char} {stop : Char}
    (hs : ∀ c ∈ s, isImplementedChar c = true) (hstop : isImplementedChar stop = false)
    (heq : declared.type.text ++ declared.behind = s ++ stop :: more) : declared.captured = s := by
  rw [captured, heq]
  exact takeWhile_append_eq hs (by simpa using hstop)

/-- Without an early comma the type ends, as the pattern sees it, at a parenthesis. -/
theorem IsWellFormed.exists_closer (h : declared.IsWellFormed)
    (hearly : declared.type.hasEarlyComma = false) :
    ∃ closer after, declared.type.text ++ declared.behind =
      declared.captured ++ (closer ++ after) ∧ IsCloser closer ∧ '@' ∉ after := by
  rw [NamedType.hasEarlyComma, List.contains_eq_mem, decide_eq_false_iff_not] at hearly
  by_cases hparen : ')' ∈ declared.type.text
  · -- the first closing parenthesis of the type is taken for that of the constructor
    obtain ⟨s, more, htext, hs⟩ := List.eq_append_cons_of_mem hparen
    have hbefore : ∀ c ∈ s, (c != ')') = true := fun c hc =>
      bne_iff_ne.2 (ne_of_mem_of_not_mem hc hs)
    rw [htext, takeWhile_append_eq hbefore (by simp)] at hearly
    have heq : declared.type.text ++ declared.behind = s ++ ')' :: (more ++ declared.behind) := by
      rw [htext]
      simp
    refine ⟨[')'], more ++ declared.behind, ?_, Or.inl rfl, fun hmem => ?_⟩
    · rw [captured_eq (isImplementedChar_of_notMem hearly hs) (by decide) heq, heq]
      rfl
    · rcases List.mem_append.1 hmem with hmore | hbehind
      · exact h.sign_notMem_type (htext ▸ List.mem_append_right _ (List.mem_cons_of_mem _ hmore))
      · exact h.sign_notMem_behind hbehind
  · have hcomma : ',' ∉ declared.type.text := by
      have hall : ∀ c ∈ declared.type.text, (c != ')') = true := fun c hc =>
        bne_iff_ne.2 (ne_of_mem_of_not_mem hc hparen)
      rwa [List.takeWhile_eq_self_iff.2 hall] at hearly
    have hchars : ∀ c ∈ declared.type.text ++ declared.behindType, isImplementedChar c = true := by
      intro c hc
      rcases List.mem_append.1 hc with hc | hc
      · exact isImplementedChar_of_notMem hcomma hparen c hc
      · exact isImplementedChar_of_isSpace (forall_isSpace_of_isBlank h.behindType c hc)
    cases hblank : declared.behindComma? with
    | none =>
      have heq : declared.type.text ++ declared.behind =
          declared.type.text ++ declared.behindType ++ ')' :: declared.ending := by
        simp [behind, hblank]
      refine ⟨[')'], declared.ending, ?_, Or.inl rfl, h.sign_notMem_ending⟩
      rw [captured_eq hchars (by decide) heq, heq]
      rfl
    | some blank =>
      have heq : declared.type.text ++ declared.behind =
          declared.type.text ++ declared.behindType ++
            ',' :: (blank ++ ')' :: declared.ending) := by
        simp [behind, hblank]
      refine ⟨',' :: (blank ++ [')']), declared.ending, ?_,
        Or.inr ⟨blank, h.behindComma blank hblank, rfl⟩, h.sign_notMem_ending⟩
      rw [captured_eq hchars (by decide) heq, heq]
      simp

theorem reads_closer {closer : List Char} (h : IsCloser closer) (rest : List Char) :
    Reads (Shape.spaces ++ (maybe (Shape.word ",") ++ (Shape.spaces ++ Shape.word ")"))) closer rest
      [] := by
  rcases h with rfl | ⟨blank, hblank, rfl⟩
  · -- the parenthesis right behind the type
    have hcomma : Misses (Shape.word "," : Pattern Part) (')' :: rest) :=
      misses_literal_cons (by decide) _ rest
    have hparen : Reads (Shape.word ")") [')'] rest [] := reads_literal [')'] rest
    have hspaces : Reads Shape.spaces [] (')' :: rest) [] :=
      Shape.reads_spaces_nil (by simp; decide)
    exact hspaces.seq ((reads_maybe_of_misses hcomma).seq (hspaces.seq hparen))
  · -- a comma behind the type, and perhaps blanks
    have hparen : Reads (Shape.word ")") [')'] rest [] := reads_literal [')'] rest
    have hspaces : Reads Shape.spaces blank ([')'] ++ rest) [] :=
      Shape.reads_spaces hblank (by simp; decide)
    have hcomma : Reads (maybe (Shape.word ",")) [','] (blank ++ [')'] ++ rest) [] :=
      (reads_literal [','] _).maybe
    exact (Shape.reads_spaces_nil (by simp; decide)).seq (hcomma.seq (hspaces.seq hparen))

/-- Behind the constructor a supertype is read if there is one. -/
theorem exists_reads_parent (after : List Char) {rest : List Char}
    (hrest : ∀ c ∈ rest.head?, c = '@') :
    ∃ s t parts, after = s ++ t ∧ Reads (maybe parent) s (t ++ rest) parts ∧
      parts.lookup .arguments = none := by
  have hends : ∀ {p : Char → Bool}, p '@' = false → ∀ c ∈ rest.head?, p c = false :=
    fun hp c hc => hrest c hc ▸ hp
  have hnone : Misses parent (after ++ rest) → ∃ s t parts, after = s ++ t ∧
      Reads (maybe parent) s (t ++ rest) parts ∧ parts.lookup .arguments = none :=
    fun hmiss => ⟨[], after, [], rfl, reads_maybe_of_misses hmiss, rfl⟩
  obtain ⟨blank, text, rfl, hblank, hsolid⟩ := exists_eq_run_append (p := isSpace) after
    (hends (by decide))
  by_cases hcolon : text.head? = some ':'
  · obtain ⟨more, rfl⟩ := List.head?_eq_some_iff.1 hcolon
    obtain ⟨gap, text, rfl, hgap, hsolid⟩ := exists_eq_run_append (p := isSpace) more
      (hends (by decide))
    obtain ⟨name, t, rfl, hname, hend⟩ := exists_eq_run_append (p := Shape.isDottedWord) text
      (hends (by decide +kernel))
    by_cases hempty : name = []
    · -- no name behind the colon
      subst hempty
      refine hnone ?_
      have hpart : ∀ {text}, (∀ c ∈ text.head?, Shape.isDottedWord c = false) →
          Misses (part Part.supertype (stretch1 Shape.isDottedWord)) text := fun hclass =>
        ((misses_one hclass).seq _).part _
      have hbehind : Misses (Shape.spaces ++ part Part.supertype (stretch1 Shape.isDottedWord))
          (gap ++ (t ++ rest)) :=
        misses_stretch_append
          (fun c hc rest => hpart (by
            simpa using isDottedWord_eq_false_of_isSpace (List.all_eq_true.1 hgap c hc)))
          (misses_stretch_of_misses hsolid (hpart hend))
      have hall := misses_spaces_mark (show isSpace ':' = false by decide) hblank hbehind
      have htext : blank ++ ':' :: (gap ++ ([] ++ t)) ++ rest =
          blank ++ ':' :: (gap ++ (t ++ rest)) := by simp
      rw [htext]
      exact fun place hplace k => hall place hplace k
    · refine ⟨blank ++ [':'] ++ gap ++ name, t, [(.supertype, name)], by simp, ?_, rfl⟩
      have hpart : Reads (part Part.supertype (stretch1 Shape.isDottedWord)) name (t ++ rest)
          [(.supertype, name)] :=
        (reads_stretch1 ⟨hempty, List.all_eq_true.1 hname⟩ hend).part _
      have hgapped : Reads Shape.spaces gap (name ++ (t ++ rest)) [] :=
        Shape.reads_spaces hgap (by simpa using hsolid)
      have hfront : Reads Shape.spaces blank ([':'] ++ (gap ++ (name ++ (t ++ rest)))) [] :=
        Shape.reads_spaces hblank (by simp; decide)
      exact (((hfront.seq (reads_literal [':'] _)).seq hgapped).seq hpart).maybe
  · -- no colon behind the constructor
    refine hnone ?_
    have hmiss : ∀ {text : List Char}, text.head? ≠ some ':' →
        Misses (Shape.word ":" : Pattern Part) text := fun hne =>
      misses_literal fun ⟨more, hmore⟩ => hne (hmore ▸ rfl)
    have htext : (text ++ rest).head? ≠ some ':' := by
      cases text with
      | nil => exact fun heq => absurd (hrest ':' heq) (by decide)
      | cons c text => exact hcolon
    have hfront : Misses (Shape.spaces ++ Shape.word ":") (blank ++ (text ++ rest)) :=
      misses_stretch_append
        (fun c hc rest => hmiss (by
          have hne : c ≠ ':' := ne_of_class (List.all_eq_true.1 hblank c hc) (by decide)
          simpa using hne))
        (misses_stretch_of_misses hsolid (hmiss htext))
    rw [List.append_assoc]
    exact (hfront.seq _).seq _

/-- The parameter is read up to its type. -/
theorem IsWellFormed.reads_param (h : declared.IsWellFormed) {rest : List Char}
    (hrest : ∀ c ∈ rest.head?, isSpace c = false) :
    Reads (maybe (anyOf visibilities ++ Shape.spaces1) ++ maybe (anyOf bindings ++ Shape.spaces1) ++
        Shape.word "impl" ++ Shape.spaces ++ Shape.word ":" ++ Shape.spaces) declared.param rest
      [] := by
  -- none of the words that may follow is one of a visibility
  have hvisibility : Reads (maybe (anyOf visibilities ++ Shape.spaces1))
      (declared.visibility?.toList.flatMap modifierText)
      (declared.binding?.toList.flatMap modifierText ++ ("impl".toList ++ (declared.beforeColon ++
        ([':'] ++ (declared.behindColon ++ rest))))) [] := by
    obtain ⟨first, hfirst, more, heq⟩ := h.exists_word (declared.beforeColon ++
      ([':'] ++ (declared.behindColon ++ rest)))
    rw [heq]
    refine reads_maybe_modifier areModifiers_visibilities h.visibility (fun word hmem => ?_)
      (areModifiers_paramWords.head? (List.mem_append_left _ hfirst) _)
    exact areModifiers_paramWords.not_prefix_of_ne (List.mem_append_left _ hfirst)
      (List.mem_append_right _ hmem) (ne_of_visibility hmem hfirst).symm _
  have hne : ∀ word ∈ bindings, clashes word.toList "impl".toList = true := by decide
  have hbinding : Reads (maybe (anyOf bindings ++ Shape.spaces1))
      (declared.binding?.toList.flatMap modifierText) ("impl".toList ++ (declared.beforeColon ++
        ([':'] ++ (declared.behindColon ++ rest)))) [] :=
    reads_maybe_modifier areModifiers_bindings h.binding
      (fun word hmem => not_prefix_of_clashes (hne word hmem) _) (by simp; decide)
  have hbefore : Reads Shape.spaces declared.beforeColon ([':'] ++ (declared.behindColon ++ rest))
      [] := Shape.reads_spaces h.beforeColon (by simp; decide)
  have hbehind : Reads Shape.spaces declared.behindColon rest [] :=
    Shape.reads_spaces h.behindColon hrest
  have hall := ((((hvisibility.seq hbinding).seq (reads_literal "impl".toList _)).seq hbefore).seq
    (reads_literal [':'] _)).seq hbehind
  have hparam : declared.param = declared.visibility?.toList.flatMap modifierText ++
      declared.binding?.toList.flatMap modifierText ++ "impl".toList ++ declared.beforeColon ++
        [':'] ++ declared.behindColon := by simp [param]
  rw [hparam]
  exact hall

/-- The name of the type is found in what is captured. -/
theorem IsWellFormed.anchorBase_captured (h : declared.IsWellFormed) :
    anchorBase declared.captured = declared.type.base := by
  have hclass : ∀ c, Shape.isDottedWord c = true ∨ c = '<' ∨ c = '?' →
      isImplementedChar c = true := by
    rintro c (hc | rfl | rfl)
    · have hcomma : c ≠ ',' := ne_of_class hc (by decide +kernel)
      have hparen : c ≠ ')' := ne_of_class hc (by decide +kernel)
      simp [isImplementedChar, hcomma, hparen]
    · decide
    · decide
  have hblank : ∀ c ∈ declared.behindType, isSpace c = true ∧ isImplementedChar c = true :=
    fun c hc => have hspace := forall_isSpace_of_isBlank h.behindType c hc
      ⟨hspace, isImplementedChar_of_isSpace hspace⟩
  have hstop : isImplementedChar ',' = false ∧ isImplementedChar ')' = false := by decide
  rw [captured, behind]
  cases declared.behindComma? with
  | none =>
    exact NamedType.anchorBase_takeWhile h.type.base hclass hblank hstop.2 _
  | some blank =>
    exact NamedType.anchorBase_takeWhile h.type.base hclass hblank hstop.1 _

theorem IsWellFormed.isRun_captured (h : declared.IsWellFormed) :
    IsRun isImplementedChar declared.captured := by
  refine ⟨fun hnil => ?_, fun c hc => List.mem_takeWhile_imp hc⟩
  have hbase := h.anchorBase_captured
  rw [hnil] at hbase
  exact h.type.base.ne_nil hbase.symm

theorem IsWellFormed.head?_captured (h : declared.IsWellFormed) (rest : List Char) :
    ∀ c ∈ (declared.captured ++ rest).head?, isSpace c = false := by
  obtain ⟨c, more, hcaptured⟩ := List.exists_cons_of_ne_nil h.isRun_captured.ne_nil
  obtain ⟨b, base, hbase⟩ := List.exists_cons_of_ne_nil h.type.base.ne_nil
  have hfront : declared.captured <+: declared.type.text ++ declared.behind :=
    List.takeWhile_prefix _
  have hhead : c = b := by
    rw [hcaptured, NamedType.text, hbase] at hfront
    exact (List.cons_prefix_cons.1 hfront).1
  rw [hcaptured, hhead]
  simpa using isSpace_of_isDottedWord (h.type.base.forall_char b (by simp [hbase]))

/-- **An anchor without an early comma is read**, up to some place in front of the next tag. -/
theorem IsWellFormed.exists_reads (h : declared.IsWellFormed)
    (hearly : declared.type.hasEarlyComma = false) {rest : List Char}
    (hrest : ∀ c ∈ rest.head?, c = '@') :
    ∃ taken left more, declared.source = taken ++ left ∧ taken ≠ [] ∧ '@' ∉ left ∧
      Reads Shape.serverAnchor taken (left ++ rest)
        (declared.head.parts ++ (.implemented, declared.captured) :: more) ∧
      more.lookup .arguments = none := by
  obtain ⟨closer, after, htext, hcloser, hsign⟩ := h.exists_closer hearly
  obtain ⟨s, t, parts, rfl, hparent, hlookup⟩ := exists_reads_parent after hrest
  -- what is captured stops at the comma or the parenthesis behind the type
  have hstop : ∀ c ∈ (closer ++ (s ++ (t ++ rest))).head?, isImplementedChar c = false := by
    rcases hcloser with rfl | ⟨blank, -, rfl⟩
    · simp; decide
    · simp; decide
  have hhead := AnchorHead.reads h.head h.beforeOpen (Or.inr rfl)
    (declared.behindOpen ++ (declared.param ++ (declared.captured ++
      (closer ++ (s ++ (t ++ rest))))))
  have hbefore : Reads Shape.spaces declared.beforeOpen (['('] ++ (declared.behindOpen ++
      (declared.param ++ (declared.captured ++ (closer ++ (s ++ (t ++ rest))))))) [] :=
    Shape.reads_spaces h.beforeOpen (by simp; decide)
  have hbehind : Reads Shape.spaces declared.behindOpen (declared.param ++ (declared.captured ++
      (closer ++ (s ++ (t ++ rest))))) [] := by
    refine Shape.reads_spaces h.behindOpen ?_
    simpa [param] using h.head?_words (declared.beforeColon ++ ':' :: (declared.behindColon ++
      (declared.captured ++ (closer ++ (s ++ (t ++ rest))))))
  have hpart : Reads (part Part.implemented (stretch1 isImplementedChar)) declared.captured
      (closer ++ (s ++ (t ++ rest))) [(.implemented, declared.captured)] :=
    (reads_stretch1 h.isRun_captured hstop).part _
  have hall := ((((((hhead.seq hbefore).seq (reads_literal ['('] _)).seq hbehind).seq
    (h.reads_param (h.head?_captured _))).seq hpart).seq (reads_closer hcloser _)).seq hparent
  have htaken : declared.source = declared.head.text ++ declared.beforeOpen ++ ['('] ++
      declared.behindOpen ++ declared.param ++ declared.captured ++ closer ++ s ++ t := by
    have hsource : declared.source = declared.head.text ++ (declared.opening ++
        (declared.captured ++ (closer ++ (s ++ t)))) := by rw [source, htext]
    simp [hsource, opening]
  have hparts : declared.head.parts ++ (Part.implemented, declared.captured) :: parts =
      declared.head.parts ++ [] ++ [] ++ [] ++ [] ++ [(.implemented, declared.captured)] ++ [] ++
        parts := by simp
  refine ⟨_, t, parts, htaken, by simp, fun hmem => hsign (List.mem_append_right _ hmem), ?_,
    hlookup⟩
  rw [hparts]
  exact fun place hplace => hall place hplace

/-! ### Anchors one after the other -/

theorem sign_notMem_modifiers {names : List String} (hnames : ∀ word ∈ names, '@' ∉ word.toList)
    {modifiers : List (String × List Char)}
    (h : ∀ modifier ∈ modifiers, modifier.1 ∈ names ∧ IsRun isSpace modifier.2) :
    '@' ∉ modifiers.flatMap modifierText := by
  intro hmem
  obtain ⟨modifier, hmodifier, hmem⟩ := List.mem_flatMap.1 hmem
  obtain ⟨hword, hgap⟩ := h modifier hmodifier
  rcases List.mem_append.1 hmem with hmem | hmem
  · exact hnames _ hword hmem
  · exact hgap.notMem (by decide) hmem

/-- An anchor begins with the sign of its tag, and an early comma leaves no other one in it. -/
theorem IsWellFormed.exists_source_eq (h : declared.IsWellFormed)
    (hearly : declared.type.hasEarlyComma = true) :
    ∃ more, declared.source = '@' :: more ∧ '@' ∉ more := by
  -- behind the sign that opens the declaration there is no other one
  have hblank : ∀ {blank : List Char}, isBlank blank = true → '@' ∉ blank :=
    fun hblank => notMem_of_isBlank hblank (by decide)
  have hgap : '@' ∉ declared.head.tag.gap := hblank (List.all_eq_true.2 h.head.tag.gap)
  have hwords : '@' ∉ declared.head.words := by
    have hmodifiers := sign_notMem_modifiers (by decide) h.head.modifiers
    have habstract : '@' ∉ "abstract".toList ∧ '@' ∉ "class".toList := by decide
    simp only [AnchorHead.words, List.mem_append, not_or]
    exact ⟨hmodifiers, habstract.1, h.head.abstractGap.notMem (by decide), habstract.2,
      h.head.classGap.notMem (by decide), h.head.name.notMem (by decide +kernel)⟩
  have hparam : '@' ∉ declared.param := by
    have hwords : (∀ word ∈ visibilities, '@' ∉ word.toList) ∧
        ∀ word ∈ bindings, '@' ∉ word.toList := by decide
    have hvisibility := sign_notMem_modifiers hwords.1 fun modifier hmem =>
      h.visibility modifier (Option.mem_toList.1 hmem)
    have hbinding := sign_notMem_modifiers hwords.2 fun modifier hmem =>
      h.binding modifier (Option.mem_toList.1 hmem)
    have himpl : '@' ∉ "impl".toList ∧ '@' ≠ ':' := by decide
    simp only [param, List.mem_append, List.mem_cons, not_or]
    exact ⟨hvisibility, hbinding, himpl.1, hblank h.beforeColon, himpl.2, hblank h.behindColon⟩
  refine ⟨declared.head.tag.name ++ declared.head.tag.argumentList ++ declared.head.tag.gap ++
    declared.head.words ++ (declared.opening ++ (declared.type.text ++ declared.behind)), ?_, ?_⟩
  · simp [source, AnchorHead.text, Tag.text, Tag.bare]
  · have hopen : '@' ≠ '(' := by decide
    simp only [opening, List.mem_append, List.mem_cons, not_or]
    exact ⟨⟨⟨⟨h.head.tag.name.notMem (by decide +kernel), h.sign_notMem_arguments hearly⟩, hgap⟩,
      hwords⟩, ⟨hblank h.beforeOpen, hopen, hblank h.behindOpen, hparam⟩, h.sign_notMem_type,
      h.sign_notMem_behind⟩

theorem head?_sourceAll (declared : List ServerDecl) :
    ∀ c ∈ (sourceAll declared).head?, c = '@' := by
  cases declared with
  | nil => exact fun c hc => absurd hc (by simp [sourceAll])
  | cons decl others =>
    intro c hc
    exact (Option.some.inj hc).symm

/-- What is found of anchors, one after the other. -/
theorem exists_finds_sourceAll {declared : List ServerDecl}
    (h : ∀ decl ∈ declared, decl.IsWellFormed) :
    ∃ founds, (anchorShape .server).Finds (sourceAll declared) founds ∧
      List.Forall₂ (fun (decl : ServerDecl) (found : Found Part) => ∃ more,
          found.parts = decl.head.parts ++ (.implemented, decl.captured) :: more ∧
          more.lookup .arguments = none)
        (declared.filter (!·.type.hasEarlyComma)) founds := by
  induction declared with
  | nil => exact ⟨[], finds_anchorShape_nil .server, .nil⟩
  | cons decl others ih =>
    obtain ⟨hdecl, hothers⟩ := List.forall_mem_cons.1 h
    obtain ⟨founds, hfounds, hparts⟩ := ih hothers
    rw [sourceAll, List.flatMap_cons]
    cases hearly : decl.type.hasEarlyComma with
    | true =>
      -- the capture would stop at the comma within the type, so the declaration is passed over
      have hmiss := hdecl.misses hearly (sourceAll others)
      obtain ⟨more, hsource, hsign⟩ := hdecl.exists_source_eq hearly
      rw [hsource] at hmiss ⊢
      rw [List.filter_cons_of_neg (by simp [hearly])]
      exact ⟨founds, .skip hmiss ((isClear_anchorShape .server hsign _).finds hfounds), hparts⟩
    | false =>
      -- the declaration is found, and what the match leaves of it holds no sign
      obtain ⟨taken, left, more, hsource, hne, hsign, hreads, hlookup⟩ :=
        hdecl.exists_reads hearly (head?_sourceAll others)
      have hrest := (isClear_anchorShape .server hsign _).finds hfounds
      rw [hsource, List.append_assoc, List.filter_cons_of_pos (by simp [hearly])]
      exact ⟨_, .take hreads hne hrest, .cons ⟨more, rfl, hlookup⟩ hparts⟩

end ServerDecl

/-- **The server anchors without an early comma are read back**, in order, each with its class and
the base of its type.  The others are lost. -/
theorem anchorsOf_serverSource (resolver : Resolver) {before : List Char} (hbefore : '@' ∉ before)
    {declared : List ServerDecl} (h : ∀ decl ∈ declared, decl.IsWellFormed) :
    anchorsOf resolver .server (before ++ ServerDecl.sourceAll declared) =
      (declared.filter (!·.type.hasEarlyComma)).map (ServerDecl.anchor resolver) := by
  obtain ⟨founds, hfounds, hparts⟩ := ServerDecl.exists_finds_sourceAll h
  have hall := ((isClear_anchorShape .server hbefore _).finds hfounds).forall₂_findAll
  have hread := forall₂_comp hparts hall (T := fun (decl : ServerDecl) actual =>
    decl.IsWellFormed → anchorAt resolver .server actual = decl.anchor resolver)
    fun decl found actual hparts hdescribes hwf => by
      obtain ⟨more, hmore, hlookup⟩ := hparts
      rw [anchorAt_of_describes hdescribes hmore hlookup, hwf.anchorBase_captured]
      rfl
  exact map_eq_map_of_forall₂ hread fun decl hdecl actual hactual =>
    hactual (h decl (List.mem_filter.1 hdecl).1)

theorem anchorsOf_serverSource_example :
    let resolver : Resolver := ⟨{ package := "p", explicit := ["q.Repo"] }, TypeIndex.empty⟩
    let head (arguments? : Option (List Char)) (name : List Char) : AnchorHead :=
      ⟨⟨"RpcServer".toList, arguments?, ['\n']⟩, [], [' '], [' '], name⟩
    let late : NamedType := ⟨"Repo".toList, some ["(Int) -> Unit".toList, " Id".toList], true⟩
    let early : NamedType := ⟨"Repo".toList, some ["User".toList, " Id".toList], false⟩
    let declared : List ServerDecl :=
      [⟨head (some "generateFactory = false".toList) "Late".toList, [], [], some ("private", [' ']),
          some ("val", [' ']), [], [' '], late, [], none, " : Base\n".toList⟩,
        ⟨head none "Early".toList, [], [], none, none, [], [' '], early, [], none, ['\n']⟩,
        ⟨head none "Plain".toList, [], ['\n'], none, none, [], [' '], ⟨"r.Api".toList, none, false⟩,
          [], some ['\n'], ['\n']⟩]
    let lines : List String :=
      ["package p\n", "@RpcServer(generateFactory = false)\n",
        "abstract class Late(private val impl: Repo<(Int) -> Unit, Id>?) : Base\n",
        "@RpcServer\n", "abstract class Early(impl: Repo<User, Id>)\n",
        "@RpcServer\n", "abstract class Plain(\n", "impl: r.Api,\n", ")\n"]
    (∀ decl ∈ declared, decl.IsWellFormed) ∧
      anchorsOf resolver .server (lines.flatMap String.toList) =
        [⟨"p", "Late", "q.Repo", none, false⟩, ⟨"p", "Plain", "r.Api", none, true⟩] := by
  intro resolver head late early declared lines
  have hint : IsTypeName "Int".toList := by decide
  have hunit : IsTypeName "Unit".toList := by decide
  have hid : IsTypeName "Id".toList := by decide
  have huser : IsTypeName "User".toList := by decide
  have hlate : late.IsWellFormed := by
    refine ⟨by decide +kernel, ?_⟩
    rintro arguments ⟨⟩
    have hparams : ∀ param ∈ ["Int".toList], IsWrittenType param := by
      simpa using IsWrittenType.named hint
    have hfunction : IsWrittenType "(Int) -> Unit".toList := .function hparams (.named hunit)
    refine ⟨["(Int) -> Unit".toList, "Id".toList], by simp, ?_, ?_⟩
    · simp only [List.forall_mem_cons]
      exact ⟨hfunction, .named hid, List.forall_mem_nil _⟩
    · exact .cons (isPadded_refl _) (.cons (isPadded_cons_space _) .nil)
  have hearly : early.IsWellFormed := by
    refine ⟨by decide +kernel, ?_⟩
    rintro arguments ⟨⟩
    refine ⟨["User".toList, "Id".toList], by simp, ?_, ?_⟩
    · simp only [List.forall_mem_cons]
      exact ⟨.named huser, .named hid, List.forall_mem_nil _⟩
    · exact .cons (isPadded_refl _) (.cons (isPadded_cons_space _) .nil)
  have hwf : ∀ decl ∈ declared, decl.IsWellFormed := by
    simp only [declared, List.forall_mem_cons]
    refine ⟨?_, ?_, ?_, List.forall_mem_nil _⟩
    · exact ⟨by decide +kernel, by decide, by decide, by decide, by decide, by decide, by decide,
        hlate, by decide, by decide, by decide, by decide, by decide⟩
    · exact ⟨by decide +kernel, by decide, by decide, by decide, by decide, by decide, by decide,
        hearly, by decide, by decide, by decide, by decide, by decide⟩
    · exact ⟨by decide +kernel, by decide, by decide, by decide, by decide, by decide, by decide,
        ⟨by decide +kernel, nofun⟩, by decide, by decide, by decide, by decide, by decide⟩
  have hread := anchorsOf_serverSource resolver (show '@' ∉ "package p\n".toList by decide) hwf
  have hsource : "package p\n".toList ++ ServerDecl.sourceAll declared =
      lines.flatMap String.toList := by decide +kernel
  rw [hsource] at hread
  refine ⟨hwf, hread.trans ?_⟩
  decide +kernel

/-- A server anchor whose type has two arguments is lost. -/
theorem anchorsOf_loses_server :
    let resolver : Resolver := ⟨{ package := "p" }, TypeIndex.empty⟩
    anchorsOf resolver .server
      ("@RpcServer\nabstract class S(impl: Repo<A, B>)\n".toList) = [] := by
  decide +kernel

end Declaration

end RpcBinder
