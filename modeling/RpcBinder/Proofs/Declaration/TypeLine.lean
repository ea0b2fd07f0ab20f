import RpcBinder.Proofs.Declaration.InCode
import RpcBinder.Proofs.Declaration.Modifiers
import RpcBinder.Proofs.Declaration.Tag

/-!
# The line of a type

A type is found by the line on which its name stands.  What may stand there in front of the name
is said by `TypeLead`: tags whose arguments end on the line, modifiers, and the word that declares
the type, with spaces or tabs between any two of them.  A line is no match's middle, so every line
that begins with a lead and an ASCII name is found.

## Main definitions

* `TypeLead` — what stands on a line in front of the name of a type.
* `IsAsciiName` — a name that the shape of a type reads.
* `DeclaresType` — a place where a line begins with a lead and a name.

## Main results

* `TypeLead.reads`, `TypeLead.exists_of_takes` — the shape of a type reads such lines and no others.
* `exists_mem_findAll_type_iff` — the types that are found.
-/

namespace RpcBinder.Declaration

open Pattern

/-- What stands on a line in front of the name of a type. -/
structure TypeLead where
  /-- Spaces and tabs at the start of the line. -/
  indent : List Char
  /-- The tags. -/
  tags : List Tag
  /-- The modifiers, each with the spaces and tabs behind it. -/
  modifiers : List (String × List Char)
  /-- The word that declares the type. -/
  keyword : String
  /-- The spaces and tabs behind that word. -/
  gap : List Char

namespace TypeLead

/-- The lead without the indent. -/
def words (lead : TypeLead) : List Char :=
  lead.tags.flatMap Tag.text ++
    (lead.modifiers.flatMap modifierText ++ (lead.keyword.toList ++ lead.gap))

/-- The text of a lead. -/
def text (lead : TypeLead) : List Char :=
  lead.indent ++ lead.words

/-- A character of the arguments of a tag that ends on its line. -/
def isLineArgument (c : Char) : Bool :=
  c != ')' && c != '\n'

/-- What a lead is made of. -/
structure IsWellFormed (lead : TypeLead) : Prop where
  indent : ∀ c ∈ lead.indent, Shape.isTabOrSpace c = true
  tags : ∀ tag ∈ lead.tags, tag.IsWellFormed isLineArgument Shape.isTabOrSpace ∧ tag.gap ≠ []
  modifiers : ∀ modifier ∈ lead.modifiers,
    modifier.1 ∈ typeModifiers ∧ IsRun Shape.isTabOrSpace modifier.2
  keyword : lead.keyword ∈ typeKeywords
  gap : IsRun Shape.isTabOrSpace lead.gap

end TypeLead

/-- A name that begins with a letter of ASCII or an underscore and goes on with such characters
and digits. -/
def IsAsciiName : List Char → Prop
  | [] => False
  | c :: rest => isNameStart c = true ∧ ∀ d ∈ rest, isNamePart d = true

instance : DecidablePred IsAsciiName
  | [] => .isFalse id
  | c :: rest => decidable_of_iff (isNameStart c = true ∧ rest.all isNamePart = true)
      (and_congr_right' List.all_eq_true)

/-! ### Reading a line -/

/-- The shape of a type behind the start of its line. -/
def typeAfterStart : Pattern Part :=
  Shape.tabs ++ many (Shape.tag TypeLead.isLineArgument ++ Shape.tabs1) ++
    many (anyOf typeModifiers ++ Shape.tabs1) ++ anyOf typeKeywords ++ Shape.tabs1 ++
    part .name Shape.identifier

theorem run_type (place : Cursor) (follow : Cursor → Option (Trail Part)) :
    Shape.type.run place follow =
      if place.atLineStart = true then typeAfterStart.run place follow else none := rfl

variable {rest name : List Char} {lead : TypeLead}

/-- A letter or an underscore comes first. -/
def StartsName (text : List Char) : Prop :=
  ∃ c, text.head? = some c ∧ isNameStart c = true

theorem StartsName.append {text : List Char} (h : StartsName text) (more : List Char) :
    StartsName (text ++ more) := by
  obtain ⟨c, hc, hstart⟩ := h
  exact ⟨c, by rw [List.head?_append, hc]; rfl, hstart⟩

theorem IsAsciiName.startsName (h : IsAsciiName name) : StartsName name := by
  cases name with
  | nil => cases h
  | cons c rest => exact ⟨c, rfl, h.1⟩

theorem isTabOrSpace_of_isNameStart {c : Char} (h : isNameStart c = true) :
    Shape.isTabOrSpace c = false := by
  have hspace : c ≠ ' ' := ne_of_class h (by decide)
  have htab : c ≠ '\t' := ne_of_class h (by decide)
  simp [Shape.isTabOrSpace, hspace, htab]

theorem isSpace_of_isTabOrSpace {c : Char} (h : Shape.isTabOrSpace c = true) :
    isSpace c = true := by
  have hmem : c = ' ' ∨ c = '\t' := by simpa [Shape.isTabOrSpace] using h
  rcases hmem with rfl | rfl
  · decide
  · decide

theorem StartsName.forall_head? {text : List Char} (h : StartsName text) :
    ∀ c ∈ text.head?, Shape.isTabOrSpace c = false := by
  obtain ⟨d, hd, hstart⟩ := h
  intro c hc
  obtain rfl : d = c := Option.some.inj (hd.symm.trans hc)
  exact isTabOrSpace_of_isNameStart hstart

theorem IsAsciiName.notMem (h : IsAsciiName name) {c : Char} (hc : isNamePart c = false) :
    c ∉ name := by
  cases name with
  | nil => cases h
  | cons d more =>
    have hstart : isNamePart d = true := by
      have hd := h.1
      simp only [isNameStart, isNamePart, Char.isAlphanum, Bool.or_eq_true] at hd ⊢
      exact hd.imp_left Or.inl
    intro hmem
    rcases List.mem_cons.1 hmem with rfl | hmem
    · exact ne_of_class hstart hc rfl
    · exact ne_of_class (h.2 c hmem) hc rfl

/-- An ASCII name is read up to its end. -/
theorem reads_identifier (h : IsAsciiName name) (hrest : ∀ c ∈ rest.head?, isNamePart c = false) :
    Reads Shape.identifier name rest [] := by
  cases name with
  | nil => cases h
  | cons c more =>
    exact (reads_one h.1 _).seq (reads_stretch (List.all_eq_true.2 h.2) hrest)

theorem startsName_of_mem_words {word : String} (h : word ∈ typeModifiers ++ typeKeywords) :
    StartsName word.toList := by
  have hany : ∀ word ∈ typeModifiers ++ typeKeywords,
      word.toList.head?.any isNameStart = true := by decide
  exact (Option.any_eq_true _ _).1 (hany word h)

theorem areModifiers_type : AreModifiers typeModifiers Shape.isTabOrSpace where
  starts := by decide
  apart := by decide

/-- One modifier after the other is read, up to the word that declares the type. -/
theorem reads_modifiers {modifiers : List (String × List Char)}
    (h : ∀ modifier ∈ modifiers,
      modifier.1 ∈ typeModifiers ∧ IsRun Shape.isTabOrSpace modifier.2)
    {keyword : String} (hkeyword : keyword ∈ typeKeywords) (rest : List Char) :
    StartsName (modifiers.flatMap modifierText ++ (keyword.toList ++ rest)) ∧
      Reads (many (anyOf typeModifiers ++ Shape.tabs1)) (modifiers.flatMap modifierText)
        (keyword.toList ++ rest) [] := by
  have hstarts : StartsName (keyword.toList ++ rest) :=
    (startsName_of_mem_words (List.mem_append_right _ hkeyword)).append rest
  have hclash : ∀ keyword ∈ typeKeywords, ∀ word ∈ typeModifiers,
      clashes word.toList keyword.toList = true := by decide
  refine ⟨?_, reads_many_modifiers areModifiers_type h
    (fun word hword => not_prefix_of_clashes (hclash keyword hkeyword word hword) rest)
    hstarts.forall_head?⟩
  cases modifiers with
  | nil => exact hstarts
  | cons modifier modifiers =>
    have hword := (h modifier List.mem_cons_self).1
    rw [List.flatMap_cons, modifierText, List.append_assoc, List.append_assoc]
    exact (startsName_of_mem_words (List.mem_append_left _ hword)).append _

/-- Tags on a line are read up to a word. -/
theorem reads_lineTags {tags : List Tag}
    (h : ∀ tag ∈ tags, tag.IsWellFormed TypeLead.isLineArgument Shape.isTabOrSpace ∧ tag.gap ≠ [])
    (hrest : StartsName rest) :
    Reads (many (Shape.tag TypeLead.isLineArgument ++ Shape.tabs1)) (tags.flatMap Tag.text) rest
      [] := by
  have hsign : '@' ∉ rest.head? := by
    obtain ⟨c, hc, hstart⟩ := hrest
    rw [hc, Option.mem_some_iff]
    rintro rfl
    exact absurd hstart (by decide)
  refine Tag.reads_many (by decide) (fun _ => isSpace_of_isTabOrSpace)
    (fun tag hmem => (h tag hmem).1) ?_ hrest.forall_head? hsign
  intro tag hmem rest hhead
  obtain ⟨hwf, hne⟩ := h tag hmem
  exact reads_stretch1 ⟨hne, hwf.gap⟩ hhead

/-- **A line with a lead and an ASCII name is read**, and the name is its part. -/
theorem TypeLead.reads (hlead : lead.IsWellFormed) (hname : IsAsciiName name)
    (hrest : ∀ c ∈ rest.head?, isNamePart c = false) :
    Reads typeAfterStart (lead.text ++ name) rest [(.name, name)] := by
  have hend : StartsName (name ++ rest) := hname.startsName.append rest
  obtain ⟨hstarts, hmodifiers⟩ :=
    reads_modifiers hlead.modifiers hlead.keyword (lead.gap ++ (name ++ rest))
  have htags := reads_lineTags hlead.tags hstarts
  have hindent : Reads Shape.tabs lead.indent _ [] :=
    reads_stretch (List.all_eq_true.2 hlead.indent)
      (Tag.head?_tags lead.tags (fun _ => isSpace_of_isTabOrSpace) hstarts.forall_head?)
  -- no keyword is a front of another one, so the first that fits is the keyword
  have hclash : ∀ keyword ∈ typeKeywords, ∀ other ∈ typeKeywords, other ≠ keyword →
      clashes other.toList keyword.toList = true := by decide
  have hkeyword : Reads (anyOf typeKeywords : Pattern Part) lead.keyword.toList
      (lead.gap ++ (name ++ rest)) [] := reads_anyOf hlead.keyword (hclash _ hlead.keyword) _
  have hgap : Reads Shape.tabs1 lead.gap (name ++ rest) [] :=
    reads_stretch1 hlead.gap hend.forall_head?
  have hpart : Reads (part .name Shape.identifier) name rest [(.name, name)] :=
    (reads_identifier hname hrest).part Part.name
  have hsplit : lead.text ++ name = lead.indent ++ lead.tags.flatMap Tag.text ++
      lead.modifiers.flatMap modifierText ++ lead.keyword.toList ++ lead.gap ++ name := by
    simp [TypeLead.text, TypeLead.words]
  rw [hsplit]
  exact ((((hindent.seq htags).seq hmodifiers).seq hkeyword).seq hgap).seq hpart

/-! ### Nothing else is read -/

section Takes

variable {place : Cursor} {s : List Char} {parts : List (Part × List Char)}

theorem isAsciiName_of_takes (h : Shape.identifier.Takes place s parts) : IsAsciiName s := by
  obtain ⟨first, more, ps, qs, rfl, -, hfirst, hmore⟩ := takes_seq.1 h
  cases hfirst with
  | one hc =>
    cases hmore with
    | stretch hall => exact ⟨hc, hall⟩

theorem isRun_of_takes_tabs1 (h : Shape.tabs1.Takes place s parts) :
    IsRun Shape.isTabOrSpace s := isRun_of_takes h

theorem exists_tags_of_takes
    (h : (many (Shape.tag TypeLead.isLineArgument ++ Shape.tabs1)).Takes place s parts) :
    ∃ tags : List Tag, (∀ tag ∈ tags,
      tag.IsWellFormed TypeLead.isLineArgument Shape.isTabOrSpace ∧ tag.gap ≠ []) ∧
        s = tags.flatMap Tag.text := by
  obtain ⟨tags, htags, heq⟩ := Tag.exists_of_takes_many h
  refine ⟨tags, ?_, heq⟩
  intro tag hmem
  obtain ⟨hname, harguments, _, _, hgap⟩ := htags tag hmem
  have hrun := isRun_of_takes_tabs1 hgap
  exact ⟨⟨hname, harguments, hrun.forall_char, fun _ => hrun.ne_nil⟩, hrun.ne_nil⟩

theorem exists_modifiers_of_takes
    (h : (many (anyOf typeModifiers ++ Shape.tabs1)).Takes place s parts) :
    ∃ modifiers : List (String × List Char), (∀ modifier ∈ modifiers,
      modifier.1 ∈ typeModifiers ∧ IsRun Shape.isTabOrSpace modifier.2) ∧
        s = modifiers.flatMap modifierText := by
  obtain ⟨rounds, rfl, hrounds⟩ := h.exists_rounds
  refine exists_of_rounds fun round hround => ?_
  obtain ⟨place, parts, hmodifier⟩ := hrounds round hround
  obtain ⟨front, gap, ps, qs, rfl, -, hfront, hgap⟩ := takes_seq.1 hmodifier
  obtain ⟨word, hword, rfl⟩ := hfront.of_anyOf
  exact ⟨(word, gap), ⟨hword, isRun_of_takes_tabs1 hgap⟩, rfl⟩

/-- The shape of a type takes a lead and an ASCII name where a line begins, and nothing else. -/
theorem TypeLead.exists_of_takes (h : Shape.type.Takes place s parts) :
    place.atLineStart = true ∧ ∃ (lead : TypeLead) (name : List Char), lead.IsWellFormed ∧
      IsAsciiName name ∧ s = lead.text ++ name ∧ parts.lookup .name = some name := by
  obtain ⟨before, name, ps, qs, rfl, rfl, hbefore, hname⟩ := takes_seq.1 h
  have hnil : ps = [] := hbefore.parts_eq_nil (q := fun _ => true)
    (by simp [Shape.tag, Shape.tabs, Shape.tabs1, Shape.word])
  -- the parts of the match, from the keyword back to the start of the line
  obtain ⟨before, gap, ps, qs, rfl, -, hbefore, hgap⟩ := takes_seq.1 hbefore
  obtain ⟨before, keyword, ps, qs, rfl, -, hbefore, hkeyword⟩ := takes_seq.1 hbefore
  obtain ⟨before, modifiers, ps, qs, rfl, -, hbefore, hmodifiers⟩ := takes_seq.1 hbefore
  obtain ⟨before, tags, ps, qs, rfl, -, hbefore, htags⟩ := takes_seq.1 hbefore
  obtain ⟨nothing, indent, ps, qs, rfl, -, hstart, hindent⟩ := takes_seq.1 hbefore
  obtain ⟨tags, hwftags, rfl⟩ := exists_tags_of_takes htags
  obtain ⟨modifiers, hwfmodifiers, rfl⟩ := exists_modifiers_of_takes hmodifiers
  obtain ⟨keyword, hwfkeyword, rfl⟩ := hkeyword.of_anyOf
  cases hstart with
  | lineStart hstart =>
    cases hname with
    | part hname =>
      refine ⟨hstart, ⟨indent, tags, modifiers, keyword, gap⟩, name,
        ⟨tabs_of_takes hindent, hwftags, hwfmodifiers, hwfkeyword, isRun_of_takes_tabs1 hgap⟩,
        isAsciiName_of_takes hname, ?_, by simp [hnil]⟩
      simp [TypeLead.text, TypeLead.words]

end Takes

/-! ### Types in a text -/

/-- A type stands on one line. -/
theorem within_type_line :
    Shape.type.Within (fun c => c != '\n') fun _ => some fun _ => true := by
  have htabs (c : Char) (h : Shape.isTabOrSpace c = true) : c ≠ '\n' := ne_of_class h (by decide)
  have hdotted (c : Char) (h : Shape.isDottedWord c = true) : c ≠ '\n' := ne_of_class h (by decide)
  have hstart (c : Char) (h : isNameStart c = true) : c ≠ '\n' := ne_of_class h (by decide)
  have hpart (c : Char) (h : isNamePart c = true) : c ≠ '\n' := ne_of_class h (by decide)
  simp +contextual [Shape.type, Shape.tag, Shape.tabs, Shape.tabs1, Shape.word, Shape.identifier,
    htabs, hdotted, hstart, hpart]

/-- A match on one line ends in front of the next line. -/
theorem le_left_stop_of_endsLine {text before front : List Char} {earlier place : Cursor}
    (hearlier : earlier.LiesBehind before text) (hplace : place.LiesBehind front text)
    (hfront : EndsLine front) (hlt : place.left < earlier.left) {other : Trail Part}
    (hrun : Shape.type.run earlier accept = some other) : place.left ≤ other.stop.left := by
  obtain ⟨s, rest, spans, later, hs, hline, -, hlater, rfl⟩ := within_type_line.passes hrun
  obtain rfl := Option.some.inj hlater
  have hstop : (Trail.record spans ⟨earlier.behind s, [], []⟩).stop.left = byteLength rest :=
    Cursor.left_behind hs
  rw [hstop, place.left_eq]
  rw [earlier.left_eq, place.left_eq] at hlt
  rcases List.append_eq_append_iff.1 (hearlier.text_eq.trans hplace.text_eq.symm) with
    ⟨middle, rfl, hmiddle⟩ | ⟨middle, rfl, hmiddle⟩
  · -- the text between the two places ends with a line feed, which the match does not take
    rcases List.append_eq_append_iff.1 (hs.symm.trans hmiddle) with
      ⟨more, rfl, hrest⟩ | ⟨more, rfl, hrest⟩
    · rw [hrest, byteLength_append]
      omega
    · rcases List.eq_nil_or_concat middle with rfl | ⟨front, d, rfl⟩
      · rw [hmiddle] at hlt
        exact absurd hlt (Nat.lt_irrefl _)
      · obtain rfl : d = '\n' := hfront d (by simp)
        exact absurd (hline '\n' (by simp)) (by decide)
  · rw [hmiddle, byteLength_append] at hlt
    omega

/-- **The types that are found** in a text are the lines that begin with a lead and an ASCII name:
those that begin behind `front` and end in front of `rest`. -/
theorem exists_mem_findAll_type_iff {text front name rest : List Char}
    (hrest : ∀ c ∈ rest.head?, isNamePart c = false) :
    (∃ declared ∈ Shape.type.findAll text, declared.start.LiesBehind front text ∧
        declared.stop.rest = rest ∧ declared.part .name = name) ↔
      EndsLine front ∧ IsAsciiName name ∧
        ∃ lead : TypeLead, lead.IsWellFormed ∧ front ++ (lead.text ++ (name ++ rest)) = text := by
  constructor
  · rintro ⟨declared, hmem, hlies, rfl, rfl⟩
    obtain ⟨before, s, parts, -, hs, htakes, hparts⟩ := within_type_line.exists_takes hmem
    obtain ⟨hstart, lead, name, hlead, hname, rfl, hlookup⟩ := TypeLead.exists_of_takes htakes
    have hpart : declared.part .name = name := by rw [Match.part, hparts, hlookup]; rfl
    rw [hpart]
    refine ⟨hlies.atLineStart_iff.1 hstart, hname, lead, hlead, ?_⟩
    rw [← hlies.text_eq, hs, List.append_assoc]
  · rintro ⟨hfront, hname, lead, hlead, htext⟩
    obtain ⟨place, hplace, hlies, hrest'⟩ := Cursor.exists_mem_onward htext
    rw [← List.append_assoc] at hrest'
    obtain ⟨found, hmatch, rfl, hstop, hparts⟩ :=
      (TypeLead.reads hlead hname hrest).matchAt?_eq hrest'
    obtain ⟨trail, hrun, heq⟩ := Option.map_eq_some_iff.1 hmatch
    have hmem : ⟨found.start, trail⟩ ∈ Shape.type.findAll text := by
      refine mem_findAll hplace ?_ ?_
      · rw [run_type, if_pos (hlies.atLineStart_iff.2 hfront)]
        exact hrun
      · -- a match that begins earlier ends with its line
        intro earlier hearlier other hother hlt
        obtain ⟨before, hbefore⟩ := Cursor.exists_liesBehind hearlier
        exact le_left_stop_of_endsLine hbefore hlies hfront hlt hother
    rw [heq] at hmem
    refine ⟨found, hmem, hlies, ?_, ?_⟩
    · rw [hstop, Cursor.rest_behind hrest']
    · rw [Match.part, hparts]
      rfl

end RpcBinder.Declaration
