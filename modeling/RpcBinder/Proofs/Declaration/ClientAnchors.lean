import RpcBinder.Proofs.Declaration.AnchorArguments
import RpcBinder.Proofs.Declaration.NamedType

/-!
# Reading client anchors back

A client anchor is printed with the arguments of its tag, the modifiers of its class and the type of
its interface.  The pattern of an anchor ends the type at the first comma, which may be one between
type arguments, and what is left of the anchor is passed over like any text without a tag.

## Main definitions

* `AnchorArgument`, `AnchorList` — the arguments of a tag as they are printed.
* `ClientDecl` — a client anchor, with `ClientDecl.source` and `ClientDecl.anchor`.

## Main results

* `AnchorList.parseAnchorArguments_text` — the arguments of a tag are read back.
* `anchorsOf_clientSource` — **printed client anchors are read back.**
-/

namespace RpcBinder.Declaration

open Pattern

/-! ### Arguments of a tag -/

/-- An argument of an anchor's tag. -/
inductive AnchorArgument
  /-- A service route in quotes. -/
  | service (value : List Char)
  /-- Whether a factory is wanted. -/
  | generateFactory (value : Bool)

namespace AnchorArgument

/-- The key of an argument. -/
def key : AnchorArgument → List Char
  | .service _ => "service".toList
  | .generateFactory _ => "generateFactory".toList

/-- The value of an argument without quotes. -/
def value : AnchorArgument → List Char
  | .service value => value
  | .generateFactory value => if value then "true".toList else "false".toList

/-- The value of an argument as it is printed. -/
def printed : AnchorArgument → List Char
  | .service value => '"' :: (value ++ ['"'])
  | .generateFactory value => if value then "true".toList else "false".toList

/-- The text of an argument. -/
def text (argument : AnchorArgument) : List Char :=
  argument.key ++ (" = ".toList ++ argument.printed)

/-- The argument as a key with its value. -/
def pair (argument : AnchorArgument) : KeyValue where
  key := argument.key
  before := [' ']
  behind := [' ']
  value :=
    match argument with
    | .service value => .quoted value
    | .generateFactory value => .bare (AnchorArgument.generateFactory value).value

/-- A value in quotes holds neither a quote nor the parenthesis that ends the arguments. -/
def IsWellFormed : AnchorArgument → Prop
  | .service value => '"' ∉ value ∧ ')' ∉ value
  | .generateFactory _ => True

variable {argument : AnchorArgument}

theorem isAsciiName_key (argument : AnchorArgument) : IsAsciiName argument.key := by
  cases argument with
  | service value => exact (by decide : IsAsciiName "service".toList)
  | generateFactory value => exact (by decide : IsAsciiName "generateFactory".toList)

theorem text_pair (argument : AnchorArgument) : argument.pair.text = argument.text := by
  cases argument <;> rfl

theorem IsWellFormed.pair (h : argument.IsWellFormed) : argument.pair.IsWellFormed where
  key := argument.isAsciiName_key
  before := rfl
  behind := rfl
  value := by
    cases argument with
    | service value => exact h.1
    | generateFactory value => cases value <;> decide

theorem notMem_text (argument : AnchorArgument) (h : argument.IsWellFormed) :
    ')' ∉ argument.text := by
  have hequals : ')' ∉ " = ".toList := by decide
  have hkey : ')' ∉ argument.key := by
    cases argument with
    | service value => exact (by decide : ')' ∉ "service".toList)
    | generateFactory value => exact (by decide : ')' ∉ "generateFactory".toList)
  have hprinted : ')' ∉ argument.printed := by
    cases argument with
    | service value => simpa [printed] using h.2
    | generateFactory value =>
      have hboth : ∀ value, ')' ∉ (AnchorArgument.generateFactory value).printed := by decide
      exact hboth value
  rw [text, List.mem_append, List.mem_append]
  exact not_or.2 ⟨hkey, not_or.2 ⟨hequals, hprinted⟩⟩

end AnchorArgument

/-- The text of arguments between their parentheses. -/
def argumentsText (arguments : List AnchorArgument) : List Char :=
  [',', ' '].intercalate (arguments.map AnchorArgument.text)

theorem listText_pair (arguments : List AnchorArgument) :
    KeyValue.listText (arguments.map AnchorArgument.pair) =
      '(' :: (argumentsText arguments ++ [')']) := by
  have htexts : (arguments.map AnchorArgument.pair).map KeyValue.text =
      arguments.map AnchorArgument.text := by
    rw [List.map_map]
    exact List.map_congr_left fun argument _ => argument.text_pair
  rw [KeyValue.listText, htexts, argumentsText]

/-- Printed arguments say what their pairs say. -/
theorem parseAnchorArguments_printed {arguments : List AnchorArgument}
    (h : ∀ argument ∈ arguments, argument.IsWellFormed) :
    parseAnchorArguments ('(' :: (argumentsText arguments ++ [')'])) =
      KeyValue.said (arguments.map AnchorArgument.pair) := by
  have hpairs : ∀ pair ∈ arguments.map AnchorArgument.pair, pair.IsWellFormed := by
    intro pair hpair
    obtain ⟨argument, hargument, rfl⟩ := List.mem_map.1 hpair
    exact (h argument hargument).pair
  rw [← listText_pair, parseAnchorArguments_eq_said hpairs]

theorem parseAnchorArguments_nil : parseAnchorArguments [] = {} := by
  have hfinds : Shape.anchorArgument.Finds [] [] := .nil (misses_anchorArgument (by simp))
  rw [parseAnchorArguments, List.forall₂_nil_left_iff.1 hfinds.forall₂_findAll]
  rfl

/-- The arguments of a tag, each at most once. -/
structure AnchorList where
  /-- The service route. -/
  service? : Option (List Char)
  /-- Whether a factory is wanted. -/
  factory? : Option Bool

namespace AnchorList

/-- The arguments in order. -/
def arguments (list : AnchorList) : List AnchorArgument :=
  list.service?.toList.map .service ++ list.factory?.toList.map .generateFactory

/-- The text of a list between its parentheses. -/
def text (list : AnchorList) : List Char :=
  argumentsText list.arguments

/-- A route holds neither a quote nor the parenthesis that ends the list. -/
def IsWellFormed (list : AnchorList) : Prop :=
  ∀ service ∈ list.service?, '"' ∉ service ∧ ')' ∉ service

/-- What the list says: the route without its outer white space, unless nothing is left of it, and
whether a factory is wanted, which it is if nothing is said. -/
def said (list : AnchorList) : AnchorArguments where
  service := list.service?.bind fun service =>
    if isBlank service then none else some (String.ofList (trim service))
  generateFactory := list.factory?.getD true

variable {list : AnchorList}

theorem IsWellFormed.arguments (h : list.IsWellFormed) :
    ∀ argument ∈ list.arguments, argument.IsWellFormed := by
  intro argument hargument
  rcases List.mem_append.1 hargument with hmem | hmem
  · obtain ⟨service, hservice, rfl⟩ := List.mem_map.1 hmem
    exact h service (Option.mem_toList.1 hservice)
  · obtain ⟨factory, -, rfl⟩ := List.mem_map.1 hmem
    exact trivial

/-- The printed list is read back. -/
theorem parseAnchorArguments_text (h : list.IsWellFormed) :
    parseAnchorArguments ('(' :: (list.text ++ [')'])) = list.said := by
  rw [text, parseAnchorArguments_printed h.arguments]
  obtain ⟨service?, factory?⟩ := list
  -- each key is there at most once, so its only value is the last one
  cases service? <;> cases factory? with
  | none => rfl
  | some factory => cases factory <;> rfl

/-- The parenthesis that ends the list is the first one. -/
theorem IsWellFormed.notMem_text (h : list.IsWellFormed) : ')' ∉ list.text := by
  have htexts : ∀ text ∈ list.arguments.map AnchorArgument.text, ∀ c ∈ text,
      (c != ')') = true := by
    intro text htext c hc
    obtain ⟨argument, hargument, rfl⟩ := List.mem_map.1 htext
    have hparen := argument.notMem_text (h.arguments argument hargument)
    exact bne_iff_ne.2 (ne_of_mem_of_not_mem hc hparen)
  intro hmem
  exact absurd (forall_char_intercalate (by decide) htexts ')' hmem) (by decide)

end AnchorList

/-! ### Client anchors -/

/-- A client anchor as it is printed. -/
structure ClientDecl where
  /-- The arguments of the tag, if it has parentheses. -/
  list? : Option AnchorList
  /-- The white space behind the tag. -/
  gap : List Char
  /-- The modifiers, each with the white space behind it. -/
  modifiers : List (String × List Char)
  /-- The white space behind the word that makes the class abstract. -/
  abstractGap : List Char
  /-- The white space in front of the name. -/
  classGap : List Char
  /-- The name of the class. -/
  name : List Char
  /-- The white space in front of the colon. -/
  beforeColon : List Char
  /-- The white space behind the colon. -/
  behindColon : List Char
  /-- The type of the interface. -/
  type : NamedType
  /-- What follows, up to the next anchor. -/
  ending : List Char

namespace ClientDecl

/-- The anchor up to the name of its class. -/
def head (declared : ClientDecl) : AnchorHead where
  tag := ⟨"RpcClient".toList, declared.list?.map AnchorList.text, declared.gap⟩
  modifiers := declared.modifiers
  abstractGap := declared.abstractGap
  classGap := declared.classGap
  name := declared.name

/-- The text of an anchor. -/
def source (declared : ClientDecl) : List Char :=
  declared.head.text ++ (declared.beforeColon ++
    ':' :: (declared.behindColon ++ (declared.type.text ++ declared.ending)))

/-- The text of anchors, one after the other. -/
def sourceAll (declared : List ClientDecl) : List Char :=
  declared.flatMap source

/-- The anchor that is declared. -/
def anchor (resolver : Resolver) (declared : ClientDecl) : Anchor where
  package := resolver.scope.package
  className := String.ofList declared.name
  interfaceFqn := String.ofList (resolver.qualify declared.type.base)
  routeOverride := (declared.list?.map AnchorList.said).bind AnchorArguments.service
  generateFactory := (declared.list?.map AnchorList.said).elim true AnchorArguments.generateFactory

/-- The type stands on one line, which ends there or goes on with a brace or a comma. -/
structure IsWellFormed (declared : ClientDecl) : Prop where
  list : ∀ list ∈ declared.list?, list.IsWellFormed
  gap : isBlank declared.gap = true
  gap_ne_nil : declared.list? = none → declared.gap ≠ []
  modifiers : ∀ modifier ∈ declared.modifiers,
    modifier.1 ∈ anchorModifiers ∧ IsRun isSpace modifier.2
  abstractGap : IsRun isSpace declared.abstractGap
  classGap : IsRun isSpace declared.classGap
  name : IsIdentifier declared.name
  beforeColon : isBlank declared.beforeColon = true
  behindColon : isBlank declared.behindColon = true
  type : declared.type.IsWellFormed
  line : ∀ c ∈ declared.type.text, c ≠ '\n' ∧ c ≠ '\x7b' ∧ c ≠ '@'
  ending : ∃ blank stop more, declared.ending = blank ++ stop :: more ∧
    (∀ c ∈ blank, isSpace c = true ∧ c ≠ '\n') ∧ stop ∈ ['\n', '\x7b', ',']
  sign_notMem : '@' ∉ declared.ending

variable {declared : ClientDecl}

theorem IsWellFormed.head (h : declared.IsWellFormed) :
    declared.head.IsWellFormed (anchorWord .client) where
  tag_name := rfl
  tag := by
    have hname : IsRun Shape.isDottedWord "RpcClient".toList := by decide +kernel
    refine ⟨hname, ?_, forall_isSpace_of_isBlank h.gap, fun hnone => ?_⟩
    · intro arguments harguments c hc
      obtain ⟨list, hlist, rfl⟩ := Option.map_eq_some_iff.1 harguments
      exact bne_iff_ne.2 (ne_of_mem_of_not_mem hc (h.list list hlist).notMem_text)
    · exact h.gap_ne_nil (Option.map_eq_none_iff.1 hnone)
  modifiers := h.modifiers
  abstractGap := h.abstractGap
  classGap := h.classGap
  name := h.name

/-- A character that the pattern takes for one of the supertype. -/
def isSupertypeChar (c : Char) : Bool :=
  c != ',' && c != '\x7b' && c != '\n'

theorem isSupertypeChar_of_base {c : Char} (h : Shape.isDottedWord c = true ∨ c = '<' ∨ c = '?') :
    isSupertypeChar c = true := by
  rcases h with hc | rfl | rfl
  · have hcomma : c ≠ ',' := ne_of_class hc (by decide +kernel)
    have hbrace : c ≠ '\x7b' := ne_of_class hc (by decide +kernel)
    have hbreak : c ≠ '\n' := ne_of_class hc (by decide +kernel)
    simp [isSupertypeChar, hcomma, hbrace, hbreak]
  · decide
  · decide

/-- What is taken of the type of an anchor and what follows it. -/
def captured (declared : ClientDecl) : List Char :=
  (declared.type.text ++ declared.ending).takeWhile isSupertypeChar

/-- What is left of them. -/
def leftOver (declared : ClientDecl) : List Char :=
  (declared.type.text ++ declared.ending).dropWhile isSupertypeChar

/-- The anchor up to where its type is cut off. -/
def taken (declared : ClientDecl) : List Char :=
  declared.head.text ++ (declared.beforeColon ++
    ':' :: (declared.behindColon ++ declared.captured))

theorem source_eq (declared : ClientDecl) :
    declared.source = declared.taken ++ declared.leftOver := by
  have hsplit : declared.type.text ++ declared.ending =
      declared.captured ++ declared.leftOver := (List.takeWhile_append_dropWhile).symm
  rw [source, hsplit, taken]
  simp

theorem IsWellFormed.anchorBase_captured (h : declared.IsWellFormed) :
    anchorBase declared.captured = declared.type.base := by
  obtain ⟨blank, stop, more, hending, hblank, hstop⟩ := h.ending
  have hclass : ∀ stop ∈ ['\n', '\x7b', ','], isSupertypeChar stop = false := by
    simp [isSupertypeChar]
  rw [captured, hending]
  refine NamedType.anchorBase_takeWhile h.type.base (fun c => isSupertypeChar_of_base) ?_
    (hclass stop hstop) more
  intro c hc
  obtain ⟨hspace, hbreak⟩ := hblank c hc
  have hcomma : c ≠ ',' := ne_of_class hspace (by decide)
  have hbrace : c ≠ '\x7b' := ne_of_class hspace (by decide)
  exact ⟨hspace, by simp [isSupertypeChar, hcomma, hbrace, hbreak]⟩

/-- The type is cut off in the text of the anchor. -/
theorem IsWellFormed.head?_leftOver (h : declared.IsWellFormed) (rest : List Char) :
    ∀ c ∈ (declared.leftOver ++ rest).head?, isSupertypeChar c = false := by
  obtain ⟨blank, stop, more, hending, -, hstop⟩ := h.ending
  have hclass : ∀ stop ∈ ['\n', '\x7b', ','], isSupertypeChar stop = false := by
    simp [isSupertypeChar]
  -- the ending holds a character that is in no supertype, so something is left over
  have hne : declared.leftOver ≠ [] := by
    intro hnil
    have hall := List.dropWhile_eq_nil_iff.1 hnil
    have hmem := hall stop (by simp [hending])
    rw [hclass stop hstop] at hmem
    exact absurd hmem (by decide)
  intro c hc
  rw [List.head?_append_of_ne_nil _ hne] at hc
  have hnot := List.head?_dropWhile_not isSupertypeChar (declared.type.text ++ declared.ending)
  rw [leftOver] at hc
  rw [Option.mem_def.1 hc] at hnot
  simpa using hnot

theorem IsWellFormed.notMem_leftOver (h : declared.IsWellFormed) : '@' ∉ declared.leftOver := by
  intro hmem
  rcases List.mem_append.1 ((List.dropWhile_suffix _).subset hmem) with htype | hending
  · exact (h.line '@' htype).2.2 rfl
  · exact h.sign_notMem hending

theorem IsWellFormed.isRun_captured (h : declared.IsWellFormed) :
    IsRun isSupertypeChar declared.captured := by
  refine ⟨fun hnil => ?_, fun c hc => ?_⟩
  · have hbase := h.anchorBase_captured
    rw [hnil] at hbase
    exact h.type.base.ne_nil hbase.symm
  · exact List.mem_takeWhile_imp hc

theorem IsWellFormed.startsSolid_captured (h : declared.IsWellFormed) (rest : List Char) :
    ∀ c ∈ (declared.captured ++ rest).head?, isSpace c = false := by
  obtain ⟨b, base, hbase⟩ := List.exists_cons_of_ne_nil h.type.base.ne_nil
  have hb : Shape.isDottedWord b = true := h.type.base.forall_char b (by simp [hbase])
  rw [captured, NamedType.text, hbase, List.cons_append, List.cons_append,
    List.takeWhile_cons_of_pos (isSupertypeChar_of_base (Or.inl hb)), List.cons_append]
  simpa using isSpace_of_isDottedWord hb

/-- **An anchor is read** up to where its type is cut off. -/
theorem IsWellFormed.reads (h : declared.IsWellFormed) (rest : List Char) :
    Reads Shape.clientAnchor declared.taken (declared.leftOver ++ rest)
      (declared.head.parts ++ [(.supertype, declared.captured)]) := by
  have hhead := AnchorHead.reads h.head h.beforeColon (Or.inl rfl)
    (declared.behindColon ++ (declared.captured ++ (declared.leftOver ++ rest)))
  have hbefore : Reads Shape.spaces declared.beforeColon ([':'] ++ (declared.behindColon ++
      (declared.captured ++ (declared.leftOver ++ rest)))) [] :=
    Shape.reads_spaces h.beforeColon (by simp; decide)
  have hbehind : Reads Shape.spaces declared.behindColon
      (declared.captured ++ (declared.leftOver ++ rest)) [] :=
    Shape.reads_spaces h.behindColon (h.startsSolid_captured _)
  have hpart : Reads (part Part.supertype (stretch1 isSupertypeChar)) declared.captured
      (declared.leftOver ++ rest) [(Part.supertype, declared.captured)] :=
    (reads_stretch1 h.isRun_captured (h.head?_leftOver rest)).part Part.supertype
  have htaken : declared.taken = declared.head.text ++ declared.beforeColon ++ [':'] ++
      declared.behindColon ++ declared.captured := by simp [taken]
  have hparts : declared.head.parts ++ [(Part.supertype, declared.captured)] =
      declared.head.parts ++ [] ++ [] ++ [] ++ [(Part.supertype, declared.captured)] := by simp
  rw [htaken, hparts]
  exact (((hhead.seq hbefore).seq (reads_literal [':'] _)).seq hbehind).seq hpart

/-- What is found of anchors, one after the other. -/
theorem exists_finds_sourceAll {declared : List ClientDecl}
    (h : ∀ decl ∈ declared, decl.IsWellFormed) :
    ∃ founds, (anchorShape .client).Finds (sourceAll declared) founds ∧
      List.Forall₂ (fun (decl : ClientDecl) (found : Found Part) =>
        found.parts = decl.head.parts ++ [(.supertype, decl.captured)]) declared founds := by
  induction declared with
  | nil => exact ⟨[], finds_anchorShape_nil .client, .nil⟩
  | cons decl others ih =>
    obtain ⟨hdecl, hothers⟩ := List.forall_mem_cons.1 h
    obtain ⟨founds, hfounds, hparts⟩ := ih hothers
    have hrest := (isClear_anchorShape .client hdecl.notMem_leftOver _).finds hfounds
    have hne : decl.taken ≠ [] := by simp [taken]
    rw [sourceAll, List.flatMap_cons, source_eq, List.append_assoc]
    exact ⟨_, .take (hdecl.reads _) hne hrest, .cons rfl hparts⟩

/-- The arguments of the tag are read back. -/
theorem IsWellFormed.parseAnchorArguments_head (h : declared.IsWellFormed) :
    parseAnchorArguments declared.head.tag.argumentList =
      (declared.list?.map AnchorList.said).getD {} := by
  have harguments : declared.head.tag.arguments? = declared.list?.map AnchorList.text := rfl
  rw [Tag.argumentList, harguments]
  cases hlist : declared.list? with
  | none => exact parseAnchorArguments_nil
  | some list => exact AnchorList.parseAnchorArguments_text (h.list list hlist)

/-- The anchor behind a match is the one that is declared. -/
theorem IsWellFormed.anchorAt_eq (h : declared.IsWellFormed) {found : Found Part}
    {actual : Match Part} (hdescribes : found.Describes actual)
    (hparts : found.parts = declared.head.parts ++ [(.supertype, declared.captured)])
    (resolver : Resolver) : anchorAt resolver .client actual = declared.anchor resolver := by
  rw [@anchorAt_of_describes _ _ _ _ hdescribes _ [] hparts rfl, h.anchorBase_captured,
    h.parseAnchorArguments_head, anchor]
  cases declared.list? <;> rfl

end ClientDecl

/-- **Printed client anchors are read back**, in order, each with its class, the base of its type
and what its arguments say. -/
theorem anchorsOf_clientSource (resolver : Resolver) {before : List Char} (hbefore : '@' ∉ before)
    {declared : List ClientDecl} (h : ∀ decl ∈ declared, decl.IsWellFormed) :
    anchorsOf resolver .client (before ++ ClientDecl.sourceAll declared) =
      declared.map (ClientDecl.anchor resolver) := by
  obtain ⟨founds, hfounds, hparts⟩ := ClientDecl.exists_finds_sourceAll h
  have hall := ((isClear_anchorShape .client hbefore _).finds hfounds).forall₂_findAll
  have hread := forall₂_comp hparts hall (T := fun (decl : ClientDecl) actual =>
    decl.IsWellFormed → anchorAt resolver .client actual = decl.anchor resolver)
    fun decl found actual hparts hdescribes hwf => hwf.anchorAt_eq hdescribes hparts resolver
  exact map_eq_map_of_forall₂ hread fun decl hdecl actual hactual => hactual (h decl hdecl)

theorem anchorsOf_clientSource_example :
    let resolver : Resolver := ⟨{ package := "p", explicit := ["q.Repo"] }, TypeIndex.empty⟩
    let repo : NamedType := ⟨"Repo".toList, some ["User".toList, " Id?".toList], true⟩
    let declared : List ClientDecl :=
      [⟨some ⟨some " a@b ".toList, some false⟩, ['\n'], [("public", [' ']), ("sealed", [' '])],
          [' '], [' '], "Menu".toList, [' '], [' '], repo, " \x7b\n\x7d\n\n".toList⟩,
        ⟨none, [' '], [], [' '], [' '], "Plain".toList, [], [' '], ⟨"r.Api".toList, none, false⟩,
          ", Other\n".toList⟩]
    let lines : List String :=
      ["package p\n", "@RpcClient(service = \" a@b \", generateFactory = false)\n",
        "public sealed abstract class Menu : Repo<User, Id?>? \x7b\n", "\x7d\n", "\n",
        "@RpcClient abstract class Plain: r.Api, Other\n"]
    (∀ decl ∈ declared, decl.IsWellFormed) ∧
      anchorsOf resolver .client (lines.flatMap String.toList) =
        [⟨"p", "Menu", "q.Repo", some "a@b", false⟩, ⟨"p", "Plain", "r.Api", none, true⟩] := by
  intro resolver repo declared lines
  have hrepo : repo.IsWellFormed := by
    have huser : IsTypeName "User".toList := by decide
    have hid : IsTypeName "Id".toList := by decide
    refine ⟨by decide +kernel, ?_⟩
    rintro arguments ⟨⟩
    refine ⟨["User".toList, "Id?".toList], by simp, ?_, ?_⟩
    · simp only [List.forall_mem_cons]
      exact ⟨.named huser, .nullable (.named hid), List.forall_mem_nil _⟩
    · exact .cons (isPadded_refl _) (.cons (isPadded_cons_space _) .nil)
  have hwf : ∀ decl ∈ declared, decl.IsWellFormed := by
    simp only [declared, List.forall_mem_cons]
    refine ⟨?_, ?_, List.forall_mem_nil _⟩
    · exact
        { list := by rintro list ⟨⟩ service ⟨⟩; decide
          gap := by decide
          gap_ne_nil := by rintro ⟨⟩
          modifiers := by decide
          abstractGap := by decide
          classGap := by decide
          name := by decide +kernel
          beforeColon := by decide
          behindColon := by decide
          type := hrepo
          line := by simp [repo, NamedType.text, NamedType.tail]
          ending := ⟨[' '], '\x7b', "\n\x7d\n\n".toList, by decide, by simp; decide, by decide⟩
          sign_notMem := by decide }
    · exact
        { list := by rintro list ⟨⟩
          gap := by decide
          gap_ne_nil := by decide
          modifiers := by decide
          abstractGap := by decide
          classGap := by decide
          name := by decide +kernel
          beforeColon := by decide
          behindColon := by decide
          type := ⟨by decide +kernel, by rintro arguments ⟨⟩⟩
          line := by simp [NamedType.text, NamedType.tail]
          ending := ⟨[], ',', " Other\n".toList, by decide, List.forall_mem_nil _, by decide⟩
          sign_notMem := by decide }
  have hread := anchorsOf_clientSource resolver (show '@' ∉ "package p\n".toList by decide) hwf
  -- the lines are what the two declarations are written as
  have hsource : "package p\n".toList ++ ClientDecl.sourceAll declared =
      lines.flatMap String.toList := by decide +kernel
  rw [hsource] at hread
  refine ⟨hwf, hread.trans ?_⟩
  decide +kernel

end RpcBinder.Declaration
