import Mathlib.Data.List.TakeWhile
import RpcBinder.Declaration.Shape
import RpcBinder.Declaration.TypeText
import RpcBinder.Proofs.TypeRef.Tree

/-!
# Names and types in declarations

The names in a declaration are made of word characters, and of dots where they are
qualified.  No such character is white space, a bracket or any other mark that the readers
of declarations look for, so a type written with such names passes through them unharmed.

## Main definitions

* `IsIdentifier`, `IsDottedName` — names without and with dots; ASCII identifiers are among them.
* `IsTypeText` — a type as the readers of declarations need it.

## Main results

* `IsTypeText.cleanType_padded` — cleaning a type undoes padding and only joins its words.
* `TypeTree.Written.isTypeText` — a tree over declared names may be written like this.
* `TypeTree.cleanType_text` — the canonical text of such a tree is already clean.
-/

namespace RpcBinder

open Declaration Declaration.Shape

/-! ### Word characters -/

theorem isWord_eq_false_of_isSpace {c : Char} (h : isSpace c = true) : isWord c = false := by
  have hcode : c.toNat = 0x09 ∨ c.toNat = 0x0A ∨ c.toNat = 0x0B ∨ c.toNat = 0x0C ∨
      c.toNat = 0x0D ∨ c.toNat = 0x20 ∨ c.toNat = 0x85 ∨ c.toNat = 0xA0 ∨ c.toNat = 0x1680 ∨
      c.toNat = 0x2000 ∨ c.toNat = 0x2001 ∨ c.toNat = 0x2002 ∨ c.toNat = 0x2003 ∨
      c.toNat = 0x2004 ∨ c.toNat = 0x2005 ∨ c.toNat = 0x2006 ∨ c.toNat = 0x2007 ∨
      c.toNat = 0x2008 ∨ c.toNat = 0x2009 ∨ c.toNat = 0x200A ∨ c.toNat = 0x2028 ∨
      c.toNat = 0x2029 ∨ c.toNat = 0x202F ∨ c.toNat = 0x205F ∨ c.toNat = 0x3000 := by
    simp only [isSpace, Bool.or_eq_true, Bool.and_eq_true, decide_eq_true_eq, beq_iff_eq] at h
    omega
  -- each of these characters by itself is looked up in the table of word characters
  rw [← Char.ofNat_toNat c]
  generalize c.toNat = n at hcode
  rcases hcode with rfl | rfl | rfl | rfl | rfl | rfl | rfl | rfl | rfl | rfl | rfl | rfl | rfl |
    rfl | rfl | rfl | rfl | rfl | rfl | rfl | rfl | rfl | rfl | rfl | rfl <;> decide +kernel

theorem isSpace_of_isWord {c : Char} (h : isWord c = true) : isSpace c = false := by
  by_contra hc
  have hspace : isSpace c = true := by simpa using hc
  rw [isWord_eq_false_of_isSpace hspace] at h
  exact absurd h (by decide)

/-- White space, if there is any, and something behind it that is no part of a word end a word. -/
theorem head?_blank_append {blank : List Char} (hblank : isBlank blank = true) {stop : Char}
    (hstop : isWord stop = false) (more : List Char) :
    ∀ c ∈ (blank ++ stop :: more).head?, isWord c = false := by
  cases blank with
  | nil => simpa using hstop
  | cons c blank =>
    have hc := isWord_eq_false_of_isSpace (forall_isSpace_of_isBlank hblank c List.mem_cons_self)
    simpa using hc

theorem isSpace_of_isDottedWord {c : Char} (h : isDottedWord c = true) : isSpace c = false := by
  rcases Bool.or_eq_true_iff.1 h with hword | hdot
  · exact isSpace_of_isWord hword
  · rw [beq_iff_eq] at hdot
    subst hdot
    rfl

/-! ### Declared names -/

/-- A name of word characters, as every identifier is. -/
abbrev IsIdentifier (name : List Char) : Prop := IsRun isWord name

/-- A name of word characters and dots, as every qualified name is. -/
abbrev IsDottedName (name : List Char) : Prop := IsRun isDottedWord name

/-- A character that the name of a type may hold in a declaration: it does not end a type
there. -/
def isDeclaredChar (c : Char) : Bool :=
  isTypeNameChar c && !(['=', '/', '}', ';'].contains c)

theorem isDeclaredChar_of_isDottedWord {c : Char} (h : isDottedWord c = true) :
    isDeclaredChar c = true := by
  have hspace : isSpace c = false := isSpace_of_isDottedWord h
  have htype : ['<', '>', '(', ')', ',', '?', '*', '-'].contains c = false :=
    contains_eq_false_of_class (by decide +kernel) h
  have hend : ['=', '/', '}', ';'].contains c = false :=
    contains_eq_false_of_class (by decide +kernel) h
  rw [isDeclaredChar, isTypeNameChar, hspace, htype, hend]
  rfl

theorem isTypeNameChar_of_isDeclaredChar {c : Char} (h : isDeclaredChar c = true) :
    isTypeNameChar c = true := by
  unfold isDeclaredChar at h
  exact (Bool.and_eq_true_iff.1 h).1

theorem isDottedWord_of_isWord {c : Char} (h : isWord c = true) : isDottedWord c = true := by
  rw [isDottedWord, h, Bool.true_or]

theorem isDottedName_of_isIdentifier {name : List Char} (h : IsIdentifier name) :
    IsDottedName name :=
  h.mono fun _ => isDottedWord_of_isWord

theorem isTypeName_of_isDottedName {name : List Char} (h : IsDottedName name) : IsTypeName name :=
  h.mono fun _ hc => isTypeNameChar_of_isDeclaredChar (isDeclaredChar_of_isDottedWord hc)

theorem isWord_of_isIdentifier {name : List Char} (h : IsIdentifier name) : IsWord name :=
  ⟨h.ne_nil, fun c hc => isSpace_of_isWord (h.forall_char c hc)⟩

/-! ### Types in declarations -/

/-- A character that ends no type in a declaration. -/
def isTypeTextChar (c : Char) : Bool :=
  !(['=', '/', '}', ';'].contains c)

/-- A type that can stand in a declaration: there is no white space at its ends, its commas lie
within brackets that it closes again, and nothing in it ends a type. -/
structure IsTypeText (text : List Char) : Prop where
  isSolid : IsSolid text
  walk : Lexis.walk (0, false) text = some (0, false)
  forall_char : ∀ c ∈ text, isTypeTextChar c = true

theorem isTypeTextChar_of_isSpace {c : Char} (h : isSpace c = true) : isTypeTextChar c = true := by
  have hend : ['=', '/', '}', ';'].contains c = false := contains_eq_false_of_class (by decide) h
  rw [isTypeTextChar, hend]
  rfl

theorem beforeLineComment_append {s : List Char} (h : '/' ∉ s) (t : List Char) :
    beforeLineComment (s ++ t) = s ++ beforeLineComment t := by
  induction s with
  | nil => rfl
  | cons c s ih =>
    have hc : c ≠ '/' := (List.ne_of_not_mem_cons h).symm
    rw [List.cons_append, beforeLineComment, ih (List.not_mem_of_not_mem_cons h), List.cons_append]
    -- only a slash would open a comment
    intro _ heq
    exact absurd heq hc

theorem beforeLineComment_of_notMem {text : List Char} (h : '/' ∉ text) :
    beforeLineComment text = text := by
  have happend := beforeLineComment_append h []
  rwa [beforeLineComment, List.append_nil] at happend

/-- A text that does not end with a character keeps its end. -/
theorem trimEndBy_of_notMem {stop : Char} {text : List Char} (h : stop ∉ text) :
    trimEndBy (· == stop) text = text := by
  unfold trimEndBy
  cases hlast : text.getLast? with
  | none => rfl
  | some c =>
    have hc : c ≠ stop := fun heq => h (heq ▸ List.mem_of_getLast? hlast)
    simp [hc]

namespace IsTypeText

variable {text : List Char}

theorem notMem (h : IsTypeText text) {c : Char} (hc : isTypeTextChar c = false) : c ∉ text :=
  fun hmem => ne_of_class (h.forall_char c hmem) hc rfl

theorem forall_char_padded (h : IsTypeText text) {padded : List Char}
    (hp : IsPadded text padded) : ∀ c ∈ padded, isTypeTextChar c = true := by
  intro c hc
  rcases hp.isSpace_or_mem hc with hspace | hmem
  · exact isTypeTextChar_of_isSpace hspace
  · exact h.forall_char c hmem

/-- Cleaning a type undoes padding and only joins its words. -/
theorem cleanType_padded (h : IsTypeText text) {padded : List Char} (hp : IsPadded text padded) :
    cleanType padded = [' '].intercalate (words text) := by
  have hchar := h.forall_char_padded hp
  have hslash : '/' ∉ padded := fun hmem => ne_of_class (hchar _ hmem) (by decide) rfl
  have hbrace : padded.takeWhile (· != '}') = padded := by
    refine List.takeWhile_eq_self_iff.2 fun c hc => ?_
    rw [bne_iff_ne]
    exact ne_of_class (hchar c hc) (by decide)
  unfold cleanType
  simp only [beforeLineComment_of_notMem hslash, hbrace, trim_of_isPadded hp h.isSolid,
    trimEndBy_of_notMem (h.notMem (by decide : isTypeTextChar ';' = false))]

theorem cleanType_eq (h : IsTypeText text) : cleanType text = [' '].intercalate (words text) :=
  h.cleanType_padded (isPadded_refl text)

theorem cleanType_ne_nil (h : IsTypeText text) : cleanType text ≠ [] := by
  rw [h.cleanType_eq]
  obtain ⟨first, others, hwords⟩ := List.exists_cons_of_ne_nil (words_ne_nil h.isSolid.starts)
  have hfirst : first ≠ [] := by
    have hmem : first ∈ words text := by rw [hwords]; exact List.mem_cons_self
    unfold words at hmem
    simpa using (List.mem_filter.1 hmem).2
  rw [hwords]
  intro hnil
  cases others with
  | nil =>
    rw [List.intercalate_singleton] at hnil
    exact hfirst hnil
  | cons second others =>
    rw [List.intercalate_cons_cons] at hnil
    simp [hfirst] at hnil

end IsTypeText

/-! ### Trees in declarations -/

namespace TypeTree

/-- All names of the tree are declared names. -/
def IsDeclared (type : TypeTree) : Prop := ∀ name ∈ type.names, IsRun isDeclaredChar name

instance (type : TypeTree) : Decidable type.IsDeclared :=
  inferInstanceAs (Decidable (∀ name ∈ type.names, IsRun isDeclaredChar name))

theorem IsDeclared.isWellFormed {type : TypeTree} (h : type.IsDeclared) : type.IsWellFormed :=
  fun name hname => (h name hname).mono fun _ => isTypeNameChar_of_isDeclaredChar

/-- The characters that types are put together with, those of the keywords included. -/
def marks : List Char := ['<', '>', ',', '?', '*', ' ', 'o', 'u', 't', 'i', 'n']

theorem forall_char_keyword {p : Char → Bool} (hmark : marks.all p = true)
    (variance : Variance) : ∀ c ∈ variance.keyword, p c = true := by
  have hkeyword : variance.keyword.all marks.contains = true := by cases variance <;> decide
  intro c hc
  have hmem := List.all_eq_true.1 hkeyword c hc
  exact List.all_eq_true.1 hmark c (List.contains_iff_mem.1 hmem)

/-- A class that holds the characters of the names, the marks and white space holds every
character of a written tree. -/
theorem Written.forall_char {p : Char → Bool} {type : TypeTree} {text : List Char}
    (h : Written type text) (hname : ∀ name ∈ type.names, ∀ c ∈ name, p c = true)
    (hmark : marks.all p = true) (hspace : ∀ c, isSpace c = true → p c = true) :
    ∀ c ∈ text, p c = true := by
  have hmarks := List.all_eq_true.1 hmark
  induction type generalizing text with
  | star =>
    cases h
    intro c hc
    rw [List.mem_singleton.1 hc]
    exact hmarks '*' (by decide)
  | named name =>
    cases h
    exact hname name (by rw [names]; exact List.mem_singleton_self name)
  | generic base first others ih =>
    obtain _ | _ | ⟨harguments, hpadded⟩ := h
    rename_i texts padded
    -- an argument is padded with blanks around its own text
    have hinner : ∀ piece ∈ padded, ∀ c ∈ piece, p c = true := by
      intro piece hpiece c hc
      obtain ⟨text, htext, hp⟩ := exists_related_of_mem hpadded hpiece
      obtain ⟨type, htype, hw⟩ := exists_related_of_mem harguments htext
      have hnames : ∀ name ∈ type.names, ∀ c ∈ name, p c = true := fun name hmem =>
        hname name (mem_names_of_argument htype hmem)
      rcases hp.isSpace_or_mem hc with hblank | hmem
      · exact hspace c hblank
      · exact ih type htype hw hnames c hmem
    have hcomma : [','].all p = true := by simpa using hmarks ',' (by decide)
    intro c hc
    rw [List.mem_append, List.mem_cons, List.mem_append, List.mem_singleton] at hc
    rcases hc with hc | rfl | hc | rfl
    · exact hname base (by rw [names]; exact List.mem_cons_self) c hc
    · exact hmarks '<' (by decide)
    · exact forall_char_intercalate hcomma hinner c hc
    · exact hmarks '>' (by decide)
  | nullable type ih =>
    obtain _ | _ | _ | h := h
    intro c hc
    rw [List.mem_append, List.mem_singleton] at hc
    rcases hc with hc | rfl
    · exact ih h hname c hc
    · exact hmarks '?' (by decide)
  | projected variance type ih =>
    obtain ⟨rest, hrest, rfl⟩ := h.exists_of_projected
    intro c hc
    rcases List.mem_append.1 hc with hc | hc
    · exact forall_char_keyword hmark variance c hc
    · exact ih hrest hname c hc

/-- In the canonical text there is no white space but the space among the marks. -/
theorem forall_char_text {p : Char → Bool} {type : TypeTree}
    (hname : ∀ name ∈ type.names, ∀ c ∈ name, p c = true) (hmark : marks.all p = true) :
    ∀ c ∈ type.text id, p c = true := by
  have hmarks := List.all_eq_true.1 hmark
  induction type with
  | star =>
    intro c hc
    rw [text, List.mem_singleton] at hc
    rw [hc]
    exact hmarks '*' (by decide)
  | named name => exact hname name (by rw [names]; exact List.mem_singleton_self name)
  | generic base first others ih =>
    have hinner : ∀ piece ∈ (first :: others).map (text id), ∀ c ∈ piece, p c = true := by
      intro piece hpiece
      obtain ⟨type, htype, rfl⟩ := List.mem_map.1 hpiece
      exact ih type htype fun name hmem => hname name (mem_names_of_argument htype hmem)
    have hseparator : [',', ' '].all p = true := by
      simpa using ⟨hmarks ',' (by decide), hmarks ' ' (by decide)⟩
    intro c hc
    rw [text, textAll_eq, List.mem_append, List.mem_cons, List.mem_append, List.mem_singleton] at hc
    rcases hc with hc | rfl | hc | rfl
    · exact hname base (by rw [names]; exact List.mem_cons_self) c hc
    · exact hmarks '<' (by decide)
    · exact forall_char_intercalate hseparator hinner c hc
    · exact hmarks '>' (by decide)
  | nullable type ih =>
    intro c hc
    rw [text, List.mem_append, List.mem_singleton] at hc
    rcases hc with hc | rfl
    · exact ih hname c hc
    · exact hmarks '?' (by decide)
  | projected variance type ih =>
    intro c hc
    rw [text_projected, List.mem_append] at hc
    rcases hc with hc | hc
    · exact forall_char_keyword hmark variance c hc
    · exact ih hname c hc

/-- A tree over declared names may be written in a declaration. -/
theorem Written.isTypeText {type : TypeTree} {text : List Char} (h : Written type text)
    (hdeclared : type.IsDeclared) : IsTypeText text where
  isSolid := h.isSolid hdeclared.isWellFormed
  walk := h.walk hdeclared.isWellFormed 0
  forall_char := by
    refine h.forall_char ?_ (by decide) fun c => isTypeTextChar_of_isSpace
    intro name hname c hc
    have hchar := (hdeclared name hname).forall_char c hc
    unfold isDeclaredChar at hchar
    exact (Bool.and_eq_true_iff.1 hchar).2

/-! ### Canonical texts -/

theorem isLine_intercalate {text : List Char} {texts : List (List Char)}
    (h : ∀ line ∈ text :: texts, IsLine line) :
    IsLine ([',', ' '].intercalate (text :: texts)) := by
  induction texts generalizing text with
  | nil => simpa using h text List.mem_cons_self
  | cons other texts ih =>
    have hrest := ih fun line hmem => h line (List.mem_cons_of_mem _ hmem)
    have hcomma : IsLine (text ++ [',']) :=
      (h text List.mem_cons_self).append (.word (isWord_singleton (by decide)))
    rw [List.intercalate_cons_cons]
    simpa using hcomma.append_space hrest

/-- The canonical text has single spaces only. -/
theorem isLine_text {type : TypeTree} (hwf : type.IsWellFormed) : IsLine (type.text id) := by
  have hword : ∀ {name}, IsTypeName name → IsWord name := fun hname =>
    ⟨hname.ne_nil, fun c hc => isSpace_of_isTypeNameChar (hname.forall_char c hc)⟩
  induction type with
  | star => exact .word (isWord_singleton (by decide))
  | named name => exact .word (hword hwf.named)
  | generic base first others ih =>
    have hinner : IsLine ([',', ' '].intercalate (first.text id :: others.map (text id))) := by
      refine isLine_intercalate fun line hmem => ?_
      rw [← List.map_cons (f := text id), List.mem_map] at hmem
      obtain ⟨type, htype, rfl⟩ := hmem
      exact ih type htype (hwf.argument type htype)
    have hopen : IsLine ['<'] := .word (isWord_singleton (by decide))
    have hclose : IsLine ['>'] := .word (isWord_singleton (by decide))
    rw [text, textAll_eq]
    exact (IsLine.word (hword hwf.base)).append (hopen.append (hinner.append hclose))
  | nullable type ih =>
    exact (ih hwf.nullable).append (.word (isWord_singleton (by decide)))
  | projected variance type ih =>
    rw [text_projected]
    cases variance with
    | producer =>
      have hout : IsWord "out".toList := isWord_of_isRun (by decide)
      exact IsLine.cons hout (ih hwf.projected)
    | consumer =>
      have hin : IsWord "in".toList := isWord_of_isRun (by decide)
      exact IsLine.cons hin (ih hwf.projected)

/-- The canonical text of a type is already clean. -/
theorem cleanType_text {type : TypeTree} (hdeclared : type.IsDeclared) :
    cleanType (type.text id) = type.text id := by
  have htext : IsTypeText (type.text id) := (written_text type).isTypeText hdeclared
  rw [htext.cleanType_eq, (isLine_text hdeclared.isWellFormed).intercalate_words]

end TypeTree

end RpcBinder
