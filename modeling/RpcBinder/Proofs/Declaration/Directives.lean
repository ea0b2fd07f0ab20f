import RpcBinder.Proofs.Declaration.Shapes
import RpcBinder.Proofs.Declaration.TypeLine
import RpcBinder.Proofs.Pattern.Lines
import RpcBinder.Proofs.Pattern.Misses
import RpcBinder.Proofs.Scope.Imports

/-!
# Directives

A directive stands on a line of its own: a word, a path, and perhaps another name, with spaces and
tabs between them, and behind them perhaps a semicolon and a carriage return.  The patterns take
ASCII paths and names only.  The path of a whole package is read with its last dot first, which is
given back, and a directive with any other letter in it is missed.

## Main definitions

* `Ending`, `Frame` — what stands behind a directive, and around it.
* `directive` — the shape of a directive with some content.
* `BeginsWith` — a line that begins with a word.
* `importText`, `IsReadable` — an import as it is written, and one that the pattern can read.

## Main results

* `reads_directive`, `misses_directive` — a directive is read or missed as its content is.
* `misses_directive_of_not_beginsWith` — on a line that does not begin with its word it is missed.
* `reads_packageContent`, `misses_packageContent` — a package is read if its path is ASCII.
* `reads_importContent`, `misses_importContent` — and so is an import.
-/

namespace RpcBinder.Declaration

open Pattern

/-! ### Characters -/

theorem isTabOrSpace_iff {c : Char} : Shape.isTabOrSpace c = true ↔ c = ' ' ∨ c = '\t' := by
  simp [Shape.isTabOrSpace]

/-- A character that may stand behind the content of a directive. -/
def isEndChar (c : Char) : Bool :=
  Shape.isTabOrSpace c || c == ';' || c == '\r' || c == '\n'

theorem isPathPart_eq_false_of_isEndChar {c : Char} (h : isEndChar c = true) :
    Shape.isPathPart c = false := by
  have hcase : ((c = ' ' ∨ c = '\t') ∨ c = ';' ∨ c = '\r') ∨ c = '\n' := by
    simpa [isEndChar, isTabOrSpace_iff, or_assoc] using h
  rcases hcase with ((rfl | rfl) | rfl | rfl) | rfl <;> decide

theorem isEndChar_eq_false_of_isPathPart {c : Char} (h : Shape.isPathPart c = true) :
    isEndChar c = false := by
  by_contra hend
  rw [isPathPart_eq_false_of_isEndChar (by simpa using hend)] at h
  cases h

/-- No character of a path may stand behind it. -/
theorem isEndChar_eq_false_of_isDottedWord {c : Char} (h : Shape.isDottedWord c = true) :
    isEndChar c = false := by
  have hspace : c ≠ ' ' := ne_of_class h (by decide +kernel)
  have htab : c ≠ '\t' := ne_of_class h (by decide +kernel)
  have hmark : c ≠ ';' := ne_of_class h (by decide +kernel)
  have hreturn : c ≠ '\r' := ne_of_class h (by decide +kernel)
  have hfeed : c ≠ '\n' := ne_of_class h (by decide +kernel)
  simp [isEndChar, Shape.isTabOrSpace, hspace, htab, hmark, hreturn, hfeed]

theorem isTabOrSpace_eq_false_of_isEndChar_eq_false {c : Char} (h : isEndChar c = false) :
    Shape.isTabOrSpace c = false := by
  simp only [isEndChar, Bool.or_eq_false_iff] at h
  exact h.1.1.1

/-! ### Endings -/

/-- What stands behind a directive, up to the line feed. -/
structure Ending where
  /-- The spaces and tabs in front of the semicolon. -/
  before : List Char
  /-- There is a semicolon. -/
  mark : Bool
  /-- The spaces and tabs behind it. -/
  behind : List Char
  /-- There is a carriage return. -/
  carriage : Bool

namespace Ending

/-- The text of an ending. -/
def text (ending : Ending) : List Char :=
  ending.before ++ ((if ending.mark then [';'] else []) ++
    (ending.behind ++ (if ending.carriage then ['\r'] else [])))

/-- Spaces and tabs. -/
structure IsWellFormed (ending : Ending) : Prop where
  before : ending.before.all Shape.isTabOrSpace = true
  behind : ending.behind.all Shape.isTabOrSpace = true

variable {ending : Ending} {rest : List Char}

/-- The pattern of an ending behind its semicolon. -/
theorem reads_carriage (carriage : Bool) (rest : List Char) :
    Reads (maybe (Shape.word "\r") ++ lineEnd : Pattern Part) (if carriage then ['\r'] else [])
      ('\n' :: rest) [] := by
  have hend : Reads (lineEnd : Pattern Part) [] ('\n' :: rest) [] := reads_lineEnd (by simp)
  cases carriage with
  | true => exact (reads_literal ['\r'] _).maybe.seq_nil hend
  | false =>
    have hmiss : Misses (Shape.word "\r" : Pattern Part) ('\n' :: rest) :=
      misses_literal_cons (by decide) _ rest
    exact (reads_maybe_of_misses hmiss).seq_nil hend

theorem head?_carriage (carriage : Bool) (rest : List Char) :
    ∃ stop more, (if carriage then ['\r'] else []) ++ '\n' :: rest = stop :: more ∧
      (stop = '\r' ∨ stop = '\n') := by
  cases carriage with
  | true => exact ⟨'\r', '\n' :: rest, rfl, Or.inl rfl⟩
  | false => exact ⟨'\n', rest, rfl, Or.inr rfl⟩

/-- An ending begins with spaces and tabs, and goes on with a mark. -/
theorem IsWellFormed.exists_stop (h : ending.IsWellFormed) (rest : List Char) :
    ∃ blank stop more, ending.text ++ '\n' :: rest = blank ++ stop :: more ∧
      blank.all Shape.isTabOrSpace = true ∧ (stop = ';' ∨ stop = '\r' ∨ stop = '\n') := by
  cases hmark : ending.mark with
  | true =>
    exact ⟨ending.before, ';', ending.behind ++ ((if ending.carriage then ['\r'] else []) ++
      '\n' :: rest), by simp [text, hmark], h.before, Or.inl rfl⟩
  | false =>
    obtain ⟨stop, more, heq, hstop⟩ := head?_carriage ending.carriage rest
    refine ⟨ending.before ++ ending.behind, stop, more, ?_, ?_, Or.inr hstop⟩
    · simp [text, hmark, heq]
    · rw [List.all_append, h.before, h.behind]
      rfl

theorem IsWellFormed.head? (h : ending.IsWellFormed) (rest : List Char) :
    ∀ c ∈ (ending.text ++ '\n' :: rest).head?, isEndChar c = true := by
  obtain ⟨blank, stop, more, heq, hblank, hstop⟩ := h.exists_stop rest
  rw [heq]
  cases blank with
  | nil => rcases hstop with rfl | rfl | rfl <;> simp <;> decide
  | cons c blank =>
    have hc := List.all_eq_true.1 hblank c List.mem_cons_self
    simp [isEndChar, hc]

/-- An ending is read. -/
theorem IsWellFormed.reads (h : ending.IsWellFormed) (rest : List Char) :
    Reads Shape.directiveEnd ending.text ('\n' :: rest) [] := by
  obtain ⟨stop, more, heq, hstop⟩ := head?_carriage ending.carriage rest
  have hclass : ∀ c ∈ ((if ending.carriage then ['\r'] else []) ++ '\n' :: rest).head?,
      Shape.isTabOrSpace c = false := by
    rw [heq]
    rcases hstop with rfl | rfl <;> simp <;> decide
  have hcarriage := reads_carriage ending.carriage rest
  -- a semicolon keeps the two stretches of blanks apart, without it the first takes both
  cases hmark : ending.mark with
  | true =>
    have hbefore : Reads Shape.tabs ending.before ([';'] ++ (ending.behind ++
        ((if ending.carriage then ['\r'] else []) ++ '\n' :: rest))) [] :=
      reads_stretch h.before (by simp; decide)
    have hbehind : Reads Shape.tabs ending.behind
        ((if ending.carriage then ['\r'] else []) ++ '\n' :: rest) [] :=
      reads_stretch h.behind hclass
    have hall := ((hbefore.seq (reads_literal [';'] _).maybe).seq hbehind).seq hcarriage
    have htext : ending.text = ending.before ++ [';'] ++ ending.behind ++
        (if ending.carriage then ['\r'] else []) := by simp [text, hmark]
    rw [htext]
    exact fun place hplace => hall place hplace
  | false =>
    have hblank : (ending.before ++ ending.behind).all Shape.isTabOrSpace = true := by
      rw [List.all_append, h.before, h.behind]
      rfl
    have hbefore : Reads Shape.tabs (ending.before ++ ending.behind)
        ((if ending.carriage then ['\r'] else []) ++ '\n' :: rest) [] :=
      reads_stretch hblank hclass
    have hmiss : Misses (Shape.word ";" : Pattern Part)
        ((if ending.carriage then ['\r'] else []) ++ '\n' :: rest) := by
      have hne : stop ≠ ';' := by rcases hstop with rfl | rfl <;> decide
      rw [heq]
      exact misses_literal_cons hne _ more
    have hnone : Reads Shape.tabs []
        ((if ending.carriage then ['\r'] else []) ++ '\n' :: rest) [] := reads_stretch rfl hclass
    have hall := ((hbefore.seq_nil (reads_maybe_of_misses hmiss)).seq_nil hnone).seq hcarriage
    have htext : ending.text = ending.before ++ ending.behind ++
        (if ending.carriage then ['\r'] else []) := by simp [text, hmark]
    rw [htext]
    exact fun place hplace => hall place hplace

end Ending

/-- No directive ends where, behind spaces and tabs, its line goes on. -/
theorem misses_directiveEnd {blank : List Char} (hblank : blank.all Shape.isTabOrSpace = true)
    {c : Char} (hc : isEndChar c = false) (rest : List Char) :
    Misses Shape.directiveEnd (blank ++ c :: rest) := by
  obtain ⟨⟨⟨hspace, hmark⟩, hreturn⟩, hfeed⟩ :
      ((Shape.isTabOrSpace c = false ∧ c ≠ ';') ∧ c ≠ '\r') ∧ c ≠ '\n' := by
    simpa [isEndChar] using hc
  have hother : ∀ {d : Char}, Shape.isTabOrSpace d = true → d ≠ ';' ∧ d ≠ '\r' ∧ d ≠ '\n' :=
    fun hd => ⟨ne_of_class hd (by decide), ne_of_class hd (by decide), ne_of_class hd (by decide)⟩
  -- back from the end of the line: every part may be passed over, and none of them helps
  have hend : ∀ {d : Char}, d ≠ '\r' → d ≠ '\n' → ∀ text,
      Misses (maybe (Shape.word "\r") ++ lineEnd) (d :: text) := fun hd hd' text =>
    misses_maybe ((misses_literal_cons hd _ text).seq _) (misses_lineEnd hd' text)
  have hlast : ∀ {t}, t.all Shape.isTabOrSpace = true → Misses (Shape.tabs ++
      (maybe (Shape.word "\r") ++ lineEnd)) (t ++ c :: rest) := fun ht =>
    misses_stretch_append
      (fun d hd text => have hne := hother (List.all_eq_true.1 ht d hd)
        hend hne.2.1 hne.2.2 text)
      (misses_stretch_of_misses (by simpa using hspace) (hend hreturn hfeed rest))
  have hmarked : ∀ {t}, t.all Shape.isTabOrSpace = true → Misses (maybe (Shape.word ";") ++
      (Shape.tabs ++ (maybe (Shape.word "\r") ++ lineEnd))) (t ++ c :: rest) := by
    intro t ht
    refine misses_maybe (Misses.seq ?_ _) (hlast ht)
    cases t with
    | nil => exact misses_literal_cons hmark _ rest
    | cons d t =>
      have hne := (hother (List.all_eq_true.1 ht d List.mem_cons_self)).1
      exact misses_literal_cons hne _ (t ++ c :: rest)
  have hall := misses_stretch_of_suffixes (p := Shape.isTabOrSpace) (s := blank)
    (fun t ht => hmarked (List.all_eq_true.2 fun d hd =>
      List.all_eq_true.1 hblank d (ht.subset hd)))
    (misses_stretch_of_misses (by simpa using hspace) (hmarked (t := []) rfl))
  exact fun place hplace k => hall place hplace k

theorem misses_directiveEnd_cons {c : Char} (hc : isEndChar c = false) (rest : List Char) :
    Misses Shape.directiveEnd (c :: rest) :=
  @misses_directiveEnd [] rfl c hc rest

/-! ### Lines -/

/-- What stands around the content of a directive. -/
structure Frame where
  /-- The spaces and tabs at the start of the line. -/
  indent : List Char
  /-- The spaces and tabs behind the word. -/
  gap : List Char
  /-- What stands behind the content. -/
  ending : Ending

namespace Frame

/-- The line of a directive without its line feed. -/
def line (frame : Frame) (keyword : String) (content : List Char) : List Char :=
  frame.indent ++ (keyword.toList ++ (frame.gap ++ (content ++ frame.ending.text)))

/-- Spaces and tabs. -/
structure IsWellFormed (frame : Frame) : Prop where
  indent : frame.indent.all Shape.isTabOrSpace = true
  gap : IsRun Shape.isTabOrSpace frame.gap
  ending : frame.ending.IsWellFormed

end Frame

/-- The shape of a directive behind the start of its line. -/
def directive (keyword : String) (content : Pattern Part) : Pattern Part :=
  Shape.tabs ++ (Shape.word keyword ++ (Shape.tabs1 ++ content))

variable {keyword : String} {content : Pattern Part} {frame : Frame} {rest : List Char}

theorem misses_literal_of_isTabOrSpace {s : List Char} (h : StartsName s) {c : Char}
    (hc : Shape.isTabOrSpace c = true) (rest : List Char) :
    Misses (literal s : Pattern Part) (c :: rest) := by
  refine misses_literal fun ⟨more, hmore⟩ => ?_
  have hclass := (h.append more).forall_head? c (hmore ▸ rfl)
  rw [hc] at hclass
  cases hclass

/-- A directive is read if its content is. -/
theorem reads_directive {s t : List Char} {parts : List (Part × List Char)}
    (hframe : frame.IsWellFormed) (hkeyword : StartsName keyword.toList)
    (hs : ∀ c ∈ (s ++ t).head?, Shape.isTabOrSpace c = false) (h : Reads content s t parts) :
    Reads (directive keyword content)
      (frame.indent ++ (keyword.toList ++ (frame.gap ++ s))) t parts := by
  have hindent : Reads Shape.tabs frame.indent (keyword.toList ++ (frame.gap ++ s) ++ t) [] :=
    reads_stretch hframe.indent (by
      rw [List.append_assoc]
      exact (hkeyword.append _).forall_head?)
  have hword : Reads (Shape.word keyword) keyword.toList (frame.gap ++ s ++ t) [] :=
    reads_literal _ _
  have hgap : Reads Shape.tabs1 frame.gap (s ++ t) [] := reads_stretch1 hframe.gap hs
  exact hindent.seq (hword.seq (hgap.seq h))

/-- A directive is missed if its content is. -/
theorem misses_directive {text : List Char} (hframe : frame.IsWellFormed)
    (hkeyword : StartsName keyword.toList)
    (hspace : ∀ c, Shape.isTabOrSpace c = true → ∀ text, Misses content (c :: text))
    (htext : ∀ c ∈ text.head?, Shape.isTabOrSpace c = false) (h : Misses content text) :
    Misses (directive keyword content)
      (frame.indent ++ (keyword.toList ++ (frame.gap ++ text))) := by
  have hgap : Misses (Shape.tabs1 ++ content) (frame.gap ++ text) :=
    misses_stretch1_append (fun c hc => hspace c (hframe.gap.forall_char c hc)) hframe.gap.ne_nil
      (misses_stretch_of_misses htext h)
  exact misses_stretch_append
    (fun c hc rest => (misses_literal_of_isTabOrSpace hkeyword
      (List.all_eq_true.1 hframe.indent c hc) rest).seq _)
    (misses_stretch_of_misses (hkeyword.append _).forall_head? (misses_literal_append hgap _))

/-- The line begins, behind spaces and tabs, with the word. -/
def BeginsWith (keyword : String) (line : List Char) : Prop :=
  ∃ rest, keyword.toList ++ rest = line.dropWhile Shape.isTabOrSpace ∧
    ∀ c ∈ rest.head?, isWord c = false

instance (keyword : String) (line : List Char) : Decidable (BeginsWith keyword line) :=
  decidable_of_iff ((keyword.toList.isPrefixOf? (line.dropWhile Shape.isTabOrSpace)).any
      fun rest => rest.head?.all fun c => !isWord c) (by
    simp only [Option.any_eq_true, List.isPrefixOf?_eq_some_iff_append_eq, BeginsWith,
      Option.all_eq_true, Bool.not_eq_true', Option.mem_def])

/-- A word that begins a text up to the end of a line begins the line. -/
theorem prefix_of_prefix_append {word line : List Char} (hword : '\n' ∉ word)
    (hrest : ∀ c ∈ rest.head?, c = '\n') (h : word <+: line ++ rest) : word <+: line := by
  obtain ⟨more, heq⟩ := h
  rcases List.append_eq_append_iff.1 heq with ⟨front, hline, -⟩ | ⟨back, hwhole, hback⟩
  · exact ⟨front, hline.symm⟩
  · cases back with
    | nil => exact ⟨[], by simpa using hwhole⟩
    | cons c back =>
      have hfeed : c = '\n' := hrest c (by simp [hback])
      exact absurd (hwhole ▸ by simp [hfeed]) hword

/-- A directive is missed on a line that does not begin with its word. -/
theorem misses_directive_of_not_beginsWith (hkeyword : StartsName keyword.toList)
    (hplain : '\n' ∉ keyword.toList) {line : List Char} (h : ¬ BeginsWith keyword line)
    (hrest : ∀ c ∈ rest.head?, c = '\n') : Misses (directive keyword content) (line ++ rest) := by
  have hclass : ∀ c ∈ rest.head?, Shape.isTabOrSpace c = false := fun c hc => by
    rw [hrest c hc]
    decide
  have hsplit : line ++ rest = line.takeWhile Shape.isTabOrSpace ++
      (line.dropWhile Shape.isTabOrSpace ++ rest) := by
    rw [← List.append_assoc, List.takeWhile_append_dropWhile]
  have hword : Misses (Shape.word keyword ++ (Shape.tabs1 ++ content))
      (line.dropWhile Shape.isTabOrSpace ++ rest) := by
    by_cases hfront : keyword.toList <+: line.dropWhile Shape.isTabOrSpace ++ rest
    · -- the word goes on, so there is no gap behind it
      obtain ⟨more, hmore⟩ := prefix_of_prefix_append hplain hrest hfront
      have hgoes : ∃ c ∈ more.head?, isWord c = true := by
        by_contra hnone
        push Not at hnone
        exact h ⟨more, hmore, fun c hc => by simpa using hnone c hc⟩
      obtain ⟨c, hc, hword⟩ := hgoes
      obtain ⟨others, rfl⟩ := List.head?_eq_some_iff.1 hc
      have hspace : Shape.isTabOrSpace c = false :=
        isTabOrSpace_eq_false_of_isEndChar_eq_false
          (isEndChar_eq_false_of_isDottedWord (isDottedWord_of_isWord hword))
      have hgap : Misses (Shape.tabs1 : Pattern Part) (c :: (others ++ rest)) :=
        misses_stretch1_cons hspace _
      rw [← hmore, List.append_assoc]
      exact misses_literal_append (hgap.seq _) _
    · exact (misses_literal hfront).seq _
  rw [hsplit]
  exact misses_stretch_append
    (fun c hc rest => (misses_literal_of_isTabOrSpace hkeyword (List.mem_takeWhile_imp hc)
      rest).seq _)
    (misses_stretch_of_misses (head?_dropWhile_append hclass) hword)

/-- A name in other letters than those of a class begins with a run of the class. -/
theorem exists_stop_of_not_all {p q : Char → Bool} {name : List Char} (h : IsRun p name)
    (hq : name.all q = false) :
    ∃ s c more, name = s ++ c :: more ∧ s.all q = true ∧ q c = false ∧ p c = true := by
  obtain ⟨s, more, rfl, hs, hmore⟩ := @exists_eq_run_append _ q [] name nofun
  cases more with
  | nil =>
    rw [List.append_nil, hs] at hq
    cases hq
  | cons c more =>
    exact ⟨s, c, more, rfl, hs, hmore c (by simp), h.forall_char c (by simp)⟩

/-! ### The package -/

/-- The pattern of a package directive behind its word. -/
def packageContent : Pattern Part :=
  part .package (stretch1 Shape.isPathPart) ++ Shape.directiveEnd

theorem startsLine_package : StartsLine Shape.package (directive "package" packageContent) :=
  fun _ _ => rfl

theorem reads_packageContent {path : List Char} (h : IsRun Shape.isPathPart path) {ending : Ending}
    (hending : ending.IsWellFormed) (rest : List Char) :
    Reads packageContent (path ++ ending.text) ('\n' :: rest) [(.package, path)] := by
  have hpath : Reads (part Part.package (stretch1 Shape.isPathPart)) path
      (ending.text ++ '\n' :: rest) [(.package, path)] :=
    (reads_stretch1 h fun c hc =>
      isPathPart_eq_false_of_isEndChar (hending.head? rest c hc)).part _
  exact hpath.seq (hending.reads rest)

theorem misses_packageContent {path : List Char} (h : IsDottedName path)
    (hascii : path.all Shape.isPathPart = false) (rest : List Char) :
    Misses packageContent (path ++ rest) := by
  obtain ⟨s, c, more, rfl, hs, hc, hword⟩ := exists_stop_of_not_all h hascii
  have hend : ∀ d ∈ s, ∀ text, Misses Shape.directiveEnd (d :: text) := fun d hd text =>
    misses_directiveEnd_cons (isEndChar_eq_false_of_isDottedWord
      (h.forall_char d (List.mem_append_left _ hd))) text
  have hlast : Misses Shape.directiveEnd (c :: (more ++ rest)) :=
    misses_directiveEnd_cons (isEndChar_eq_false_of_isDottedWord hword) _
  rw [List.append_assoc, List.cons_append]
  refine misses_part _ ?_
  -- a front of the path may be given back, but the line does not end within it
  cases s with
  | nil =>
    exact (misses_stretch1_cons hc _).seq _
  | cons d s =>
    exact misses_stretch1_append hend (List.cons_ne_nil d s)
      (misses_stretch_of_misses (by simpa using hc) hlast)

/-! ### Imports -/

/-- The pattern of another name. -/
def aliasing : Pattern Part :=
  Shape.tabs1 ++ Shape.word "as" ++ Shape.tabs1 ++ part .alias Shape.identifier

/-- The pattern of an import behind its word. -/
def importContent : Pattern Part :=
  part .path (stretch1 Shape.isPathPart ++ maybe (Shape.word ".*")) ++
    (maybe aliasing ++ Shape.directiveEnd)

theorem startsLine_importing : StartsLine Shape.importing (directive "import" importContent) :=
  fun _ _ => rfl

/-- An import as it is written, with the spaces and tabs around the word in front of another
name. -/
def importText (target : ImportTarget) (beforeAs behindAs : List Char) : List Char :=
  target.written ++
    target.name?.elim [] fun name => beforeAs ++ ("as".toList ++ (behindAs ++ name))

/-- The parts of an import. -/
def importParts (target : ImportTarget) : List (Part × List Char) :=
  (.path, target.written) :: target.name?.elim [] fun name => [(.alias, name)]

/-- The pattern can read the import: the path and the other name are ASCII. -/
def IsReadable (target : ImportTarget) : Prop :=
  target.path.all Shape.isPathPart = true ∧ ∀ name ∈ target.name?, IsAsciiName name

instance : DecidablePred IsReadable := fun target =>
  inferInstanceAs (Decidable (target.path.all Shape.isPathPart = true ∧
    ∀ name ∈ target.name?, IsAsciiName name))

variable {target : ImportTarget} {beforeAs behindAs : List Char} {ending : Ending}

theorem misses_aliasing_of_ending (hending : ending.IsWellFormed) (rest : List Char) :
    Misses aliasing (ending.text ++ '\n' :: rest) := by
  obtain ⟨blank, stop, more, heq, hblank, hstop⟩ := hending.exists_stop rest
  have hclass : Shape.isTabOrSpace stop = false := by rcases hstop with rfl | rfl | rfl <;> decide
  have hne : stop ≠ 'a' := by rcases hstop with rfl | rfl | rfl <;> decide
  have hletter : Misses (Shape.word "as" : Pattern Part) (stop :: more) :=
    misses_literal_cons hne _ more
  have hfront : Misses (Shape.tabs1 ++ Shape.word "as" : Pattern Part) (blank ++ stop :: more) := by
    cases blank with
    | nil => exact (misses_stretch1_cons hclass more).seq _
    | cons c blank =>
      exact misses_stretch1_append
        (fun d hd => misses_literal_of_isTabOrSpace ⟨'a', rfl, by decide⟩
          (List.all_eq_true.1 hblank d hd))
        (List.cons_ne_nil c blank) (misses_stretch_of_misses (by simpa using hclass) hletter)
  rw [heq]
  exact (hfront.seq _).seq _

theorem reads_end (hending : ending.IsWellFormed) (rest : List Char) :
    Reads (maybe aliasing ++ Shape.directiveEnd) ending.text ('\n' :: rest) [] := by
  have hnone := reads_maybe_of_misses (misses_aliasing_of_ending hending rest)
  exact hnone.seq (hending.reads rest)

theorem misses_end {c : Char} (h : isEndChar c = false) (rest : List Char) :
    Misses (maybe aliasing ++ Shape.directiveEnd) (c :: rest) := by
  have hgap : Misses (Shape.tabs1 : Pattern Part) (c :: rest) :=
    misses_stretch1_cons (isTabOrSpace_eq_false_of_isEndChar_eq_false h) rest
  exact misses_maybe ((((hgap.seq _).seq _).seq _).seq _) (misses_directiveEnd_cons h rest)

theorem isNamePart_eq_false_of_isEndChar {c : Char} (h : isEndChar c = true) :
    isNamePart c = false := by
  have hpath := isPathPart_eq_false_of_isEndChar h
  rw [Shape.isPathPart, Bool.or_eq_false_iff] at hpath
  exact hpath.1

/-- A path is read up to what may stand behind it. -/
theorem reads_path {path tail : List Char} (h : IsRun Shape.isPathPart path)
    (htail : ∀ c ∈ tail.head?, isEndChar c = true) :
    Reads (part Part.path (stretch1 Shape.isPathPart ++ maybe (Shape.word ".*"))) path tail
      [(.path, path)] := by
  have hmiss : Misses (Shape.word ".*" : Pattern Part) tail := by
    refine misses_literal fun ⟨more, hmore⟩ => ?_
    have hdot := isPathPart_eq_false_of_isEndChar (htail '.' (hmore ▸ rfl))
    exact absurd hdot (by decide)
  have hstretch : Reads (stretch1 Shape.isPathPart : Pattern Part) path tail [] :=
    reads_stretch1 h fun c hc => isPathPart_eq_false_of_isEndChar (htail c hc)
  exact (hstretch.seq_nil (reads_maybe_of_misses hmiss)).part _

theorem reads_importContent (h : target.IsWellFormed) (hreadable : IsReadable target)
    (hbefore : IsRun Shape.isTabOrSpace beforeAs) (hbehind : IsRun Shape.isTabOrSpace behindAs)
    (hending : ending.IsWellFormed) (rest : List Char) :
    Reads importContent (importText target beforeAs behindAs ++ ending.text) ('\n' :: rest)
      (importParts target) := by
  have hpath : IsRun Shape.isPathPart target.path :=
    ⟨h.path.ne_nil, List.all_eq_true.1 hreadable.1⟩
  cases target with
  | single path =>
    have hread := (reads_path hpath (hending.head? rest)).seq (reads_end hending rest)
    have htext : importText (.single path) beforeAs behindAs = path := List.append_nil path
    rw [htext]
    exact hread
  | whole path =>
    -- the stretch takes the last dot as well and gives it back
    have hmark : Misses (Shape.word ".*" : Pattern Part) ('*' :: (ending.text ++ '\n' :: rest)) :=
      misses_literal_cons (by decide) _ _
    have hstar : Misses (maybe aliasing ++ Shape.directiveEnd)
        ('*' :: (ending.text ++ '\n' :: rest)) := misses_end (by decide) _
    have hunless := (readsUnless_stretch1 (c := '.') (t := ['*']) hpath (by decide)
      (by simp; decide) hmark (reads_literal ".*".toList _)).part Part.path
    have hread := hunless.seq hstar (reads_end hending rest)
    have htext : importText (.whole path) beforeAs behindAs = path ++ ['.'] ++ ['*'] := by
      simp [importText, ImportTarget.written, ImportTarget.name?]
    have hparts : importParts (.whole path) = [(.path, path ++ ['.'] ++ ['*'])] ++ [] := by
      simp [importParts, ImportTarget.written, ImportTarget.name?]
    rw [htext, hparts]
    exact hread
  | renamed path name =>
    have hname : IsAsciiName name := hreadable.2 name rfl
    have hgap : Reads Shape.tabs1 beforeAs ("as".toList ++ (behindAs ++ (name ++
        (ending.text ++ '\n' :: rest)))) [] := reads_stretch1 hbefore (by simp; decide)
    have hgap' : Reads Shape.tabs1 behindAs (name ++ (ending.text ++ '\n' :: rest)) [] :=
      reads_stretch1 hbehind (hname.startsName.append _).forall_head?
    have hpart : Reads (part Part.alias Shape.identifier) name (ending.text ++ '\n' :: rest)
        [(.alias, name)] :=
      (reads_identifier hname fun c hc =>
        isNamePart_eq_false_of_isEndChar (hending.head? rest c hc)).part _
    have halias : Reads (maybe aliasing) (beforeAs ++ "as".toList ++ behindAs ++ name)
        (ending.text ++ '\n' :: rest) [(.alias, name)] :=
      (((hgap.seq (reads_literal _ _)).seq hgap').seq hpart).maybe
    have hspace : ∀ c ∈ (beforeAs ++ "as".toList ++ behindAs ++ name ++ ending.text ++
        '\n' :: rest).head?, isEndChar c = true := by
      intro c hc
      simp only [List.append_assoc] at hc
      have htab := Shape.head?_append_of_isRun hbefore hc
      simp [isEndChar, htab]
    have hread := (reads_path hpath (by simpa using hspace)).seq (halias.seq (hending.reads rest))
    have htext : importText (.renamed path name) beforeAs behindAs ++ ending.text =
        path ++ (beforeAs ++ "as".toList ++ behindAs ++ name ++ ending.text) := by
      simp [importText, ImportTarget.written, ImportTarget.name?]
    rw [htext]
    exact hread

/-- What has to follow a path misses within it and behind it. -/
theorem misses_path {second : Pattern Part} {path tail : List Char}
    (h : IsRun Shape.isPathPart path)
    (htail : ∀ c ∈ tail.head?, Shape.isPathPart c = false ∧ c ≠ '*')
    (hsecond : ∀ c, Shape.isPathPart c = true → ∀ text, Misses second (c :: text))
    (hrest : Misses second tail) :
    Misses (part Part.path (stretch1 Shape.isPathPart ++ maybe (Shape.word ".*")) ++ second)
      (path ++ tail) := by
  -- the mark of a whole package begins neither within the path nor behind it
  have hstar : ∀ t, t <:+ path → '*' ∉ (t ++ tail).head? := by
    intro t ht hhead
    cases t with
    | nil => exact (htail '*' hhead).2 rfl
    | cons c t =>
      obtain rfl : c = '*' := Option.some.inj hhead
      exact absurd (h.forall_char '*' (ht.subset List.mem_cons_self)) (by decide)
  have hmark : ∀ t, t <:+ path → ¬ ".*".toList <+: t ++ tail := by
    rintro t ht ⟨more, hmore⟩
    cases t with
    | nil => exact absurd (htail '.' (congrArg List.head? hmore.symm)).1 (by decide)
    | cons c t =>
      have hbehind : '*' :: more = t ++ tail := (List.cons.inj hmore).2
      exact hstar t ((List.suffix_cons c t).trans ht) (hbehind ▸ rfl)
  have hsuffix : ∀ t, t <:+ path → Misses (maybe (Shape.word ".*") ++ second) (t ++ tail) := by
    intro t ht
    refine misses_maybe ((misses_literal (hmark t ht)).seq _) ?_
    cases t with
    | nil => exact hrest
    | cons c t => exact hsecond c (h.forall_char c (ht.subset List.mem_cons_self)) _
  obtain ⟨c, path, rfl⟩ := List.exists_cons_of_ne_nil h.ne_nil
  have hstretch : Misses (stretch Shape.isPathPart ++ (maybe (Shape.word ".*") ++ second))
      (path ++ tail) :=
    misses_stretch_of_suffixes (fun t ht => hsuffix t (ht.trans (List.suffix_cons c path)))
      (misses_stretch_of_misses (fun d hd => (htail d hd).1) (hsuffix [] List.nil_suffix))
  have hright := misses_one_append (p := Shape.isPathPart) hstretch c
  exact misses_part _ fun place hplace k => hright place hplace k

/-- A path in other letters is missed, whatever follows it. -/
theorem misses_importContent_path {path : List Char} (h : IsDottedName path)
    (hascii : path.all Shape.isPathPart = false) (rest : List Char) :
    Misses importContent (path ++ rest) := by
  obtain ⟨s, c, more, rfl, hs, hc, hword⟩ := exists_stop_of_not_all h hascii
  rw [List.append_assoc, List.cons_append]
  cases s with
  | nil =>
    exact (((misses_stretch1_cons hc _).seq _).part _).seq _
  | cons d s =>
    have hstar : c ≠ '*' := ne_of_class hword (by decide +kernel)
    exact misses_path ⟨List.cons_ne_nil d s, List.all_eq_true.1 hs⟩
      (by simpa using ⟨hc, hstar⟩)
      (fun e he => misses_end (isEndChar_eq_false_of_isPathPart he))
      (misses_end (isEndChar_eq_false_of_isDottedWord hword) _)

/-- Another name in other letters is missed, whatever follows it. -/
theorem misses_alias {name : List Char} (h : IsIdentifier name) (hascii : ¬ IsAsciiName name)
    (rest : List Char) :
    Misses (part Part.alias Shape.identifier ++ Shape.directiveEnd) (name ++ rest) := by
  have hend : ∀ {c : Char}, isWord c = true → ∀ text, Misses Shape.directiveEnd (c :: text) :=
    fun hc => misses_directiveEnd_cons
      (isEndChar_eq_false_of_isDottedWord (isDottedWord_of_isWord hc))
  obtain ⟨c, name, rfl⟩ := List.exists_cons_of_ne_nil h.ne_nil
  refine misses_part _ ?_
  -- either the first character starts no name, or the name stops short of its end
  by_cases hstart : isNameStart c = true
  · have hall : name.all isNamePart = false := by
      rw [Bool.eq_false_iff]
      exact fun hall => hascii ⟨hstart, List.all_eq_true.1 hall⟩
    have hne : name ≠ [] := by
      rintro rfl
      cases hall
    obtain ⟨s, d, more, rfl, hs, hd, hword⟩ := exists_stop_of_not_all
      ⟨hne, fun e he => h.forall_char e (List.mem_cons_of_mem _ he)⟩ hall
    have hstretch : Misses (stretch isNamePart ++ Shape.directiveEnd) (s ++ d :: more ++ rest) := by
      rw [List.append_assoc]
      exact misses_stretch_append (fun e he => hend (h.forall_char e (by simp [he])))
        (misses_stretch_of_misses (by simpa using hd) (hend hword _))
    exact (misses_one_append hstretch c).assoc
  · have hone : Misses (one isNameStart : Pattern Part) (c :: (name ++ rest)) :=
      misses_one (by simpa using hstart)
    exact (hone.seq _).seq _

theorem misses_importContent (h : target.IsWellFormed) (hunreadable : ¬ IsReadable target)
    (hbefore : IsRun Shape.isTabOrSpace beforeAs) (hbehind : IsRun Shape.isTabOrSpace behindAs)
    (rest : List Char) : Misses importContent (importText target beforeAs behindAs ++ rest) := by
  by_cases hpath : target.path.all Shape.isPathPart = true
  · -- the path is readable, so it is the other name that is not
    obtain ⟨name, hname, hascii⟩ : ∃ name ∈ target.name?, ¬ IsAsciiName name := by
      by_contra hall
      push Not at hall
      exact hunreadable ⟨hpath, hall⟩
    have hidentifier := h.name name hname
    cases target with
    | single path => cases hname
    | whole path => cases hname
    | renamed path other =>
      obtain rfl : other = name := Option.some.inj hname
      have hsecond : Misses (maybe aliasing ++ Shape.directiveEnd)
          (beforeAs ++ ("as".toList ++ (behindAs ++ (other ++ rest)))) := by
        have hletter : ∀ c ∈ (other ++ rest).head?, Shape.isTabOrSpace c = false := by
          intro c hc
          have hword : isWord c = true := Shape.head?_append_of_isRun hidentifier hc
          exact isTabOrSpace_eq_false_of_isEndChar_eq_false
            (isEndChar_eq_false_of_isDottedWord (isDottedWord_of_isWord hword))
        have hgap : Misses (Shape.tabs1 ++ (part Part.alias Shape.identifier ++ Shape.directiveEnd))
            (behindAs ++ (other ++ rest)) := by
          refine misses_stretch1_append (fun c hc text => ?_) hbehind.ne_nil
            (misses_stretch_of_misses hletter (misses_alias hidentifier hascii rest))
          have hstart : isNameStart c = false := by
            rcases isTabOrSpace_iff.1 (hbehind.forall_char c hc) with rfl | rfl <;> decide
          have hone : Misses (one isNameStart : Pattern Part) (c :: text) :=
            misses_one (by simpa using hstart)
          exact ((hone.seq _).part _).seq _
        have hall := misses_stretch1_append (p := Shape.isTabOrSpace)
          (fun c hc text => (misses_literal_of_isTabOrSpace (s := "as".toList)
            ⟨'a', rfl, by decide⟩ (hbefore.forall_char c hc) text).seq _)
          hbefore.ne_nil
          (misses_stretch_of_misses (by simp; decide) (misses_literal_append hgap "as".toList))
        have hword : Misses Shape.directiveEnd (beforeAs ++ 'a' ::
            ('s' :: (behindAs ++ (other ++ rest)))) :=
          misses_directiveEnd (List.all_eq_true.2 hbefore.forall_char) (by decide) _
        exact misses_maybe (fun place hplace k => hall place hplace k) hword
      have htail : ∀ c ∈ (beforeAs ++ ("as".toList ++ (behindAs ++ (other ++ rest)))).head?,
          Shape.isPathPart c = false ∧ c ≠ '*' := by
        intro c hc
        rcases isTabOrSpace_iff.1 (Shape.head?_append_of_isRun hbefore hc) with rfl | rfl <;> decide
      have htext : importText (.renamed path other) beforeAs behindAs ++ rest =
          path ++ (beforeAs ++ ("as".toList ++ (behindAs ++ (other ++ rest)))) := by
        simp [importText, ImportTarget.written, ImportTarget.name?]
      rw [htext]
      exact misses_path ⟨h.path.ne_nil, List.all_eq_true.1 hpath⟩ htail
        (fun c hc => misses_end (isEndChar_eq_false_of_isPathPart hc)) hsecond
  · have hascii : target.path.all Shape.isPathPart = false := by simpa using hpath
    have htext : ∃ more, importText target beforeAs behindAs ++ rest = target.path ++ more := by
      cases target with
      | single path => exact ⟨_, List.append_assoc _ _ _⟩
      | whole path => exact ⟨_, by simp [importText, ImportTarget.written, ImportTarget.path]; rfl⟩
      | renamed path name => exact ⟨_, List.append_assoc _ _ _⟩
    obtain ⟨more, hmore⟩ := htext
    rw [hmore]
    exact misses_importContent_path h.path hascii more

end RpcBinder.Declaration
