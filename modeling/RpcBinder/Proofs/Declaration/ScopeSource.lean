import RpcBinder.Declaration.Scope
import RpcBinder.Proofs.Declaration.Directives
import RpcBinder.Proofs.Lexis.Segments

/-!
# Reading the head of a file back

A file begins with its package and its imports, one on a line, perhaps with a comment behind it.
Its scope is made of those that are written in ASCII, whatever follows them, as long as no other
line begins with the word of a directive.

## Main definitions

* `Remark`, `SourceLine` — the comment behind a directive, and what stands around its content.
* `ImportDecl`, `FileHead` — an import with its line, and the package and the imports of a file.

## Main results

* `SourceLine.strip_append` — a comment behind a directive becomes spaces.
* `scopeOf_stripComments` — **the scope of a file is that of its readable directives.**
* `scopeOf_misses_letters` — those in other letters are lost.
-/

namespace RpcBinder.Declaration

open Lexis Pattern

/-! ### Comments behind a directive -/

/-- The comment behind a directive. -/
inductive Remark
  /-- There is none. -/
  | none
  /-- A comment that ends with its line. -/
  | line (content : List Char)
  /-- A block comment. -/
  | block (parts : List CommentPart)

namespace Remark

/-- The text of a comment. -/
def text : Remark → List Char
  | .none => []
  | .line content => '/' :: '/' :: content
  | .block parts => (CommentPart.nested parts).source

/-- A complete comment without line breaks. -/
structure IsWellFormed (remark : Remark) : Prop where
  line : ∀ c ∈ remark.text, c ≠ '\n' ∧ c ≠ '\r'
  complete : ∀ parts, remark = .block parts → CommentPart.FitAll parts

variable {remark : Remark}

/-- Without line breaks it becomes spaces. -/
theorem IsWellFormed.all_blanked (h : remark.IsWellFormed) :
    (blanked remark.text).all Shape.isTabOrSpace = true := by
  refine List.all_eq_true.2 fun c hc => ?_
  obtain ⟨d, hd, hc⟩ := List.mem_flatMap.1 hc
  have hbreak : ¬ (d = '\n' ∨ d = '\r') := not_or.2 (h.line d hd)
  rw [if_neg hbreak] at hc
  rw [List.eq_of_mem_replicate hc]
  rfl

end Remark

/-- A character that begins neither a comment nor a literal. -/
def isPlainChar (c : Char) : Bool :=
  c != '"' && c != '\'' && c != '/'

theorem strip_plain {text : List Char} (h : text.all isPlainChar = true) (rest : List Char) :
    strip .code (text ++ rest) = text ++ strip .code rest := by
  have hnot : ∀ {c : Char}, isPlainChar c = false → c ∉ text := fun hc hmem => by
    rw [List.all_eq_true.1 h _ hmem] at hc
    cases hc
  have hclear : ∀ d, Clear ['/', d] text rest := fun d =>
    ⟨fun hin => hnot (by decide) (hin.subset List.mem_cons_self), fun hstraddle =>
      hnot (by decide) (List.mem_of_getLast? ((straddles_pair '/' d text rest).1 hstraddle).1)⟩
  exact strip_code_append (hnot (by decide)) (hnot (by decide)) (hclear '/') (hclear '*')

/-- The end of a line behind a comment. -/
def lineBreak (carriage : Bool) : List Char :=
  (if carriage then ['\r'] else []) ++ ['\n']

/-- A comment up to the end of its line becomes spaces, and the line break stays. -/
theorem Remark.IsWellFormed.strip_append {remark : Remark} (h : remark.IsWellFormed)
    (carriage : Bool) (rest : List Char) :
    strip .code (remark.text ++ (lineBreak carriage ++ rest)) =
      blanked remark.text ++ (lineBreak carriage ++ strip .code rest) := by
  have hbreak : (lineBreak carriage).all isPlainChar = true := by cases carriage <;> decide
  cases remark with
  | none => exact strip_plain hbreak rest
  | line content =>
    -- the comment takes the carriage return along, which stays where it is
    let ending : List Char := if carriage then ['\r'] else []
    have hcontent : '\n' ∉ content ++ ending := by
      have hending : '\n' ∉ ending := by cases carriage <;> decide
      intro hmem
      rcases List.mem_append.1 hmem with hmem | hmem
      · exact (h.line '\n' (by simp [text, hmem])).1 rfl
      · exact hending hmem
    have hkept : blanked (lineBreak carriage) = lineBreak carriage := by cases carriage <;> decide
    have hsource : (Segment.lineComment (content ++ ending)).source =
        (Remark.line content).text ++ lineBreak carriage := by
      simp [Segment.source, text, lineBreak, ending]
    have hstripped : (Segment.lineComment (content ++ ending)).stripped =
        blanked (Remark.line content).text ++ lineBreak carriage := by
      have hcomment : (Segment.lineComment (content ++ ending)).isComment = true := rfl
      rw [Segment.stripped, if_pos hcomment, hsource, blanked_append, hkept]
    have hstrip := @strip_source (.lineComment (content ++ ending)) rest hcontent trivial
    rw [← List.append_assoc, ← hsource, hstrip, hstripped, List.append_assoc]
  | block parts =>
    exact (strip_blockComment_append (h.complete parts rfl) _).trans
      (congrArg _ (strip_plain hbreak rest))

/-! ### Lines -/

/-- What stands around the content of a directive, with the comment behind it. -/
structure SourceLine where
  /-- The spaces and tabs, the semicolon and the carriage return. -/
  frame : Frame
  /-- The comment. -/
  remark : Remark

namespace SourceLine

/-- The text of a line. -/
def text (line : SourceLine) (keyword : String) (content : List Char) : List Char :=
  line.frame.indent ++ (keyword.toList ++ (line.frame.gap ++ (content ++
    (line.frame.ending.before ++ ((if line.frame.ending.mark then [';'] else []) ++
      (line.frame.ending.behind ++ (line.remark.text ++
        lineBreak line.frame.ending.carriage)))))))

/-- The line with spaces for its comment. -/
def stripped (line : SourceLine) : Frame :=
  { line.frame with
    ending := { line.frame.ending with
      behind := line.frame.ending.behind ++ blanked line.remark.text } }

/-- Spaces and tabs, and a complete comment without line breaks. -/
structure IsWellFormed (line : SourceLine) : Prop where
  frame : line.frame.IsWellFormed
  remark : line.remark.IsWellFormed

variable {line : SourceLine}

theorem IsWellFormed.stripped (h : line.IsWellFormed) : line.stripped.IsWellFormed where
  indent := h.frame.indent
  gap := h.frame.gap
  ending :=
    { before := h.frame.ending.before
      behind := by
        rw [SourceLine.stripped, List.all_append, h.frame.ending.behind, h.remark.all_blanked]
        rfl }

theorem all_isPlainChar_of_isTabOrSpace {text : List Char}
    (h : text.all Shape.isTabOrSpace = true) : text.all isPlainChar = true := by
  refine List.all_eq_true.2 fun c hc => ?_
  rcases isTabOrSpace_iff.1 (List.all_eq_true.1 h c hc) with rfl | rfl <;> decide

/-- **A comment behind a directive becomes spaces**, and what follows the line is read as code. -/
theorem IsWellFormed.strip_append (h : line.IsWellFormed) {keyword : String} {content : List Char}
    (hkeyword : keyword.toList.all isPlainChar = true) (hcontent : content.all isPlainChar = true)
    (rest : List Char) :
    strip .code (line.text keyword content ++ rest) =
      line.stripped.line keyword content ++ '\n' :: strip .code rest := by
  -- the line without its remark and without its end
  let plain : List Char := line.frame.indent ++ (keyword.toList ++ (line.frame.gap ++ (content ++
    (line.frame.ending.before ++ ((if line.frame.ending.mark then [';'] else []) ++
      line.frame.ending.behind)))))
  have hgap : line.frame.gap.all Shape.isTabOrSpace = true :=
    List.all_eq_true.2 h.frame.gap.forall_char
  have hmark : (if line.frame.ending.mark then [';'] else []).all isPlainChar = true := by
    cases line.frame.ending.mark <;> decide
  have hplain : plain.all isPlainChar = true := by
    simp only [plain, List.all_append, Bool.and_eq_true]
    exact ⟨all_isPlainChar_of_isTabOrSpace h.frame.indent, hkeyword,
      all_isPlainChar_of_isTabOrSpace hgap, hcontent,
      all_isPlainChar_of_isTabOrSpace h.frame.ending.before, hmark,
      all_isPlainChar_of_isTabOrSpace h.frame.ending.behind⟩
  have htext : line.text keyword content ++ rest =
      plain ++ (line.remark.text ++ (lineBreak line.frame.ending.carriage ++ rest)) := by
    simp [text, plain]
  have hline : line.stripped.line keyword content = plain ++ (blanked line.remark.text ++
      (if line.frame.ending.carriage then ['\r'] else [])) := by
    simp only [plain, Frame.line, Ending.text, List.append_assoc]
    simp only [SourceLine.stripped, List.append_assoc]
    rfl
  rw [htext, strip_plain hplain, h.remark.strip_append, hline]
  simp [lineBreak]

end SourceLine

/-! ### The head of a file -/

/-- An import with its line. -/
structure ImportDecl where
  /-- What stands around it. -/
  line : SourceLine
  /-- What it names. -/
  target : ImportTarget
  /-- The spaces and tabs in front of the word that introduces another name. -/
  beforeAs : List Char
  /-- The spaces and tabs behind it. -/
  behindAs : List Char

namespace ImportDecl

/-- The import without its line. -/
def content (decl : ImportDecl) : List Char :=
  importText decl.target decl.beforeAs decl.behindAs

/-- The text of an import. -/
def text (decl : ImportDecl) : List Char :=
  decl.line.text "import" decl.content

/-- The text with spaces for the comment. -/
def stripped (decl : ImportDecl) : List Char :=
  decl.line.stripped.line "import" decl.content ++ ['\n']

/-- Dotted names, and spaces and tabs between them. -/
structure IsWellFormed (decl : ImportDecl) : Prop where
  line : decl.line.IsWellFormed
  target : decl.target.IsWellFormed
  beforeAs : IsRun Shape.isTabOrSpace decl.beforeAs
  behindAs : IsRun Shape.isTabOrSpace decl.behindAs

end ImportDecl

/-- The package and the imports of a file. -/
structure FileHead where
  /-- The package with its line, if the file has one. -/
  package? : Option (SourceLine × List Char)
  /-- The imports. -/
  imports : List ImportDecl

namespace FileHead

/-- The text of a head. -/
def text (head : FileHead) : List Char :=
  head.package?.toList.flatMap (fun decl => decl.1.text "package" decl.2) ++
    head.imports.flatMap ImportDecl.text

/-- The text with spaces for the comments. -/
def stripped (head : FileHead) : List Char :=
  head.package?.toList.flatMap (fun decl => decl.1.stripped.line "package" decl.2 ++ ['\n']) ++
    head.imports.flatMap ImportDecl.stripped

/-- Dotted names on lines of their own. -/
structure IsWellFormed (head : FileHead) : Prop where
  package : ∀ decl ∈ head.package?, decl.1.IsWellFormed ∧ IsDottedName decl.2
  imports : ∀ decl ∈ head.imports, decl.IsWellFormed

/-- The package, if the pattern can read it. -/
def package (head : FileHead) : String :=
  match head.package? with
  | some (_, path) => if path.all Shape.isPathPart then String.ofList path else ""
  | none => ""

/-- The imports that the pattern can read. -/
def readable (head : FileHead) : List ImportTarget :=
  (head.imports.map ImportDecl.target).filter fun target => decide (IsReadable target)

end FileHead

/-! ### Stripping a head -/

/-- A character of a line in which neither a comment nor a literal begins. -/
def isInlineChar (c : Char) : Bool :=
  isPlainChar c && c != '\n'

theorem isInlineChar_of_isTabOrSpace {c : Char} (h : Shape.isTabOrSpace c = true) :
    isInlineChar c = true := by
  rcases isTabOrSpace_iff.1 h with rfl | rfl <;> decide

theorem isInlineChar_of_isDottedWord {c : Char} (h : Shape.isDottedWord c = true) :
    isInlineChar c = true := by
  have hdouble : c ≠ '"' := ne_of_class h (by decide +kernel)
  have hsingle : c ≠ '\'' := ne_of_class h (by decide +kernel)
  have hslash : c ≠ '/' := ne_of_class h (by decide +kernel)
  have hfeed : c ≠ '\n' := ne_of_class h (by decide +kernel)
  simp [isInlineChar, isPlainChar, hdouble, hsingle, hslash, hfeed]

/-- What a directive holds: inline characters, and no space or tab in front of them. -/
structure IsContent (content : List Char) : Prop where
  inline : ∀ c ∈ content, isInlineChar c = true
  head? : ∀ c ∈ content.head?, Shape.isTabOrSpace c = false
  ne_nil : content ≠ []

theorem IsContent.all_isPlainChar {content : List Char} (h : IsContent content) :
    content.all isPlainChar = true := by
  refine List.all_eq_true.2 fun c hc => ?_
  have hinline := h.inline c hc
  rw [isInlineChar, Bool.and_eq_true] at hinline
  exact hinline.1

theorem isContent_of_isDottedName {path : List Char} (h : IsDottedName path) : IsContent path where
  inline c hc := isInlineChar_of_isDottedWord (h.forall_char c hc)
  head? c hc := by
    have hend := isEndChar_eq_false_of_isDottedWord (h.forall_char c (List.mem_of_mem_head? hc))
    exact isTabOrSpace_eq_false_of_isEndChar_eq_false hend
  ne_nil := h.ne_nil

theorem ImportDecl.IsWellFormed.isContent {decl : ImportDecl} (h : decl.IsWellFormed) :
    IsContent decl.content := by
  -- behind the path stands a mark, an alias or nothing
  obtain ⟨more, heq, hmore⟩ : ∃ more, decl.content = decl.target.path ++ more ∧
      ∀ c ∈ more, isInlineChar c = true := by
    rw [ImportDecl.content]
    obtain ⟨line, target, beforeAs, behindAs⟩ := decl
    cases target with
    | single path => exact ⟨[], rfl, List.forall_mem_nil _⟩
    | whole path =>
      have hmark : ∀ c ∈ ".*".toList, isInlineChar c = true := by simp; decide
      exact ⟨".*".toList, List.append_nil _, hmark⟩
    | renamed path name =>
      have hword : ∀ c ∈ "as".toList, isInlineChar c = true := by simp; decide
      refine ⟨_, rfl, fun c hc => ?_⟩
      simp only [ImportTarget.name?, Option.elim_some, List.mem_append] at hc
      rcases hc with hc | hc | hc | hc
      · exact isInlineChar_of_isTabOrSpace (h.beforeAs.forall_char c hc)
      · exact hword c hc
      · exact isInlineChar_of_isTabOrSpace (h.behindAs.forall_char c hc)
      · exact isInlineChar_of_isDottedWord
          (isDottedWord_of_isWord ((h.target.name name rfl).forall_char c hc))
  have hpath := isContent_of_isDottedName h.target.path
  rw [heq]
  refine ⟨fun c hc => (List.mem_append.1 hc).elim (hpath.inline c) (hmore c), fun c hc => ?_, ?_⟩
  · rw [List.head?_append_of_ne_nil _ hpath.ne_nil] at hc
    exact hpath.head? c hc
  · simp [hpath.ne_nil]

/-- A line with its content is stripped by itself. -/
theorem strip_flatMap {α : Type} {f g : α → List Char} {as : List α}
    (h : ∀ a ∈ as, ∀ rest, strip .code (f a ++ rest) = g a ++ strip .code rest)
    (rest : List Char) :
    strip .code (as.flatMap f ++ rest) = as.flatMap g ++ strip .code rest := by
  induction as with
  | nil => rfl
  | cons a as ih =>
    obtain ⟨ha, has⟩ := List.forall_mem_cons.1 h
    rw [List.flatMap_cons, List.flatMap_cons, List.append_assoc, ha, ih has, List.append_assoc]

/-- The comments of a head become spaces, and what follows it is read as code. -/
theorem FileHead.IsWellFormed.strip_append {head : FileHead} (h : head.IsWellFormed)
    (rest : List Char) :
    strip .code (head.text ++ rest) = head.stripped ++ strip .code rest := by
  have hwords : "package".toList.all isPlainChar = true ∧
      "import".toList.all isPlainChar = true := by decide
  have himports : strip .code (head.imports.flatMap ImportDecl.text ++ rest) =
      head.imports.flatMap ImportDecl.stripped ++ strip .code rest := by
    refine strip_flatMap (fun decl hdecl rest => ?_) rest
    have hwf := h.imports decl hdecl
    rw [ImportDecl.text, hwf.line.strip_append hwords.2 hwf.isContent.all_isPlainChar,
      ImportDecl.stripped, List.append_assoc]
    rfl
  rw [FileHead.text, List.append_assoc, strip_flatMap (g := fun decl : SourceLine × List Char =>
    decl.1.stripped.line "package" decl.2 ++ ['\n']) (fun decl hdecl rest => ?_), himports,
    FileHead.stripped, List.append_assoc]
  obtain ⟨hline, hpath⟩ := h.package decl (Option.mem_toList.1 hdecl)
  rw [hline.strip_append hwords.1 (isContent_of_isDottedName hpath).all_isPlainChar,
    List.append_assoc]
  rfl

/-! ### Searching a head -/

theorem startsName_package : StartsName "package".toList := ⟨'p', by decide, by decide⟩

theorem startsName_import : StartsName "import".toList := ⟨'i', by decide, by decide⟩

/-- There is no line break in the line of a directive. -/
theorem Frame.IsWellFormed.notMem_line {frame : Frame} (h : frame.IsWellFormed) (keyword : String)
    (hkeyword : '\n' ∉ keyword.toList) {content : List Char} (hcontent : IsContent content) :
    '\n' ∉ frame.line keyword content := by
  have hblank : ∀ {blank : List Char}, blank.all Shape.isTabOrSpace = true → '\n' ∉ blank :=
    fun hall hmem => absurd (List.all_eq_true.1 hall _ hmem) (by decide)
  have hinline : '\n' ∉ content := fun hmem => absurd (hcontent.inline _ hmem) (by decide)
  have hmark : '\n' ∉ if frame.ending.mark then [';'] else [] := by
    cases frame.ending.mark <;> decide
  have hcarriage : '\n' ∉ if frame.ending.carriage then ['\r'] else [] := by
    cases frame.ending.carriage <;> decide
  simp only [Frame.line, Ending.text, List.mem_append, not_or]
  exact ⟨hblank h.indent, hkeyword, h.gap.notMem (by decide), hinline, hblank h.ending.before,
    hmark, hblank h.ending.behind, hcarriage⟩

/-- A directive is missed on the line of another one. -/
theorem misses_directive_of_clashes {keyword other : String} {shape : Pattern Part}
    {frame : Frame} (h : frame.IsWellFormed) (hkeyword : StartsName keyword.toList)
    (hother : StartsName other.toList)
    (hclash : clashes keyword.toList other.toList = true) (content rest : List Char) :
    Misses (directive keyword shape) (frame.line other content ++ rest) := by
  rw [Frame.line, List.append_assoc, List.append_assoc]
  exact misses_stretch_append
    (fun c hc rest => (misses_literal_of_isTabOrSpace hkeyword
      (List.all_eq_true.1 h.indent c hc) rest).seq _)
    (misses_stretch_of_misses (hother.append _).forall_head?
      ((misses_literal_of_clashes hclash _).seq _))

theorem line_append (frame : Frame) (keyword : String) (content rest : List Char) :
    frame.line keyword content ++ rest = frame.indent ++ (keyword.toList ++ (frame.gap ++
      (content ++ (frame.ending.text ++ rest)))) := by
  simp [Frame.line]

section Lines

variable {frame : Frame} (hframe : frame.IsWellFormed) {content : List Char}
  (hcontent : IsContent content) {shape : Pattern Part} {keyword : String}
  (hkeyword : StartsName keyword.toList)

include hframe hcontent hkeyword

/-- A line is read if its content is. -/
theorem reads_line {parts : List (Part × List Char)} {rest : List Char}
    (h : Reads shape (content ++ frame.ending.text) ('\n' :: rest) parts) :
    Reads (directive keyword shape) (frame.line keyword content) ('\n' :: rest) parts := by
  refine reads_directive hframe hkeyword (fun c hc => hcontent.head? c ?_) h
  rwa [List.append_assoc, List.head?_append_of_ne_nil _ hcontent.ne_nil] at hc

/-- A line is missed if its content is. -/
theorem misses_line (rest : List Char)
    (hspace : ∀ c, Shape.isTabOrSpace c = true → ∀ text, Misses shape (c :: text))
    (h : Misses shape (content ++ (frame.ending.text ++ rest))) :
    Misses (directive keyword shape) (frame.line keyword content ++ rest) := by
  rw [line_append]
  refine misses_directive hframe hkeyword hspace (fun c hc => hcontent.head? c ?_) h
  rwa [List.head?_append_of_ne_nil _ hcontent.ne_nil] at hc

end Lines

theorem misses_pathPart_of_isTabOrSpace {c : Char} (h : Shape.isTabOrSpace c = true)
    (rest : List Char) : Misses (stretch1 Shape.isPathPart : Pattern Part) (c :: rest) := by
  have hpath : Shape.isPathPart c = false := by
    rcases isTabOrSpace_iff.1 h with rfl | rfl <;> decide
  exact misses_stretch1_cons hpath rest

section Search

variable {decls : List ImportDecl} (h : ∀ decl ∈ decls, decl.IsWellFormed) {body : List Char}

include h

/-- No import is taken for the package. -/
theorem findsLines_package_imports
    (hbody : FindsLines (directive "package" packageContent) body []) :
    FindsLines (directive "package" packageContent) (decls.flatMap ImportDecl.stripped ++ body)
      [] := by
  induction decls with
  | nil => exact hbody
  | cons decl decls ih =>
    obtain ⟨hdecl, hdecls⟩ := List.forall_mem_cons.1 h
    have hline := hdecl.line.stripped.notMem_line "import" (by decide) hdecl.isContent
    rw [List.flatMap_cons, ImportDecl.stripped, List.append_assoc, List.append_assoc]
    exact .skip hline (misses_directive_of_clashes hdecl.line.stripped startsName_package
      startsName_import (by decide) _ _) (ih hdecls)

/-- The imports that are found. -/
theorem exists_findsLines_imports
    (hbody : FindsLines (directive "import" importContent) body []) :
    ∃ founds, FindsLines (directive "import" importContent)
        (decls.flatMap ImportDecl.stripped ++ body) founds ∧
      founds.map Found.parts =
        ((decls.map ImportDecl.target).filter fun target => decide (IsReadable target)).map
          importParts := by
  induction decls with
  | nil => exact ⟨[], hbody, rfl⟩
  | cons decl decls ih =>
    obtain ⟨hdecl, hdecls⟩ := List.forall_mem_cons.1 h
    obtain ⟨founds, hfounds, hparts⟩ := ih hdecls
    have hframe := hdecl.line.stripped
    have hline := hframe.notMem_line "import" (by decide) hdecl.isContent
    rw [List.flatMap_cons, ImportDecl.stripped, List.append_assoc, List.append_assoc,
      List.map_cons]
    by_cases hreadable : IsReadable decl.target
    · -- the directive is found, with the parts of its target
      have hreads := reads_line hframe hdecl.isContent startsName_import (reads_importContent
        hdecl.target hreadable hdecl.beforeAs hdecl.behindAs hframe.ending
        (decls.flatMap ImportDecl.stripped ++ body))
      have hne : decl.line.stripped.line "import" decl.content ≠ [] := by simp [Frame.line]
      rw [List.filter_cons_of_pos (by simpa using hreadable), List.map_cons, ← hparts]
      exact ⟨_, .take (t := []) hline List.not_mem_nil hreads hne hfounds, rfl⟩
    · -- no match begins on the line, so it is passed over
      have hmiss := misses_line hframe hdecl.isContent startsName_import
        ('\n' :: (decls.flatMap ImportDecl.stripped ++ body))
        (fun c hc rest => (((misses_pathPart_of_isTabOrSpace hc rest).seq _).part _).seq _)
        (misses_importContent hdecl.target hreadable hdecl.beforeAs hdecl.behindAs _)
      rw [List.filter_cons_of_neg (by simpa using hreadable)]
      exact ⟨founds, .skip hline hmiss hfounds, hparts⟩

end Search

/-- The package that is found, if its path is readable. -/
theorem FileHead.IsWellFormed.exists_findsLines_package {head : FileHead} (h : head.IsWellFormed)
    {body : List Char} (hbody : FindsLines (directive "package" packageContent) body []) :
    ∃ founds, FindsLines (directive "package" packageContent) (head.stripped ++ body) founds ∧
      String.ofList ((founds.head?.bind fun found => found.parts.lookup .package).getD []) =
        head.package := by
  have himports := findsLines_package_imports h.imports hbody
  rw [FileHead.stripped, FileHead.package]
  cases hpackage : head.package? with
  | none => exact ⟨[], himports, rfl⟩
  | some decl =>
    obtain ⟨line, path⟩ := decl
    obtain ⟨hwf, hpath⟩ := h.package (line, path) hpackage
    have hcontent := isContent_of_isDottedName hpath
    have hline := hwf.stripped.notMem_line "package" (by decide) hcontent
    have hsplit : (some (line, path)).toList.flatMap (fun decl : SourceLine × List Char =>
          decl.1.stripped.line "package" decl.2 ++ ['\n']) ++
        head.imports.flatMap ImportDecl.stripped ++ body = line.stripped.line "package" path ++
          '\n' :: (head.imports.flatMap ImportDecl.stripped ++ body) := by simp
    rw [hsplit]
    -- only a path that the pattern reads to its end is found
    cases hascii : path.all Shape.isPathPart with
    | true =>
      have hreads := reads_line hwf.stripped hcontent startsName_package (reads_packageContent
        ⟨hpath.ne_nil, List.all_eq_true.1 hascii⟩ hwf.stripped.ending
        (head.imports.flatMap ImportDecl.stripped ++ body))
      have hne : line.stripped.line "package" path ≠ [] := by simp [Frame.line]
      exact ⟨_, .take (t := []) hline List.not_mem_nil hreads hne himports, (if_pos hascii).symm⟩
    | false =>
      have hmiss := misses_line hwf.stripped hcontent startsName_package
        ('\n' :: (head.imports.flatMap ImportDecl.stripped ++ body))
        (fun c hc rest => ((misses_pathPart_of_isTabOrSpace hc rest).part _).seq _)
        (misses_packageContent hpath hascii _)
      exact ⟨[], .skip hline hmiss himports, (if_neg (by simp [hascii])).symm⟩

/-- The imports that are found behind the package. -/
theorem FileHead.IsWellFormed.exists_findsLines_imports {head : FileHead} (h : head.IsWellFormed)
    {body : List Char} (hbody : FindsLines (directive "import" importContent) body []) :
    ∃ founds, FindsLines (directive "import" importContent) (head.stripped ++ body) founds ∧
      founds.map Found.parts = head.readable.map importParts := by
  obtain ⟨founds, hfounds, hparts⟩ := Declaration.exists_findsLines_imports h.imports hbody
  refine ⟨founds, ?_, hparts⟩
  rw [FileHead.stripped]
  cases hpackage : head.package? with
  | none => exact hfounds
  | some decl =>
    obtain ⟨hwf, hpath⟩ := h.package decl hpackage
    have hline := hwf.stripped.notMem_line "package" (by decide)
      (isContent_of_isDottedName hpath)
    have hsplit : (some decl).toList.flatMap (fun decl : SourceLine × List Char =>
          decl.1.stripped.line "package" decl.2 ++ ['\n']) ++
        head.imports.flatMap ImportDecl.stripped ++ body =
          decl.1.stripped.line "package" decl.2 ++
            '\n' :: (head.imports.flatMap ImportDecl.stripped ++ body) := by simp
    rw [hsplit]
    exact .skip hline (misses_directive_of_clashes hwf.stripped startsName_import
      startsName_package (by decide) _ _) hfounds

/-- No directive is found in a text none of whose lines begins with its word. -/
theorem findsLines_directive_nil {keyword : String} {shape : Pattern Part}
    (hkeyword : StartsName keyword.toList) (hplain : '\n' ∉ keyword.toList) {text : List Char}
    (h : ∀ line ∈ text.splitOn '\n', ¬ BeginsWith keyword line) :
    FindsLines (directive keyword shape) text [] :=
  findsLines_nil fun line hline _ hrest =>
    misses_directive_of_not_beginsWith hkeyword hplain (h line hline) hrest

/-- The package and the imports of a text, from what searching its lines finds. -/
theorem scopeOf_eq {text : List Char} {packages imports : List (Found Part)}
    (hpackages : FindsLines (directive "package" packageContent) text packages)
    (himports : FindsLines (directive "import" importContent) text imports)
    {targets : List ImportTarget} (hparts : imports.map Found.parts = targets.map importParts) :
    scopeOf text = targets.foldl ImportTarget.record
      { package := String.ofList
          ((packages.head?.bind fun found => found.parts.lookup .package).getD []) } := by
  have hfirst : ((Shape.package.find? text).map (·.part .package)).getD [] =
      (packages.head?.bind fun found => found.parts.lookup .package).getD [] := by
    have hall := hpackages.forall₂_findAll startsLine_package
    rw [find?]
    generalize Shape.package.findAll text = actuals at hall
    cases hall with
    | nil => rfl
    | cons hdescribes _ =>
      simp only [List.head?_cons, Option.map_some, Option.getD_some, Option.bind_some, Match.part,
        hdescribes.part?]
  -- what the loop over the matches records depends on their parts alone
  have hall := himports.forall₂_findAll startsLine_importing
  have hlookup : ∀ target : ImportTarget, (importParts target).lookup .path = some target.written ∧
      (importParts target).lookup .alias = target.name? := by
    rintro (path | path | ⟨path, name⟩) <;> exact ⟨rfl, rfl⟩
  let add (scope : Scope) (parts : List (Part × List Char)) : Scope :=
    scope.recordImport (String.ofList ((parts.lookup .path).getD []))
      ((parts.lookup .alias).map String.ofList)
  have hadd : ∀ scope target,
      add scope (importParts target) = ImportTarget.record scope target := by
    intro scope target
    simp only [add, (hlookup target).1, (hlookup target).2, ImportTarget.record, Option.getD_some]
  rw [scopeOf, hfirst, foldl_eq_of_forall₂ hall (g := fun scope found => add scope found.parts)
    (fun found actual hdescribes scope => by simp only [Match.part, hdescribes.part?, add]),
    ← List.foldl_map (f := Found.parts) (g := add), hparts, List.foldl_map]
  simp only [hadd]

theorem FileHead.IsWellFormed.readable {head : FileHead} (h : head.IsWellFormed) :
    ∀ target ∈ head.readable, target.IsWellFormed := by
  intro target htarget
  obtain ⟨decl, hdecl, rfl⟩ := List.mem_map.1 (List.mem_filter.1 htarget).1
  exact (h.imports decl hdecl).target

/-- **The scope of a file is that of its readable directives**, whatever follows them: its package,
the types and the packages that it imports in order of their first occurrence and without
repetition, and under each other name, in order of its first occurrence, the last type. -/
theorem scopeOf_stripComments {head : FileHead} (h : head.IsWellFormed) {body : List Char}
    (hbody : ∀ line ∈ (stripComments body).splitOn '\n',
      ¬ BeginsWith "package" line ∧ ¬ BeginsWith "import" line) :
    let scope := scopeOf (stripComments (head.text ++ body))
    scope.package = head.package ∧
      scope.explicit = (head.readable.filterMap ImportTarget.explicit?).eraseDups ∧
      scope.wildcards = (head.readable.filterMap ImportTarget.wildcard?).eraseDups ∧
      scope.aliases.keys =
        ((head.readable.filterMap ImportTarget.alias?).map Prod.fst).eraseDups ∧
      ∀ name, scope.aliases.get? name =
        ((head.readable.filterMap ImportTarget.alias?).reverse.find? fun entry =>
          entry.1 == name).map Prod.snd := by
  have hstrip : stripComments (head.text ++ body) = head.stripped ++ stripComments body :=
    h.strip_append body
  -- no line of the body begins a directive, so both patterns find those of the head
  obtain ⟨packages, hpackages, hpackage⟩ := h.exists_findsLines_package
    (findsLines_directive_nil startsName_package (by decide) fun line hline => (hbody line hline).1)
  obtain ⟨imports, himports, hparts⟩ := h.exists_findsLines_imports
    (findsLines_directive_nil startsName_import (by decide) fun line hline => (hbody line hline).2)
  have hscope : scopeOf (stripComments (head.text ++ body)) =
      ImportTarget.scopeOfAll head.package head.readable := by
    rw [hstrip, scopeOf_eq hpackages himports hparts, hpackage,
      ImportTarget.foldl_record _ h.readable]
  rw [hscope]
  exact ⟨rfl, rfl, rfl, Table.keys_ofList _, Table.get?_ofList _⟩

theorem scopeOf_stripComments_example :
    let line (indent : List Char) (mark : Bool) (behind : List Char) (remark : Remark)
        (carriage : Bool) : SourceLine := ⟨⟨indent, [' '], ⟨[], mark, behind, carriage⟩⟩, remark⟩
    let plain : SourceLine := line [] false [] .none false
    let head : FileHead :=
      { package? := some (line [] true [' '] (.line " über".toList) true, "com.x".toList)
        imports :=
          [⟨plain, .renamed "a.b.C".toList "D".toList, [' '], ['\t']⟩,
            ⟨line ['\t'] false [' '] (.block [.words " all ".toList]) false, .whole "a".toList,
              [' '], [' ']⟩,
            ⟨plain, .single "a.Straße".toList, [' '], [' ']⟩,
            ⟨line [] true [] .none true, .single "a.B".toList, [' '], [' ']⟩,
            ⟨plain, .renamed "c.E".toList "D".toList, [' '], [' ']⟩,
            ⟨plain, .single "a.B".toList, [' '], [' ']⟩] }
    let body : List Char := "/*\nimport x.Y\n*/\nimportant(\"import x.Z\")\n".toList
    let lines : List String :=
      ["package com.x; // über\r\n", "import a.b.C as\tD\n", "\timport a.* /* all */\n",
        "import a.Straße\n", "import a.B;\r\n", "import c.E as D\n", "import a.B\n",
        "/*\nimport x.Y\n*/\nimportant(\"import x.Z\")\n"]
    let scope := scopeOf (stripComments (lines.flatMap String.toList))
    (head.IsWellFormed ∧ ∀ line ∈ (stripComments body).splitOn '\n',
        ¬ BeginsWith "package" line ∧ ¬ BeginsWith "import" line) ∧
      scope.package = "com.x" ∧ scope.explicit = ["a.B"] ∧ scope.wildcards = ["a"] ∧
        scope.aliases.keys = ["D"] ∧ scope.aliases.get? "D" = some "c.E" := by
  intro line plain head body lines scope
  have hspace : IsRun Shape.isTabOrSpace [' '] := by decide
  have htab : IsRun Shape.isTabOrSpace ['\t'] := by decide
  have hline : ∀ {indent behind : List Char} {remark : Remark},
      indent.all Shape.isTabOrSpace = true → behind.all Shape.isTabOrSpace = true →
        remark.IsWellFormed → ∀ mark carriage,
          (line indent mark behind remark carriage).IsWellFormed :=
    fun hindent hbehind hremark _ _ => ⟨⟨hindent, hspace, ⟨rfl, hbehind⟩⟩, hremark⟩
  have hnone : Remark.none.IsWellFormed := ⟨List.forall_mem_nil _, by rintro parts ⟨⟩⟩
  have hover : (Remark.line " über".toList).IsWellFormed :=
    ⟨by simp [Remark.text], by rintro parts ⟨⟩⟩
  have hblock : (Remark.block [.words " all ".toList]).IsWellFormed := by
    refine ⟨by simp [Remark.text, CommentPart.source, CommentPart.sourceAll], ?_⟩
    rintro parts ⟨⟩
    simp only [CommentPart.FitAll, CommentPart.Fits, Clear]
    and_intros <;> decide
  have hnames : ∀ path ∈ ["a.b.C", "a", "a.Straße", "a.B", "c.E", "com.x"],
      IsDottedName path.toList := by decide +kernel
  have hother : IsIdentifier "D".toList := by decide +kernel
  have hhead : head.IsWellFormed := by
    refine ⟨?_, ?_⟩
    · rintro decl ⟨⟩
      exact ⟨hline rfl rfl hover _ _, hnames "com.x" (by simp)⟩
    · simp only [head, List.forall_mem_cons]
      refine ⟨?_, ?_, ?_, ?_, ?_, ?_, List.forall_mem_nil _⟩
      · exact ⟨hline rfl rfl hnone _ _, ⟨hnames "a.b.C" (by simp), by rintro name ⟨⟩; exact hother⟩,
          hspace, htab⟩
      · exact ⟨hline rfl rfl hblock _ _, ⟨hnames "a" (by simp), by rintro name ⟨⟩⟩, hspace, hspace⟩
      · exact ⟨hline rfl rfl hnone _ _, ⟨hnames "a.Straße" (by simp), by rintro name ⟨⟩⟩, hspace,
          hspace⟩
      · exact ⟨hline rfl rfl hnone _ _, ⟨hnames "a.B" (by simp), by rintro name ⟨⟩⟩, hspace, hspace⟩
      · exact ⟨hline rfl rfl hnone _ _, ⟨hnames "c.E" (by simp), by rintro name ⟨⟩; exact hother⟩,
          hspace, hspace⟩
      · exact ⟨hline rfl rfl hnone _ _, ⟨hnames "a.B" (by simp), by rintro name ⟨⟩⟩, hspace, hspace⟩
  have hbody : ∀ line ∈ (stripComments body).splitOn '\n',
      ¬ BeginsWith "package" line ∧ ¬ BeginsWith "import" line := by decide +kernel
  have hsource : head.text ++ body = lines.flatMap String.toList := by decide +kernel
  obtain ⟨hpackage, hexplicit, hwildcards, hkeys, hvalues⟩ := scopeOf_stripComments hhead hbody
  rw [hsource] at hpackage hexplicit hwildcards hkeys hvalues
  exact ⟨⟨hhead, hbody⟩, hpackage.trans (by decide +kernel), hexplicit.trans (by decide +kernel),
    hwildcards.trans (by decide +kernel), hkeys.trans (by decide +kernel),
    (hvalues "D").trans (by decide +kernel)⟩

/-- A package and an import in other letters are lost. -/
theorem scopeOf_misses_letters :
    scopeOf (stripComments "package größe\nimport a.Straße\nimport a.B\n".toList) =
      { package := "", explicit := ["a.B"] } := by
  decide +kernel

end RpcBinder.Declaration
