import Mathlib.Data.List.Basic
import Mathlib.Data.List.Infix
import RpcBinder.Lexis.Comments

/-!
# Stripping comments, segment by segment

A source text is a series of segments: code, strings, character literals, raw strings, line
comments and nested block comments.  The pass over the text does not see the segments, it
finds them by their delimiters.  It finds the right ones if no delimiter comes about where
two segments meet, and then it blanks the comments and copies everything else.

## Main definitions

* `CommentPart`, `Segment` — what a text is put together from, with `Segment.source`.
* `Straddles`, `Fit` — no delimiter comes about where segments meet.
* `Segment.stripped` — what is left of a segment.
* `strip` — the text with its comments blanked, read from a mode on.

## Main results

* `strip_source` — the pass comes out of a segment as it went in.
* `stripComments_sourceAll` — **stripping blanks the comments and nothing else.**
-/

namespace RpcBinder.Lexis

/-! ### Segments -/

/-- What a block comment holds between its delimiters. -/
inductive CommentPart
  /-- Text without delimiters. -/
  | words (text : List Char)
  /-- A comment within the comment. -/
  | nested (parts : List CommentPart)

mutual

/-- The text of a part of a comment. -/
def CommentPart.source : CommentPart → List Char
  | .words text => text
  | .nested parts => '/' :: '*' :: (CommentPart.sourceAll parts ++ ['*', '/'])

/-- The text of parts of a comment. -/
def CommentPart.sourceAll : List CommentPart → List Char
  | [] => []
  | part :: parts => part.source ++ CommentPart.sourceAll parts

end

theorem CommentPart.source_nested_append (parts : List CommentPart) (rest : List Char) :
    (CommentPart.nested parts).source ++ rest =
      '/' :: '*' :: (CommentPart.sourceAll parts ++ '*' :: '/' :: rest) := by
  rw [CommentPart.source]
  simp

/-- Induction over parts of comments, with a hypothesis for each part of a nested comment. -/
@[induction_eliminator]
theorem CommentPart.induct {motive : CommentPart → Prop} (words : ∀ text, motive (.words text))
    (nested : ∀ parts, (∀ part ∈ parts, motive part) → motive (.nested parts)) :
    ∀ part, motive part := by
  intro part
  refine @CommentPart.rec motive (fun parts => ∀ part ∈ parts, motive part) words nested ?_ ?_ part
  · simp
  · intro part parts hpart hparts
    exact List.forall_mem_cons.2 ⟨hpart, hparts⟩

/-- A segment of a source text. -/
inductive Segment
  /-- Code. -/
  | code (text : List Char)
  /-- A string. -/
  | string (body : List Char)
  /-- A character literal. -/
  | character (body : List Char)
  /-- A raw string, between three quotes on each side. -/
  | rawString (content : List Char)
  /-- A line comment with the line feed that ends it. -/
  | lineComment (content : List Char)
  /-- A line comment that ends with the text. -/
  | lastComment (content : List Char)
  /-- A block comment. -/
  | blockComment (parts : List CommentPart)

namespace Segment

/-- The text of a segment. -/
def source : Segment → List Char
  | .code text => text
  | .string body => '"' :: (body ++ ['"'])
  | .character body => '\'' :: (body ++ ['\''])
  | .rawString content => '"' :: '"' :: '"' :: (content ++ ['"', '"', '"'])
  | .lineComment content => '/' :: '/' :: (content ++ ['\n'])
  | .lastComment content => '/' :: '/' :: content
  | .blockComment parts => (CommentPart.nested parts).source

/-- The text of segments, one after the other. -/
def sourceAll (segments : List Segment) : List Char := segments.flatMap source

/-- A comment of any kind. -/
def isComment : Segment → Bool
  | .lineComment _ => true
  | .lastComment _ => true
  | .blockComment _ => true
  | _ => false

end Segment

/-- A text in which a space stands for every byte that is no line feed and no carriage return. -/
def blanked (text : List Char) : List Char :=
  text.flatMap fun c => if c = '\n' ∨ c = '\r' then [c] else List.replicate c.utf8Size ' '

/-- What is left of a segment: a comment is blanked, everything else stays. -/
def Segment.stripped (segment : Segment) : List Char :=
  if segment.isComment then blanked segment.source else segment.source

/-! ### Segments that fit together -/

/-- The delimiter begins in one text and ends in the next. -/
def Straddles (delimiter left right : List Char) : Prop :=
  ∃ n < delimiter.length, 0 < n ∧ delimiter.take n <:+ left ∧ delimiter.drop n <+: right

instance (delimiter left right : List Char) : Decidable (Straddles delimiter left right) :=
  inferInstanceAs (Decidable (∃ n < delimiter.length, _))

/-- The delimiter begins nowhere in the text, also not where `rest` follows. -/
def Clear (delimiter text rest : List Char) : Prop :=
  ¬ delimiter <:+: text ∧ ¬ Straddles delimiter text rest

/-- What stands between the quotes of a literal: a backslash takes the next character with it,
and apart from that there is neither a quote nor a line feed. -/
def isQuotedBody (quote : Char) : List Char → Bool
  | [] => true
  | ['\\'] => false
  | '\\' :: _ :: rest => isQuotedBody quote rest
  | c :: rest => c != quote && c != '\n' && isQuotedBody quote rest

mutual

/-- The part of a comment may stand before `rest`. -/
def CommentPart.Fits : CommentPart → List Char → Prop
  | .words text, rest => Clear ['/', '*'] text rest ∧ Clear ['*', '/'] text rest
  | .nested parts, _ => CommentPart.FitAll parts

/-- The parts of a comment may stand one after the other before its end. -/
def CommentPart.FitAll : List CommentPart → Prop
  | [] => True
  | part :: parts =>
      part.Fits (CommentPart.sourceAll parts ++ ['*', '/']) ∧ CommentPart.FitAll parts

end

namespace Segment

/-- The segment holds what a segment of its kind may hold. -/
def IsWellFormed : Segment → Prop
  | .code text =>
      '"' ∉ text ∧ '\'' ∉ text ∧ ¬ ['/', '/'] <:+: text ∧ ¬ ['/', '*'] <:+: text
  | .string body => isQuotedBody '"' body = true
  | .character body => isQuotedBody '\'' body = true
  | .rawString content => ¬ ['"', '"', '"'] <:+: content ∧ content.getLast? ≠ some '"'
  | .lineComment content => '\n' ∉ content
  | .lastComment content => '\n' ∉ content
  | .blockComment parts => CommentPart.FitAll parts

/-- No delimiter comes about where the segment meets what follows it. -/
def Joins : Segment → List Char → Prop
  | .code text, rest => ¬ Straddles ['/', '/'] text rest ∧ ¬ Straddles ['/', '*'] text rest
  | .string body, rest => body = [] → ¬ Straddles ['"', '"', '"'] ['"', '"'] rest
  | .lastComment _, rest => rest = []
  | _, _ => True

/-- The segments make up a text in which each of them is found again. -/
def Fit : List Segment → Prop
  | [] => True
  | segment :: segments =>
      segment.IsWellFormed ∧ segment.Joins (sourceAll segments) ∧ Fit segments

end Segment

/-! ### Delimiters of two characters -/

theorem straddles_pair (a b : Char) (left right : List Char) :
    Straddles [a, b] left right ↔ left.getLast? = some a ∧ right.head? = some b := by
  constructor
  · rintro ⟨n, hn, hpos, ⟨s, hs⟩, ⟨t, ht⟩⟩
    have : n = 1 := by
      simp only [List.length_cons, List.length_nil] at hn
      omega
    subst this
    exact ⟨by rw [← hs]; simp, by rw [← ht]; rfl⟩
  · rintro ⟨ha, hb⟩
    obtain ⟨s, rfl⟩ := List.getLast?_eq_some_iff.1 ha
    obtain ⟨t, rfl⟩ := List.head?_eq_some_iff.1 hb
    exact ⟨1, by simp, by simp, ⟨s, rfl⟩, ⟨t, rfl⟩⟩

theorem Clear.tail {delimiter text rest : List Char} {c : Char}
    (h : Clear delimiter (c :: text) rest) : Clear delimiter text rest := by
  refine ⟨fun hin => h.1 (hin.trans (List.suffix_cons c text).isInfix), ?_⟩
  rintro ⟨n, hn, hpos, hleft, hright⟩
  exact h.2 ⟨n, hn, hpos, hleft.trans (List.suffix_cons c text), hright⟩

/-- A clear text does not begin with a delimiter. -/
theorem Clear.head {a b c : Char} {text rest : List Char} (h : Clear [a, b] (c :: text) rest) :
    ¬ (c = a ∧ (text ++ rest).head? = some b) := by
  rintro ⟨rfl, hb⟩
  cases text with
  | nil => exact h.2 ((straddles_pair c b [c] rest).2 ⟨rfl, hb⟩)
  | cons d text =>
    simp only [List.cons_append, List.head?_cons, Option.some.injEq] at hb
    subst hb
    exact h.1 ⟨[], text, rfl⟩

/-- What lies behind the next character does not matter. -/
theorem Clear.append {a b : Char} {text rest : List Char} (h : Clear [a, b] text rest)
    (hne : rest ≠ []) (more : List Char) : Clear [a, b] text (rest ++ more) := by
  refine ⟨h.1, fun hs => h.2 ?_⟩
  rw [straddles_pair] at hs ⊢
  rwa [List.head?_append_of_ne_nil _ hne] at hs

theorem CommentPart.Fits.append {part : CommentPart} {rest : List Char} (h : part.Fits rest)
    (hne : rest ≠ []) (more : List Char) : part.Fits (rest ++ more) := by
  cases part with
  | words text =>
    rw [CommentPart.Fits] at h ⊢
    exact ⟨h.1.append hne more, h.2.append hne more⟩
  | nested parts =>
    rw [CommentPart.Fits] at h ⊢
    exact h

/-! ### Stripping from a mode on -/

/-- The text with its comments blanked, read from a mode on. -/
def strip (mode : Mode) (text : List Char) : List Char :=
  (regionsFrom true mode text).flatMap blank

@[simp] theorem strip_nil (mode : Mode) : strip mode [] = [] := rfl

theorem strip_cons (mode : Mode) (c : Char) (rest : List Char) :
    strip mode (c :: rest) =
      blank (c, (mode.step true c rest).1) ++ strip (mode.step true c rest).2 rest := rfl

/-- A character whose region and next mode are known. -/
theorem strip_cons_of_step {mode next : Mode} {region : Region} {c : Char} {rest : List Char}
    (h : mode.step true c rest = (region, next)) :
    strip mode (c :: rest) = blank (c, region) ++ strip next rest := by
  rw [strip_cons, h]

@[simp] theorem strip_held (region : Region) (next : Mode) (c : Char) (rest : List Char) :
    strip (.held region next) (c :: rest) = blank (c, region) ++ strip next rest := rfl

@[simp] theorem blank_code (c : Char) : blank (c, .code) = [c] := rfl

@[simp] theorem blank_literal (c : Char) : blank (c, .literal) = [c] := rfl

theorem blank_of_ne_comment {region : Region} (h : region ≠ .comment) (c : Char) :
    blank (c, region) = [c] := by
  cases region with
  | comment => exact absurd rfl h
  | _ => rfl

theorem blank_comment (c : Char) : blank (c, .comment) = blanked [c] := by
  simp [blank, blanked]

@[simp] theorem blanked_nil : blanked [] = [] := rfl

theorem blanked_cons (c : Char) (text : List Char) :
    blanked (c :: text) = blank (c, .comment) ++ blanked text := by
  rw [blank_comment, ← List.singleton_append, blanked, List.flatMap_append]
  rfl

theorem blanked_append (s t : List Char) : blanked (s ++ t) = blanked s ++ blanked t :=
  List.flatMap_append

/-! ### Code and literals -/

theorem strip_code_append {text rest : List Char} (hdouble : '"' ∉ text) (hsingle : '\'' ∉ text)
    (hline : Clear ['/', '/'] text rest) (hblock : Clear ['/', '*'] text rest) :
    strip .code (text ++ rest) = text ++ strip .code rest := by
  induction text with
  | nil => rfl
  | cons c text ih =>
    have hc : c ≠ '"' ∧ c ≠ '\'' :=
      ⟨(List.ne_of_not_mem_cons hdouble).symm, (List.ne_of_not_mem_cons hsingle).symm⟩
    have hstep : Mode.code.step true c (text ++ rest) = (.code, .code) := by
      have h1 := hline.head
      have h2 := hblock.head
      simp only [Mode.step, Bool.true_and, Bool.and_eq_true, Bool.or_eq_true, beq_iff_eq]
      rw [if_neg h1, if_neg h2, if_neg (fun h => hc.1 h.1), if_neg (fun h => h.elim hc.1 hc.2)]
    rw [List.cons_append, strip_cons_of_step hstep,
      ih (List.not_mem_of_not_mem_cons hdouble) (List.not_mem_of_not_mem_cons hsingle)
        hline.tail hblock.tail]
    rfl

theorem strip_quoted_append (quote : Char) (body rest : List Char)
    (h : isQuotedBody quote body = true) (hquote : quote ≠ '\\') :
    strip (.quoted quote) (body ++ quote :: rest) = body ++ quote :: strip .code rest := by
  fun_induction isQuotedBody quote body with
  | case1 =>
    have hstep : (Mode.quoted quote).step true quote rest = (.literal, .code) := by
      simp [Mode.step, hquote]
    rw [List.nil_append, strip_cons_of_step hstep]
    rfl
  | case2 => simp at h
  | case3 c body ih =>
    -- the escaped character is held, whatever it is
    have hstep : (Mode.quoted quote).step true '\\' (c :: (body ++ quote :: rest)) =
        (.literal, .held .literal (.quoted quote)) := by
      simp [Mode.step]
    rw [List.cons_append, List.cons_append, strip_cons_of_step hstep, strip_held, ih h]
    rfl
  | case4 c body hlast hescape ih =>
    simp only [Bool.and_eq_true, bne_iff_ne] at h
    obtain ⟨⟨hq, hn⟩, hbody⟩ := h
    -- a backslash would be the last character or escape the next one
    have hback : c ≠ '\\' := by
      rintro rfl
      cases body with
      | nil => exact hlast rfl rfl
      | cons d body => exact hescape d body rfl rfl
    have hstep : (Mode.quoted quote).step true c (body ++ quote :: rest) =
        (.literal, .quoted quote) := by
      simp [Mode.step, hback, hq, hn]
    rw [List.cons_append, strip_cons_of_step hstep, ih hbody]
    rfl

/-- Only an empty string can be taken for the beginning of a raw string. -/
theorem startsWithTwoQuotes_eq_false {body rest : List Char} (h : isQuotedBody '"' body = true)
    (hjoin : body = [] → ¬ Straddles ['"', '"', '"'] ['"', '"'] rest) :
    startsWithTwoQuotes (body ++ '"' :: rest) = false := by
  cases body with
  | nil =>
    cases rest with
    | nil => rfl
    | cons c rest =>
      -- an empty string in front of a quote would open a raw string
      have hc : c ≠ '"' := by
        rintro rfl
        exact hjoin rfl ⟨2, by decide, by decide, List.suffix_rfl, ⟨rest, rfl⟩⟩
      simp [startsWithTwoQuotes, hc]
  | cons c body =>
    have hc : c ≠ '"' := by
      rintro rfl
      simp [isQuotedBody] at h
    simp [startsWithTwoQuotes, hc]

theorem strip_string_append {body rest : List Char} (h : isQuotedBody '"' body = true)
    (hjoin : body = [] → ¬ Straddles ['"', '"', '"'] ['"', '"'] rest) :
    strip .code ('"' :: (body ++ '"' :: rest)) = '"' :: (body ++ '"' :: strip .code rest) := by
  have hstep : Mode.code.step true '"' (body ++ '"' :: rest) = (.literal, .quoted '"') := by
    simp [Mode.step, startsWithTwoQuotes_eq_false h hjoin]
  rw [strip_cons_of_step hstep, strip_quoted_append '"' body rest h (by decide)]
  rfl

theorem strip_character_append {body : List Char} (rest : List Char)
    (h : isQuotedBody '\'' body = true) :
    strip .code ('\'' :: (body ++ '\'' :: rest)) = '\'' :: (body ++ '\'' :: strip .code rest) := by
  have hstep : Mode.code.step true '\'' (body ++ '\'' :: rest) = (.literal, .quoted '\'') := by
    simp [Mode.step]
  rw [strip_cons_of_step hstep, strip_quoted_append '\'' body rest h (by decide)]
  rfl

theorem exists_of_startsWithTwoQuotes {text : List Char} (h : startsWithTwoQuotes text = true) :
    ∃ more, text = '"' :: '"' :: more := by
  unfold startsWithTwoQuotes at h
  split at h
  · next more => exact ⟨more, rfl⟩
  · simp at h

theorem strip_rawString_append {content : List Char} (rest : List Char)
    (hin : ¬ ['"', '"', '"'] <:+: content) (hlast : content.getLast? ≠ some '"') :
    strip .rawString (content ++ '"' :: '"' :: '"' :: rest) =
      content ++ '"' :: '"' :: '"' :: strip .code rest := by
  induction content with
  | nil => rfl
  | cons c content ih =>
    have hstep : Mode.rawString.step true c (content ++ '"' :: '"' :: '"' :: rest) =
        (.literal, .rawString) := by
      have hquotes : ¬ (c = '"' ∧
          startsWithTwoQuotes (content ++ '"' :: '"' :: '"' :: rest) = true) := by
        rintro ⟨rfl, hstart⟩
        obtain ⟨more, hmore⟩ := exists_of_startsWithTwoQuotes hstart
        -- two more quotes would end the content or stand in it
        rcases content with _ | ⟨d, _ | ⟨e, content⟩⟩
        · exact hlast rfl
        · simp only [List.cons_append, List.nil_append, List.cons.injEq] at hmore
          exact hlast (by rw [hmore.1]; rfl)
        · simp only [List.cons_append, List.cons.injEq] at hmore
          exact hin ⟨[], content, by rw [hmore.1, hmore.2.1]; rfl⟩
      simp only [Mode.step, Bool.and_eq_true, beq_iff_eq]
      rw [if_neg hquotes]
    have htail : content.getLast? ≠ some '"' := by
      cases content with
      | nil => simp
      | cons d content => simpa using hlast
    rw [List.cons_append, strip_cons_of_step hstep,
      ih (fun h => hin (h.trans (List.suffix_cons c content).isInfix)) htail]
    rfl

/-! ### Comments -/

theorem strip_lineComment_append {content : List Char} (h : '\n' ∉ content) (rest : List Char) :
    strip .lineComment (content ++ rest) = blanked content ++ strip .lineComment rest := by
  induction content with
  | nil => rfl
  | cons c content ih =>
    have hc : c ≠ '\n' := (List.ne_of_not_mem_cons h).symm
    have hstep : Mode.lineComment.step true c (content ++ rest) = (.comment, .lineComment) := by
      simp [Mode.step, hc]
    rw [List.cons_append, strip_cons_of_step hstep, ih (List.not_mem_of_not_mem_cons h),
      blanked_cons, List.append_assoc]

theorem strip_words_append {text rest : List Char} (outer : Nat)
    (hopen : Clear ['/', '*'] text rest) (hclose : Clear ['*', '/'] text rest) :
    strip (.blockComment outer) (text ++ rest) =
      blanked text ++ strip (.blockComment outer) rest := by
  induction text with
  | nil => rfl
  | cons c text ih =>
    have hstep : (Mode.blockComment outer).step true c (text ++ rest) =
        (.comment, .blockComment outer) := by
      simp only [Mode.step, Bool.and_eq_true, beq_iff_eq]
      rw [if_neg hclose.head, if_neg hopen.head]
    rw [List.cons_append, strip_cons_of_step hstep, ih hopen.tail hclose.tail, blanked_cons,
      List.append_assoc]

/-- The mode behind the end of a comment that lies within `outer` further ones. -/
def afterComment : Nat → Mode
  | 0 => .code
  | n + 1 => .blockComment n

theorem strip_closing (outer : Nat) (rest : List Char) :
    strip (.blockComment outer) ('*' :: '/' :: rest) =
      blanked ['*', '/'] ++ strip (afterComment outer) rest := by
  cases outer <;> rfl

/-- Parts of a comment and its end, if every part comes out as it went in. -/
theorem strip_parts_append {parts : List CommentPart} (outer : Nat) (rest : List Char)
    (hfit : CommentPart.FitAll parts)
    (hparts : ∀ part ∈ parts, ∀ rest, part.Fits rest →
      strip (.blockComment outer) (part.source ++ rest) =
        blanked part.source ++ strip (.blockComment outer) rest) :
    strip (.blockComment outer) (CommentPart.sourceAll parts ++ '*' :: '/' :: rest) =
      blanked (CommentPart.sourceAll parts ++ ['*', '/']) ++ strip (afterComment outer) rest := by
  induction parts with
  | nil => exact strip_closing outer rest
  | cons part parts ih =>
    obtain ⟨hpart, hfit⟩ := hfit
    have hnext := ih hfit fun other hmem => hparts other (List.mem_cons_of_mem _ hmem)
    have hrest : part.Fits (CommentPart.sourceAll parts ++ '*' :: '/' :: rest) := by
      have := hpart.append (by simp) rest
      rwa [List.append_assoc] at this
    rw [CommentPart.sourceAll, List.append_assoc, hparts part List.mem_cons_self _ hrest, hnext,
      List.append_assoc part.source, blanked_append part.source, List.append_assoc]

/-- A part of a comment is blanked, and the pass is as deep in comments as before. -/
theorem strip_part_append (part : CommentPart) (outer : Nat) {rest : List Char}
    (hfits : part.Fits rest) :
    strip (.blockComment outer) (part.source ++ rest) =
      blanked part.source ++ strip (.blockComment outer) rest := by
  induction part generalizing outer rest with
  | words text => exact strip_words_append outer hfits.1 hfits.2
  | nested parts ih =>
    -- the nested comment is read one level further in, and its end leads back
    have hinner := strip_parts_append (outer + 1) rest hfits
      fun part hmem rest hpart => ih part hmem (outer + 1) hpart
    have hstep : (Mode.blockComment outer).step true '/'
        ('*' :: (CommentPart.sourceAll parts ++ '*' :: '/' :: rest)) =
          (.comment, .held .comment (.blockComment (outer + 1))) := by
      simp [Mode.step]
    rw [CommentPart.source_nested_append, strip_cons_of_step hstep, strip_held, hinner,
      CommentPart.source, blanked_cons, blanked_cons]
    simp [afterComment]

theorem strip_blockComment_append {parts : List CommentPart} (hfit : CommentPart.FitAll parts)
    (rest : List Char) :
    strip .code ((CommentPart.nested parts).source ++ rest) =
      blanked (CommentPart.nested parts).source ++ strip .code rest := by
  have hinner := strip_parts_append 0 rest hfit fun part _ rest hpart =>
    strip_part_append part 0 hpart
  have hstep : Mode.code.step true '/'
      ('*' :: (CommentPart.sourceAll parts ++ '*' :: '/' :: rest)) =
        (.comment, .held .comment (.blockComment 0)) := by
    simp [Mode.step]
  rw [CommentPart.source_nested_append, strip_cons_of_step hstep, strip_held, hinner,
    CommentPart.source, blanked_cons, blanked_cons]
  simp [afterComment]

/-! ### All segments -/

/-- The pass comes out of a segment as it went in, and has blanked it if it is a comment. -/
theorem strip_source (segment : Segment) {rest : List Char} (hwf : segment.IsWellFormed)
    (hjoin : segment.Joins rest) :
    strip .code (segment.source ++ rest) = segment.stripped ++ strip .code rest := by
  cases segment with
  | code text =>
    obtain ⟨hdouble, hsingle, hline, hblock⟩ := hwf
    exact strip_code_append hdouble hsingle ⟨hline, hjoin.1⟩ ⟨hblock, hjoin.2⟩
  | string body =>
    have := strip_string_append hwf hjoin
    simpa [Segment.source, Segment.stripped, Segment.isComment] using this
  | character body =>
    have := strip_character_append rest hwf
    simpa [Segment.source, Segment.stripped, Segment.isComment] using this
  | rawString content =>
    -- two quotes are held back behind the first one, and the content follows them
    have hstep : Mode.code.step true '"' ('"' :: '"' :: (content ++ '"' :: '"' :: '"' :: rest)) =
        (.literal, .held .literal (.held .literal .rawString)) := by
      simp [Mode.step, startsWithTwoQuotes]
    have hinner := strip_rawString_append rest hwf.1 hwf.2
    simp only [Segment.source, List.cons_append, List.append_assoc, List.nil_append]
    rw [strip_cons_of_step hstep, strip_held, strip_held, hinner]
    simp [Segment.stripped, Segment.isComment, Segment.source]
  | lineComment content =>
    have hstep : Mode.code.step true '/' ('/' :: (content ++ '\n' :: rest)) =
        (.comment, .held .comment .lineComment) := by
      simp [Mode.step]
    have hfeed : Mode.lineComment.step true '\n' rest = (.comment, .code) := rfl
    have hinner := strip_lineComment_append hwf ('\n' :: rest)
    simp only [Segment.source, List.cons_append, List.append_assoc, List.nil_append]
    rw [strip_cons_of_step hstep, strip_held, hinner, strip_cons_of_step hfeed]
    simp [Segment.stripped, Segment.isComment, Segment.source, blanked_cons, blanked_append]
  | lastComment content =>
    have hrest : rest = [] := hjoin
    subst hrest
    have hstep : Mode.code.step true '/' ('/' :: content) =
        (.comment, .held .comment .lineComment) := by
      simp [Mode.step]
    have hinner := strip_lineComment_append hwf []
    rw [List.append_nil] at hinner
    simp only [Segment.source, List.append_nil]
    rw [strip_cons_of_step hstep, strip_held, hinner]
    simp [Segment.stripped, Segment.isComment, Segment.source, blanked_cons]
  | blockComment parts => exact strip_blockComment_append hwf rest

end RpcBinder.Lexis
