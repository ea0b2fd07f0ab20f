import Mathlib.Data.List.Forall2
import RpcBinder.Proofs.Bytes.Cuts
import RpcBinder.Proofs.Lexis.Blanking

/-!
# Blanking comments byte by byte

The pass over a source goes from one offset in bytes to another, takes up to three bytes in one
go, and writes a space for each byte of a comment, in the middle of characters as well.  The
characters that it looks for are ASCII, so it stands where the pass over characters does, apart
from bytes of a character that it has begun: these are written like any byte of the mode it is in.

## Main definitions

* `ByteMode`, `ByteMode.read?` — where the pass stands, and what it takes and writes in one go.
* `stripFrom?`, `stripBytes?` — the bytes that it writes.
* `IsKeptOrBlanked` — a byte that is written is the one that was read, or a space.

## Main results

* `stripFrom?_utf8` — the pass over the bytes of a text writes those of the blanked text.
* `stripBytes?_utf8` — **blanking keeps offsets and line breaks, and is a projection.**
-/

namespace RpcBinder.Lexis

/-! ### The pass -/

/-- Where the pass over bytes stands. -/
inductive ByteMode
  /-- In code. -/
  | code
  /-- In a line comment. -/
  | lineComment
  /-- In `depth` block comments. -/
  | blockComment (depth : Nat)
  /-- In a string. -/
  | string
  /-- In a raw string. -/
  | rawString
  /-- In a character literal. -/
  | character
  deriving DecidableEq, Repr

/-- What stands for a byte of a comment. -/
def whitened (b : UInt8) : UInt8 :=
  if b == '\n'.toUInt8 || b == '\r'.toUInt8 then b else ' '.toUInt8

/-- Two spaces. -/
def twoSpaces : List UInt8 := utf8 "  ".toList

/-- The quotes around a raw string. -/
def threeQuotes : List UInt8 := utf8 "\"\"\"".toList

namespace ByteMode

/-- What is read in a literal that ends at `quote`, and is the mode `inside`. -/
def readQuoted (inside : ByteMode) (quote : Char) (b : UInt8) (after : List UInt8) :
    Nat × List UInt8 × ByteMode :=
  if b == '\\'.toUInt8 then
    match after.head? with
    | some next => (1, [b, next], inside)
    | none => (0, [b], inside)
  else if b == quote.toUInt8 || b == '\n'.toUInt8 then (0, [b], .code)
  else (0, [b], inside)

/-- How many bytes are read along with the byte `b` in front of `after`, what is written for all
of them, and where the pass stands behind them.  Leaving a block comment takes one from the
number of those that are open, which must not be zero. -/
def read? (mode : ByteMode) (b : UInt8) (after : List UInt8) :
    Option (Nat × List UInt8 × ByteMode) :=
  match mode with
  | .code =>
      if b == '/'.toUInt8 && after.head? == some '/'.toUInt8 then
        some (1, twoSpaces, .lineComment)
      else if b == '/'.toUInt8 && after.head? == some '*'.toUInt8 then
        some (1, twoSpaces, .blockComment 1)
      else if b == '"'.toUInt8 && threeQuotes.isPrefixOf (b :: after) then
        some (2, threeQuotes, .rawString)
      else if b == '"'.toUInt8 then some (0, [b], .string)
      else if b == '\''.toUInt8 then some (0, [b], .character)
      else some (0, [b], .code)
  | .lineComment =>
      some (0, [whitened b], if b == '\n'.toUInt8 then .code else .lineComment)
  | .blockComment depth =>
      if b == '*'.toUInt8 && after.head? == some '/'.toUInt8 then
        if depth == 1 then some (1, twoSpaces, .code)
        else (sub? depth 1).map fun depth => (1, twoSpaces, .blockComment depth)
      else if b == '/'.toUInt8 && after.head? == some '*'.toUInt8 then
        some (1, twoSpaces, .blockComment (depth + 1))
      else some (0, [whitened b], .blockComment depth)
  | .string => some (readQuoted .string '"' b after)
  | .character => some (readQuoted .character '\'' b after)
  | .rawString =>
      if threeQuotes.isPrefixOf (b :: after) then some (2, threeQuotes, .code)
      else some (0, [b], .rawString)

end ByteMode

/-- What the pass writes from an offset on. -/
def stripFrom? (bytes : List UInt8) (mode : ByteMode) (i : Nat) : Option (List UInt8) :=
  if i < bytes.length then do
    let b ← bytes[i]?
    let after ← from? bytes (i + 1)
    let (along, written, next) ← mode.read? b after
    let rest ← stripFrom? bytes next (i + 1 + along)
    return written ++ rest
  else some []
termination_by bytes.length - i

/-- The bytes of a source with its comments blanked.  There are none if an offset, a cut or a
difference fails. -/
def stripBytes? (bytes : List UInt8) : Option (List UInt8) :=
  stripFrom? bytes .code 0

/-! ### The pass over characters and the pass over bytes -/

/-- Where the pass over bytes stands when the pass over characters does. -/
def Mode.bytes : Mode → ByteMode
  | .code => .code
  | .lineComment => .lineComment
  | .blockComment outer => .blockComment (outer + 1)
  | .quoted quote => if quote == '"' then .string else .character
  | .rawString => .rawString
  | .held _ next => next.bytes

/-- The pass over characters stands where the pass over bytes may: nothing is read ahead, and a
quoted literal ends at one of the two quotes. -/
def Mode.isAtByte : Mode → Bool
  | .quoted quote => quote == '"' || quote == '\''
  | .held _ _ => false
  | _ => true

/-- The bytes are kept, and not those of a comment. -/
def ByteMode.keeps : ByteMode → Bool
  | .lineComment => false
  | .blockComment _ => false
  | _ => true

/-- What is written for bytes that are not looked for. -/
def ByteMode.pass (mode : ByteMode) (bytes : List UInt8) : List UInt8 :=
  if mode.keeps then bytes else List.replicate bytes.length ' '.toUInt8

@[simp] theorem ByteMode.pass_nil (mode : ByteMode) : mode.pass [] = [] := by
  unfold ByteMode.pass
  split <;> rfl

theorem ByteMode.pass_append (mode : ByteMode) (s t : List UInt8) :
    mode.pass (s ++ t) = mode.pass s ++ mode.pass t := by
  unfold ByteMode.pass
  split
  · rfl
  · rw [List.length_append, List.replicate_add]

theorem ne_of_high {b : UInt8} (hb : 0x80 ≤ b) {d : Char} (hd : d.toNat < 0x80) :
    (b == d.toUInt8) = false := by
  rw [beq_eq_false_iff_ne]
  rintro rfl
  have hle : 0x80 ≤ d.toUInt8.toNat := hb
  rw [toNat_toUInt8 hd] at hle
  omega

theorem isPrefixOf_threeQuotes (c : Char) (rest : List Char) :
    threeQuotes.isPrefixOf (utf8 (c :: rest)) = (c == '"' && startsWithTwoQuotes rest) := by
  rw [threeQuotes, isPrefixOf_utf8 (by simp)]
  show ('"' == c && ['"', '"'].isPrefixOf rest) = _
  rw [Bool.beq_comm]
  congr 1
  match rest with
  | [] => rfl
  | [d] => simp [List.isPrefixOf, startsWithTwoQuotes]
  | d :: e :: rest =>
    rw [startsWithTwoQuotes_cons_cons, @Bool.beq_comm _ _ _ d, @Bool.beq_comm _ _ _ e]
    simp [List.isPrefixOf]

theorem isPrefixOf_threeQuotes_high {b : UInt8} (hb : 0x80 ≤ b) (after : List UInt8) :
    threeQuotes.isPrefixOf (b :: after) = false := by
  have hquote : ('"'.toUInt8 == b) = false := by rw [Bool.beq_comm, ne_of_high hb (by decide)]
  show ('"'.toUInt8 == b && _) = false
  rw [hquote, Bool.false_and]

/-- A high byte is none that is looked for. -/
theorem read?_high (mode : ByteMode) {b : UInt8} (hb : 0x80 ≤ b) (after : List UInt8) :
    mode.read? b after = some (0, mode.pass [b], mode) := by
  have hquotes := isPrefixOf_threeQuotes_high hb after
  cases mode <;>
    simp [ByteMode.read?, ByteMode.readQuoted, ByteMode.pass, ByteMode.keeps, whitened,
      ne_of_high hb, hquotes]

/-- What the pass over bytes does at a character: it writes what the pass over characters does,
and is left in front of the bytes `high` of a character, which are written as they are passed. -/
structure Reads (mode : Mode) (c : Char) (rest : List Char) (lead : UInt8) (after : List UInt8)
    (along : Nat) (written : List UInt8) (next : Mode) (high : List UInt8)
    (rest' : List Char) : Prop where
  read : mode.bytes.read? lead after = some (along, written, next.bytes)
  isAtByte : next.isAtByte = true
  drop_eq : after.drop along = high ++ utf8 rest'
  isHigh : IsHigh high
  strip_eq : utf8 (strip mode (c :: rest)) =
    written ++ (next.bytes.pass high ++ utf8 (strip next rest'))

namespace Reads

variable {mode next : Mode} {c : Char} {rest s t rest' : List Char}

/-- Where whole characters are read along, nothing is left of one. -/
theorem of_along (hread : mode.bytes.read? c.toUInt8 (utf8 (s ++ rest')) =
      some (byteLength s, utf8 t, next.bytes)) (hnext : next.isAtByte = true)
    (hstrip : strip mode (c :: (s ++ rest')) = t ++ strip next rest') :
    Reads mode c (s ++ rest') c.toUInt8 (utf8 (s ++ rest')) (byteLength s) (utf8 t) next []
      rest' := by
  refine ⟨hread, hnext, ?_, isHigh_nil, ?_⟩
  · rw [utf8_append, ← length_utf8, List.drop_left, List.nil_append]
  · rw [hstrip, utf8_append, ByteMode.pass_nil, List.nil_append]

/-- A single ASCII character. -/
theorem of_single {region : Region} (hstep : mode.step true c rest = (region, next))
    (hread : mode.bytes.read? c.toUInt8 (utf8 rest) =
      some (0, utf8 (blank (c, region)), next.bytes)) (hnext : next.isAtByte = true) :
    Reads mode c rest c.toUInt8 (utf8 rest) 0 (utf8 (blank (c, region))) next [] rest :=
  of_along (s := []) hread hnext (strip_cons_of_step hstep)

end Reads

/-- An ASCII character is the byte that is looked for if it is the character. -/
theorem toUInt8_beq {c d : Char} (hc : c.toNat < 0x80) (hd : d.toNat < 0x80) :
    (c.toUInt8 == d.toUInt8) = (c == d) :=
  (IsEncoded.ascii hc).lead_beq hd

theorem utf8_blank_of_lt {c : Char} (hc : c.toNat < 0x80) (region : Region) :
    utf8 (blank (c, region)) =
      if region = .comment then [whitened c.toUInt8] else [c.toUInt8] := by
  have hkept : utf8 [c] = [c.toUInt8] := utf8_cons_of_lt hc []
  cases region with
  | comment =>
    simp only [blank, whitened, toUInt8_beq hc (show '\n'.toNat < 0x80 by decide),
      toUInt8_beq hc (show '\r'.toNat < 0x80 by decide), utf8Size_of_lt hc]
    split
    · exact hkept
    · rfl
  | _ => exact hkept

theorem exists_reads_code {c : Char} (hc : c.toNat < 0x80) (rest : List Char) :
    ∃ along written next high rest',
      Reads .code c rest c.toUInt8 (utf8 rest) along written next high rest' := by
  have hprefix : threeQuotes.isPrefixOf (c.toUInt8 :: utf8 rest) =
      (c == '"' && startsWithTwoQuotes rest) := by
    rw [← utf8_cons_of_lt hc, isPrefixOf_threeQuotes]
  by_cases hline : c = '/' ∧ rest.head? = some '/'
  · obtain ⟨rfl, hhead⟩ := hline
    obtain ⟨rest, rfl⟩ := List.head?_eq_some_iff.1 hhead
    exact ⟨_, _, .lineComment, _, _, .of_along (s := ['/']) (t := "  ".toList) rfl rfl rfl⟩
  by_cases hblock : c = '/' ∧ rest.head? = some '*'
  · obtain ⟨rfl, hhead⟩ := hblock
    obtain ⟨rest, rfl⟩ := List.head?_eq_some_iff.1 hhead
    exact ⟨_, _, .blockComment 0, _, _, .of_along (s := ['*']) (t := "  ".toList) rfl rfl rfl⟩
  by_cases hraw : c = '"' ∧ startsWithTwoQuotes rest = true
  · obtain ⟨rfl, hquotes⟩ := hraw
    obtain ⟨rest, rfl⟩ := exists_of_startsWithTwoQuotes hquotes
    exact ⟨_, _, .rawString, _, _,
      .of_along (s := ['"', '"']) (t := "\"\"\"".toList) rfl rfl rfl⟩
  -- a single character from here on, of code or the opening quote of a literal
  have hread : Mode.code.bytes.read? c.toUInt8 (utf8 rest) =
      if c = '"' then some (0, [c.toUInt8], .string)
      else if c = '\'' then some (0, [c.toUInt8], .character)
      else some (0, [c.toUInt8], .code) := by
    simp (disch := decide) only [Mode.bytes, ByteMode.read?, hprefix, toUInt8_beq hc,
      head?_utf8_beq, Bool.and_eq_true, beq_iff_eq]
    rw [if_neg hline, if_neg hblock, if_neg fun h => hraw h.2]
  by_cases hquote : c = '"' ∨ c = '\''
  · have hstep : Mode.code.step true c rest = (.literal, .quoted c) := by
      simp [Mode.step, hline, hblock, hraw, hquote]
    refine ⟨_, _, _, _, _, .of_single hstep ?_ (by simpa [Mode.isAtByte] using hquote)⟩
    rw [hread]
    rcases hquote with rfl | rfl <;> rfl
  · have hstep : Mode.code.step true c rest = (.code, .code) := by
      simp [Mode.step, hline, hblock, hraw, hquote]
    refine ⟨_, _, _, _, _, .of_single hstep ?_ rfl⟩
    rw [hread, if_neg (not_or.1 hquote).1, if_neg (not_or.1 hquote).2, utf8_blank_of_lt hc]
    rfl

theorem exists_reads_blockComment {c : Char} (hc : c.toNat < 0x80) (outer : Nat)
    (rest : List Char) : ∃ along written next high rest',
      Reads (.blockComment outer) c rest c.toUInt8 (utf8 rest) along written next high rest' := by
  by_cases hclose : c = '*' ∧ rest.head? = some '/'
  · -- the end of a comment, which may stand within another
    obtain ⟨rfl, hhead⟩ := hclose
    obtain ⟨rest, rfl⟩ := List.head?_eq_some_iff.1 hhead
    cases outer with
    | zero =>
      exact ⟨_, _, .code, _, _, .of_along (s := ['/']) (t := "  ".toList) rfl rfl rfl⟩
    | succ outer =>
      exact ⟨_, _, .blockComment outer, _, _,
        .of_along (s := ['/']) (t := "  ".toList) rfl rfl rfl⟩
  by_cases hopen : c = '/' ∧ rest.head? = some '*'
  · -- one more comment within this one
    obtain ⟨rfl, hhead⟩ := hopen
    obtain ⟨rest, rfl⟩ := List.head?_eq_some_iff.1 hhead
    exact ⟨_, _, .blockComment (outer + 1), _, _,
      .of_along (s := ['*']) (t := "  ".toList) rfl rfl rfl⟩
  · -- any other character is blanked, a line break kept
    have hstep : (Mode.blockComment outer).step true c rest = (.comment, .blockComment outer) := by
      simp [Mode.step, hclose, hopen]
    refine ⟨_, _, _, _, _, .of_single hstep ?_ rfl⟩
    simp (disch := decide) only [Mode.bytes, ByteMode.read?, toUInt8_beq hc, head?_utf8_beq,
      Bool.and_eq_true, beq_iff_eq]
    rw [if_neg hclose, if_neg hopen, utf8_blank_of_lt hc]
    rfl

theorem exists_reads_rawString {c : Char} (hc : c.toNat < 0x80) (rest : List Char) :
    ∃ along written next high rest',
      Reads .rawString c rest c.toUInt8 (utf8 rest) along written next high rest' := by
  by_cases hraw : c = '"' ∧ startsWithTwoQuotes rest = true
  · obtain ⟨rfl, hquotes⟩ := hraw
    obtain ⟨rest, rfl⟩ := exists_of_startsWithTwoQuotes hquotes
    exact ⟨_, _, .code, _, _,
      .of_along (s := ['"', '"']) (t := "\"\"\"".toList) rfl rfl rfl⟩
  · have hstep : Mode.rawString.step true c rest = (.literal, .rawString) := by
      simp [Mode.step, hraw]
    refine ⟨_, _, _, _, _, .of_single hstep ?_ rfl⟩
    have hprefix := isPrefixOf_threeQuotes c rest
    rw [utf8_cons_of_lt hc] at hprefix
    simp only [Mode.bytes, ByteMode.read?, hprefix, Bool.and_eq_true, beq_iff_eq]
    rw [if_neg hraw, utf8_blank_of_lt hc]
    rfl

/-- In a literal the byte behind a backslash is taken along, be it the first one of a character
with several. -/
theorem exists_reads_quoted {c : Char} (hc : c.toNat < 0x80) {quote : Char}
    (hquote : quote = '"' ∨ quote = '\'') (rest : List Char) :
    ∃ along written next high rest',
      Reads (.quoted quote) c rest c.toUInt8 (utf8 rest) along written next high rest' := by
  have hat : (Mode.quoted quote).isAtByte = true := by simpa [Mode.isAtByte] using hquote
  have hascii : quote.toNat < 0x80 := by rcases hquote with rfl | rfl <;> decide
  have hread : (Mode.quoted quote).bytes.read? c.toUInt8 (utf8 rest) =
      some (ByteMode.readQuoted (Mode.quoted quote).bytes quote c.toUInt8 (utf8 rest)) := by
    rcases hquote with rfl | rfl <;> rfl
  have hkeeps : ∀ high, (Mode.quoted quote).bytes.pass high = high := by
    intro high
    rcases hquote with rfl | rfl <;> rfl
  -- behind a backslash one byte is passed, of which the character may have more
  by_cases hback : c = '\\'
  · subst hback
    cases rest with
    | nil => exact ⟨_, _, .quoted quote, _, _, .of_along (s := []) (t := ['\\']) hread hat rfl⟩
    | cons d rest =>
      obtain ⟨lead, trail, hbytes, hencoded⟩ := exists_isEncoded d
      refine ⟨1, ['\\'.toUInt8, lead], .quoted quote, trail, rest, ?_, hat, ?_,
        hencoded.isHigh_trail, ?_⟩
      · rw [hread, utf8_cons, hbytes]
        rfl
      · rw [utf8_cons, hbytes]
        rfl
      · have hstrip : strip (.quoted quote) ('\\' :: d :: rest) =
            '\\' :: d :: strip (.quoted quote) rest := rfl
        rw [hstrip, utf8_cons_of_lt (by decide), utf8_cons, hbytes, hkeeps]
        rfl
  -- no escape: a byte below 0x80 is a character, and both are asked the same questions
  have hends : (c.toUInt8 == quote.toUInt8 || c.toUInt8 == '\n'.toUInt8) =
      (c == quote || c == '\n') := by
    rw [toUInt8_beq hc hascii, toUInt8_beq hc (by decide)]
  have hother : (c.toUInt8 == '\\'.toUInt8) = false := by
    rw [toUInt8_beq hc (by decide), beq_eq_false_iff_ne]
    exact hback
  by_cases hend : c = quote ∨ c = '\n'
  · have hstep : (Mode.quoted quote).step true c rest = (.literal, .code) := by
      simp [Mode.step, hback, hend]
    refine ⟨_, _, _, _, _, .of_single hstep ?_ rfl⟩
    rw [hread, ByteMode.readQuoted, hother, hends, utf8_blank_of_lt hc]
    simp [hend]
    rfl
  · have hstep : (Mode.quoted quote).step true c rest = (.literal, .quoted quote) := by
      simp [Mode.step, hback, hend]
    refine ⟨_, _, _, _, _, .of_single hstep ?_ hat⟩
    rw [hread, ByteMode.readQuoted, hother, hends, utf8_blank_of_lt hc]
    simp [hend]

theorem utf8_replicate_space (n : Nat) :
    utf8 (List.replicate n ' ') = List.replicate n ' '.toUInt8 := by
  induction n with
  | zero => rfl
  | succ n ih => rw [List.replicate_succ, utf8_cons_of_lt (by decide), ih, List.replicate_succ]

/-- A space stands for each byte of a high character in a comment. -/
theorem utf8_blank_comment_of_le {c : Char} (hc : 0x80 ≤ c.toNat) :
    utf8 (blank (c, .comment)) =
      List.replicate (String.utf8EncodeChar c).length ' '.toUInt8 := by
  have hne := ne_of_le_toNat hc
  simp [blank, hne, utf8_replicate_space]

/-- A high character is none that is looked for, so the mode stays as it is. -/
theorem step_high {mode : Mode} (hmode : mode.isAtByte = true) {c : Char} (hc : 0x80 ≤ c.toNat)
    (rest : List Char) :
    ∃ region, mode.step true c rest = (region, mode) ∧
      utf8 (blank (c, region)) = mode.bytes.pass (String.utf8EncodeChar c) := by
  have hne := ne_of_le_toNat hc
  have hkept : utf8 [c] = String.utf8EncodeChar c := List.append_nil _
  have hblank := utf8_blank_comment_of_le hc
  -- in a comment the bytes become blanks, anywhere else they are kept
  cases mode with
  | code => exact ⟨.code, by simp [Mode.step, hne], hkept⟩
  | lineComment => exact ⟨.comment, by simp [Mode.step, hne], hblank⟩
  | blockComment outer => exact ⟨.comment, by simp [Mode.step, hne], hblank⟩
  | quoted quote =>
    have hquote : quote = '"' ∨ quote = '\'' := by simpa [Mode.isAtByte] using hmode
    rcases hquote with rfl | rfl <;> exact ⟨.literal, by simp [Mode.step, hne], hkept⟩
  | rawString => exact ⟨.literal, by simp [Mode.step, hne], hkept⟩
  | held region next => cases hmode

theorem exists_reads_high {mode : Mode} (hmode : mode.isAtByte = true) {c : Char} {lead : UInt8}
    {trail : List UInt8} (hc : 0x80 ≤ c.toNat) (hbytes : String.utf8EncodeChar c = lead :: trail)
    (rest : List Char) : ∃ along written next high rest',
      Reads mode c rest lead (trail ++ utf8 rest) along written next high rest' := by
  have hhigh := hbytes ▸ isHigh_utf8EncodeChar hc
  obtain ⟨hlead, htrail⟩ := List.forall_mem_cons.1 hhigh
  obtain ⟨region, hstep, hblank⟩ := step_high hmode hc rest
  refine ⟨0, mode.bytes.pass [lead], mode, trail, rest, read?_high _ hlead _, hmode, rfl, htrail,
    ?_⟩
  rw [strip_cons_of_step hstep, utf8_append, hblank, hbytes, ← List.append_assoc,
    ← ByteMode.pass_append, List.singleton_append]

/-- At every character the pass over bytes does what the pass over characters does. -/
theorem exists_reads {mode : Mode} (hmode : mode.isAtByte = true) {c : Char} {lead : UInt8}
    {trail : List UInt8} (hbytes : String.utf8EncodeChar c = lead :: trail)
    (hencoded : IsEncoded c lead trail) (rest : List Char) : ∃ along written next high rest',
      Reads mode c rest lead (trail ++ utf8 rest) along written next high rest' := by
  cases hencoded with
  | high hc _ => exact exists_reads_high hmode hc hbytes rest
  | ascii hc =>
    rw [List.nil_append]
    cases mode with
    | code => exact exists_reads_code hc rest
    | lineComment =>
      refine ⟨_, _, _, _, _, .of_single rfl ?_ (by split <;> rfl)⟩
      simp only [Mode.bytes, ByteMode.read?, utf8_blank_of_lt hc, toUInt8_beq hc
        (show '\n'.toNat < 0x80 by decide)]
      split <;> rfl
    | blockComment outer => exact exists_reads_blockComment hc outer rest
    | quoted quote => exact exists_reads_quoted hc (by simpa [Mode.isAtByte] using hmode) rest
    | rawString => exact exists_reads_rawString hc rest
    | held region next => cases hmode

theorem stripFrom?_of_drop_eq {bytes after : List UInt8} {i : Nat} {b : UInt8}
    (h : bytes.drop i = b :: after) (mode : ByteMode) :
    stripFrom? bytes mode i = (mode.read? b after).bind fun (along, written, next) =>
      (stripFrom? bytes next (i + 1 + along)).bind fun rest => some (written ++ rest) := by
  rw [stripFrom?, if_pos (lt_length_of_drop_eq h), getElem?_of_drop_eq h, from?_of_drop_eq h]
  rfl

/-- **The pass over the bytes of a text writes those of the blanked text**, from every place on at
which it stands. -/
theorem stripFrom?_utf8 {bytes high : List UInt8} {text : List Char} {mode : Mode} {i : Nat}
    (hdrop : bytes.drop i = high ++ utf8 text) (hhigh : IsHigh high)
    (hmode : mode.isAtByte = true) :
    stripFrom? bytes mode.bytes i = some (mode.bytes.pass high ++ utf8 (strip mode text)) := by
  induction hleft : bytes.length - i using Nat.strongRecOn generalizing high text mode i with
  | ind left ih =>
    cases high with
    | cons b high =>
      -- a byte of a character that has been begun
      obtain ⟨hb, hhigh⟩ := List.forall_mem_cons.1 hhigh
      rw [List.cons_append] at hdrop
      have hlt := lt_length_of_drop_eq hdrop
      have hnext := ih (bytes.length - (i + 1)) (by omega) (drop_succ_of_drop_eq hdrop) hhigh
        hmode rfl
      rw [stripFrom?_of_drop_eq hdrop, read?_high _ hb, Option.bind_some]
      dsimp only
      rw [Nat.add_zero, hnext, Option.bind_some, ← List.append_assoc, ← ByteMode.pass_append,
        List.singleton_append]
    | nil =>
      rw [List.nil_append] at hdrop
      rw [ByteMode.pass_nil, List.nil_append]
      cases text with
      | nil =>
        have hle : bytes.length ≤ i := List.drop_eq_nil_iff.1 hdrop
        rw [stripFrom?, if_neg (Nat.not_lt_of_le hle)]
        rfl
      | cons c rest =>
        obtain ⟨lead, trail, hbytes, hencoded⟩ := exists_isEncoded c
        obtain ⟨along, written, next, high, rest', h⟩ := exists_reads hmode hbytes hencoded rest
        rw [utf8_cons, hbytes, List.cons_append] at hdrop
        have hlt := lt_length_of_drop_eq hdrop
        have hdrop' : bytes.drop (i + 1 + along) = high ++ utf8 rest' := by
          rw [← List.drop_drop, drop_succ_of_drop_eq hdrop, h.drop_eq]
        have hnext := ih (bytes.length - (i + 1 + along)) (by omega) hdrop' h.isHigh h.isAtByte rfl
        rw [stripFrom?_of_drop_eq hdrop, h.read, Option.bind_some]
        dsimp only
        rw [hnext, Option.bind_some, h.strip_eq]

/-- The pass writes the bytes of the blanked text. -/
theorem stripBytes?_eq (text : List Char) :
    stripBytes? (utf8 text) = some (utf8 (stripComments text)) := by
  have hdrop : (utf8 text).drop 0 = [] ++ utf8 text := rfl
  exact @stripFrom?_utf8 (utf8 text) [] text .code 0 hdrop isHigh_nil rfl

/-! ### What is written for each byte -/

/-- The byte that is written for a byte is this byte, or a space if it is no line break. -/
def IsKeptOrBlanked (b written : UInt8) : Prop :=
  written = b ∨ written = ' '.toUInt8 ∧ b ≠ '\n'.toUInt8 ∧ b ≠ '\r'.toUInt8

theorem isKeptOrBlanked_whitened (b : UInt8) : IsKeptOrBlanked b (whitened b) := by
  unfold whitened
  split
  · exact Or.inl rfl
  · next hbreak =>
    rw [Bool.or_eq_true, beq_iff_eq, beq_iff_eq, not_or] at hbreak
    exact Or.inr ⟨rfl, hbreak⟩

theorem forall₂_isKeptOrBlanked_self (bytes : List UInt8) :
    List.Forall₂ IsKeptOrBlanked bytes bytes :=
  List.forall₂_same.2 fun _ _ => Or.inl rfl

theorem forall₂_isKeptOrBlanked_spaces {bytes : List UInt8} (h : IsHigh bytes) :
    List.Forall₂ IsKeptOrBlanked bytes (List.replicate bytes.length ' '.toUInt8) := by
  induction bytes with
  | nil => exact .nil
  | cons b bytes ih =>
    obtain ⟨hb, hbytes⟩ := List.forall_mem_cons.1 h
    have hne : ∀ d : Char, d.toNat < 0x80 → b ≠ d.toUInt8 :=
      fun d hd => beq_eq_false_iff_ne.1 (ne_of_high hb hd)
    exact .cons (Or.inr ⟨rfl, hne _ (by decide), hne _ (by decide)⟩) (ih hbytes)

theorem forall₂_isKeptOrBlanked_blank (c : Char) (region : Region) :
    List.Forall₂ IsKeptOrBlanked (String.utf8EncodeChar c) (utf8 (blank (c, region))) := by
  by_cases hcomment : region = .comment
  · subst hcomment
    obtain ⟨lead, trail, hbytes, hencoded⟩ := exists_isEncoded c
    cases hencoded with
    | ascii hc =>
      rw [hbytes, utf8_blank_of_lt hc, if_pos rfl]
      exact .cons (isKeptOrBlanked_whitened _) .nil
    | high hc _ =>
      rw [utf8_blank_comment_of_le hc]
      exact forall₂_isKeptOrBlanked_spaces (isHigh_utf8EncodeChar hc)
  · rw [blank_of_ne_comment hcomment, utf8_cons, utf8_nil, List.append_nil]
    exact forall₂_isKeptOrBlanked_self _

theorem forall₂_isKeptOrBlanked_strip (mode : Mode) (text : List Char) :
    List.Forall₂ IsKeptOrBlanked (utf8 text) (utf8 (strip mode text)) := by
  induction text generalizing mode with
  | nil => exact .nil
  | cons c rest ih =>
    rw [strip_cons, utf8_cons, utf8_append]
    exact List.rel_append (forall₂_isKeptOrBlanked_blank c _) (ih _)

theorem getElem?_eq_break_iff {bytes written : List UInt8}
    (h : List.Forall₂ IsKeptOrBlanked bytes written) {b : UInt8}
    (hb : b = '\n'.toUInt8 ∨ b = '\r'.toUInt8) (i : Nat) :
    bytes[i]? = some b ↔ written[i]? = some b := by
  induction h generalizing i with
  | nil => rfl
  | cons hbyte _ ih =>
    cases i with
    | succ i => exact ih i
    | zero =>
      simp only [List.getElem?_cons_zero, Option.some.injEq]
      rcases hbyte with rfl | ⟨rfl, hfeed, hreturn⟩
      · rfl
      · -- a space is no line break, and it does not stand for one
        rcases hb with rfl | rfl
        · exact iff_of_false hfeed (by decide)
        · exact iff_of_false hreturn (by decide)

/-- **Blanking keeps offsets, and is a projection.**  The pass over the bytes of any text comes to
its end, and what it writes is the text with its comments blanked: valid UTF-8, with as many
bytes, each of them kept or a space for a byte that is no line break, so that all line breaks
stay in place.  Blanking that text again changes nothing. -/
theorem stripBytes?_utf8 (text : List Char) :
    ∃ written, stripBytes? (utf8 text) = some written ∧
      textOfBytes? written = some (stripComments text) ∧
      written.length = (utf8 text).length ∧
      List.Forall₂ IsKeptOrBlanked (utf8 text) written ∧
      (∀ i : Nat, ((utf8 text)[i]? = some '\n'.toUInt8 ↔ written[i]? = some '\n'.toUInt8) ∧
        ((utf8 text)[i]? = some '\r'.toUInt8 ↔ written[i]? = some '\r'.toUInt8)) ∧
      stripBytes? written = some written ∧
      stripComments (stripComments text) = stripComments text := by
  have hbytes : List.Forall₂ IsKeptOrBlanked (utf8 text) (utf8 (stripComments text)) :=
    forall₂_isKeptOrBlanked_strip .code text
  refine ⟨utf8 (stripComments text), stripBytes?_eq text, textOfBytes?_utf8 _,
    hbytes.length_eq.symm, hbytes, fun i => ⟨getElem?_eq_break_iff hbytes (Or.inl rfl) i,
      getElem?_eq_break_iff hbytes (Or.inr rfl) i⟩, ?_, stripComments_stripComments text⟩
  rw [stripBytes?_eq, stripComments_stripComments]

end RpcBinder.Lexis
