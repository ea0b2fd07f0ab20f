import RpcBinder.Lexis.Braces
import RpcBinder.Proofs.Bytes.Comments

/-!
# Brace depth byte by byte

A tracker over bytes takes an escaped byte or three quotes in one go, so it may come to stand in
the middle of a character, or behind the end of the text.  What it has not read is what the
tracker over characters has not read, behind bytes of a character that has been begun; these it
reads without effect.

## Main definitions

* `ByteMode.track` — what a tracker takes in one go.
* `ByteTracker`, `ByteTracker.readTo?`, `ByteTracker.depths?` — a tracker over bytes, and the depths
  that it answers.
* `ByteTracker.Follows` — it stands where a tracker over characters does.

## Main results

* `ByteTracker.exists_readTo?` — the two trackers stay together.
* `ByteTracker.depths?_start` — **no index and no cut of a tracker fails**, whatever offsets it is
  asked for, and it answers what the tracker over characters does.
-/

namespace RpcBinder.Lexis

/-- How many bytes a tracker takes along with the byte `b` in front of `after`, the depth and the
mode behind them.  A depth that is zero stays zero. -/
def ByteMode.track (mode : ByteMode) (depth : Nat) (b : UInt8) (after : List UInt8) :
    Nat × Nat × ByteMode :=
  match mode with
  | .code =>
      if b == '{'.toUInt8 then (0, depth + 1, .code)
      else if b == '}'.toUInt8 then (0, depth - 1, .code)
      else if b == '"'.toUInt8 && threeQuotes.isPrefixOf (b :: after) then (2, depth, .rawString)
      else if b == '"'.toUInt8 then (0, depth, .string)
      else if b == '\''.toUInt8 then (0, depth, .character)
      else (0, depth, .code)
  | .string => trackQuoted .string '"'
  | .character => trackQuoted .character '\''
  | .rawString =>
      if threeQuotes.isPrefixOf (b :: after) then (2, depth, .code) else (0, depth, .rawString)
  | .lineComment => (0, depth, .code)
  | .blockComment _ => (0, depth, .code)
where
  /-- In a literal that ends at `quote` and is the mode `inside`. -/
  trackQuoted (inside : ByteMode) (quote : Char) : Nat × Nat × ByteMode :=
    if b == '\\'.toUInt8 then (1, depth, inside)
    else if b == quote.toUInt8 || b == '\n'.toUInt8 then (0, depth, .code)
    else (0, depth, inside)

/-- A series of bytes that has been read up to an offset. -/
structure ByteTracker where
  /-- The offset. -/
  pos : Nat
  /-- The depth there. -/
  depth : Nat
  /-- What the offset lies in. -/
  mode : ByteMode

namespace ByteTracker

/-- The tracker in front of the first byte. -/
def start : ByteTracker := ⟨0, 0, .code⟩

/-- Reads on to the offset `stop`. -/
def readTo? (bytes : List UInt8) (stop : Nat) (tracker : ByteTracker) : Option ByteTracker :=
  if tracker.pos < stop then do
    let b ← bytes[tracker.pos]?
    let after ← from? bytes (tracker.pos + 1)
    let (along, depth, next) := tracker.mode.track tracker.depth b after
    readTo? bytes stop ⟨tracker.pos + 1 + along, depth, next⟩
  else some tracker
termination_by stop - tracker.pos

/-- The depths at a series of offsets.  There are none if an index or a cut fails. -/
def depths? (bytes : List UInt8) : ByteTracker → List Nat → Option (List Nat)
  | _, [] => some []
  | tracker, target :: targets => do
      let next ← tracker.readTo? bytes (min target bytes.length)
      let depths ← next.depths? bytes targets
      return next.depth :: depths

end ByteTracker

/-! ### One step of a tracker -/

/-- A tracker takes a high byte without effect. -/
theorem track_high (within : Within) (depth : Nat) {b : UInt8} (hb : 0x80 ≤ b)
    (after : List UInt8) :
    within.mode.bytes.track depth b after = (0, depth, within.mode.bytes) := by
  have hquotes := isPrefixOf_threeQuotes_high hb after
  cases within with
  | code => simp [Within.mode, Mode.bytes, ByteMode.track, ne_of_high hb]
  | quoted quote =>
    simp only [Within.mode, Mode.bytes]
    split <;> simp [ByteMode.track, ByteMode.track.trackQuoted, ne_of_high hb]
  | rawString => simp [Within.mode, Mode.bytes, ByteMode.track, hquotes]

/-- What a tracker over bytes does at a character: it takes what the tracker over characters does,
and is left in front of bytes of a character. -/
def Tracks (within : Within) (depth : Nat) (c : Char) (rest : List Char) (lead : UInt8)
    (after : List UInt8) : Prop :=
  (within.read c rest).2.mode.isAtByte = true ∧ ∃ along high,
    within.mode.bytes.track depth lead after =
        (along, within.depthAfter depth c, (within.read c rest).2.mode.bytes) ∧
      after.drop along = high ++ utf8 (rest.drop (within.read c rest).1) ∧ IsHigh high

/-- A single ASCII character is taken. -/
theorem tracks_of_read {within next : Within} {depth : Nat} {c : Char} {rest : List Char}
    (hread : within.read c rest = (0, next)) (hnext : next.mode.isAtByte = true)
    (htrack : within.mode.bytes.track depth c.toUInt8 (utf8 rest) =
      (0, within.depthAfter depth c, next.mode.bytes)) :
    Tracks within depth c rest c.toUInt8 (utf8 rest) := by
  unfold Tracks
  rw [hread]
  exact ⟨hnext, 0, [], htrack, rfl, isHigh_nil⟩

theorem tracks_code {c : Char} (hc : c.toNat < 0x80) (depth : Nat) (rest : List Char) :
    Tracks .code depth c rest c.toUInt8 (utf8 rest) := by
  have hprefix := isPrefixOf_threeQuotes c rest
  rw [utf8_cons_of_lt hc] at hprefix
  have htrack : Within.code.mode.bytes.track depth c.toUInt8 (utf8 rest) =
      if c = '{' then (0, depth + 1, .code)
      else if c = '}' then (0, depth - 1, .code)
      else if c = '"' ∧ startsWithTwoQuotes rest = true then (2, depth, .rawString)
      else if c = '"' then (0, depth, .string)
      else if c = '\'' then (0, depth, .character)
      else (0, depth, .code) := by
    simp (disch := decide) only [Within.mode, Mode.bytes, ByteMode.track, hprefix, toUInt8_beq hc,
      Bool.and_eq_true, beq_iff_eq, and_self_left]
  -- three quotes are one step over bytes, which leaves the two behind them to pass
  by_cases hraw : c = '"' ∧ startsWithTwoQuotes rest = true
  · obtain ⟨rfl, hquotes⟩ := hraw
    obtain ⟨rest, rfl⟩ := exists_of_startsWithTwoQuotes hquotes
    exact ⟨rfl, 2, [], htrack, rfl, isHigh_nil⟩
  -- a quote opens a literal; any other character can only be a brace
  by_cases hquote : c = '"' ∨ c = '\''
  · have hread : Within.code.read c rest = (0, .quoted c) := by simp [Within.read, hraw, hquote]
    refine tracks_of_read hread (by simpa [Within.mode, Mode.isAtByte] using hquote) ?_
    rw [htrack, if_neg hraw]
    rcases hquote with rfl | rfl <;> rfl
  · have hread : Within.code.read c rest = (0, .code) := by simp [Within.read, hraw, hquote]
    refine tracks_of_read hread rfl ?_
    rw [htrack, if_neg hraw, if_neg (not_or.1 hquote).1, if_neg (not_or.1 hquote).2]
    by_cases hopen : c = '{'
    · simp [hopen, Within.depthAfter, braceStep, Within.mode, Mode.bytes]
    by_cases hclose : c = '}'
    · simp [hclose, Within.depthAfter, braceStep, Within.mode, Mode.bytes]
    · simp [hopen, hclose, Within.depthAfter, braceStep, Within.mode, Mode.bytes]

theorem tracks_rawString {c : Char} (hc : c.toNat < 0x80) (depth : Nat) (rest : List Char) :
    Tracks .rawString depth c rest c.toUInt8 (utf8 rest) := by
  have hprefix := isPrefixOf_threeQuotes c rest
  rw [utf8_cons_of_lt hc] at hprefix
  by_cases hraw : c = '"' ∧ startsWithTwoQuotes rest = true
  · obtain ⟨rfl, hquotes⟩ := hraw
    obtain ⟨rest, rfl⟩ := exists_of_startsWithTwoQuotes hquotes
    exact ⟨rfl, 2, [], rfl, rfl, isHigh_nil⟩
  · have hread : Within.rawString.read c rest = (0, .rawString) := by simp [Within.read, hraw]
    refine tracks_of_read hread rfl ?_
    simp only [Within.mode, Mode.bytes, ByteMode.track, hprefix, Bool.and_eq_true, beq_iff_eq]
    rw [if_neg hraw]
    rfl

/-- In a literal one byte is taken along with a backslash, and there may be none. -/
theorem tracks_quoted {c : Char} (hc : c.toNat < 0x80) {quote : Char}
    (hquote : quote = '"' ∨ quote = '\'') (depth : Nat) (rest : List Char) :
    Tracks (.quoted quote) depth c rest c.toUInt8 (utf8 rest) := by
  have hat : (Mode.quoted quote).isAtByte = true := by simpa [Mode.isAtByte] using hquote
  have hascii : quote.toNat < 0x80 := by rcases hquote with rfl | rfl <;> decide
  have htrack : (Within.quoted quote).mode.bytes.track depth c.toUInt8 (utf8 rest) =
      ByteMode.track.trackQuoted depth c.toUInt8 (Within.quoted quote).mode.bytes quote := by
    rcases hquote with rfl | rfl <;> rfl
  -- the byte behind a backslash is passed, of which the character may have more
  by_cases hback : c = '\\'
  · subst hback
    cases rest with
    | nil => exact ⟨hat, 1, [], htrack, rfl, isHigh_nil⟩
    | cons d rest =>
      obtain ⟨lead, trail, hbytes, hencoded⟩ := exists_isEncoded d
      refine ⟨hat, 1, trail, htrack, ?_, hencoded.isHigh_trail⟩
      rw [utf8_cons, hbytes]
      rfl
  -- no escape: a byte below 0x80 is a character, and both are asked the same questions
  have hends : (c.toUInt8 == quote.toUInt8 || c.toUInt8 == '\n'.toUInt8) =
      (c == quote || c == '\n') := by
    rw [toUInt8_beq hc hascii, toUInt8_beq hc (by decide)]
  have hother : (c.toUInt8 == '\\'.toUInt8) = false := by
    rw [toUInt8_beq hc (by decide), beq_eq_false_iff_ne]
    exact hback
  by_cases hend : c = quote ∨ c = '\n'
  · have hread : (Within.quoted quote).read c rest = (0, .code) := by
      simp [Within.read, hback, hend]
    refine tracks_of_read hread rfl ?_
    rw [htrack, ByteMode.track.trackQuoted, hother, hends]
    simp [hend, Within.depthAfter, Within.mode, Mode.bytes]
  · have hread : (Within.quoted quote).read c rest = (0, .quoted quote) := by
      simp [Within.read, hback, hend]
    refine tracks_of_read hread hat ?_
    rw [htrack, ByteMode.track.trackQuoted, hother, hends]
    simp [hend, Within.depthAfter]

theorem tracks_high {within : Within} {c : Char} {lead : UInt8} {trail : List UInt8}
    (hat : within.mode.isAtByte = true) (hc : 0x80 ≤ c.toNat)
    (hbytes : IsHigh (lead :: trail)) (depth : Nat) (rest : List Char) :
    Tracks within depth c rest lead (trail ++ utf8 rest) := by
  have hne := ne_of_le_toNat hc
  obtain ⟨hlead, htrail⟩ := List.forall_mem_cons.1 hbytes
  -- a character above 0x7F is none of those that the tracker asks for
  have hread : within.read c rest = (0, within) := by
    cases within with
    | code => simp [Within.read, hne]
    | quoted quote =>
      have hquote : quote = '"' ∨ quote = '\'' := by simpa [Within.mode, Mode.isAtByte] using hat
      rcases hquote with rfl | rfl <;> simp [Within.read, hne]
    | rawString => simp [Within.read, hne]
  have hdepth : within.depthAfter depth c = depth := by
    cases within <;> simp [Within.depthAfter, braceStep, hne]
  unfold Tracks
  rw [hread, hdepth]
  exact ⟨hat, 0, trail, track_high within depth hlead _, rfl, htrail⟩

/-- At every character the two trackers do the same. -/
theorem tracks {within : Within} {c : Char} {lead : UInt8} {trail : List UInt8}
    (hat : within.mode.isAtByte = true) (hencoded : IsEncoded c lead trail) (depth : Nat)
    (rest : List Char) : Tracks within depth c rest lead (trail ++ utf8 rest) := by
  cases hencoded with
  | high hc hbytes => exact tracks_high hat hc hbytes depth rest
  | ascii hc =>
    rw [List.nil_append]
    cases within with
    | code => exact tracks_code hc depth rest
    | quoted quote =>
      exact tracks_quoted hc (by simpa [Within.mode, Mode.isAtByte] using hat) depth rest
    | rawString => exact tracks_rawString hc depth rest

/-! ### Reading on -/

namespace ByteTracker

variable {bytes high : List UInt8} {within : Within} {pos depth stop : Nat}

theorem readTo?_of_le (h : stop ≤ pos) (mode : ByteMode) :
    readTo? bytes stop ⟨pos, depth, mode⟩ = some ⟨pos, depth, mode⟩ := by
  rw [readTo?, if_neg (Nat.not_lt_of_le h)]

theorem readTo?_of_drop_eq {b : UInt8} {after : List UInt8} (h : bytes.drop pos = b :: after)
    (hlt : pos < stop) {mode next : ByteMode} {along depth' : Nat}
    (htrack : mode.track depth b after = (along, depth', next)) :
    readTo? bytes stop ⟨pos, depth, mode⟩ =
      readTo? bytes stop ⟨pos + 1 + along, depth', next⟩ := by
  rw [readTo?, if_pos hlt, getElem?_of_drop_eq h, from?_of_drop_eq h]
  simp only [Option.bind_eq_bind, Option.bind_some, htrack]

/-- A tracker reads bytes of a character to their end, or up to the offset that it is asked for. -/
theorem exists_readTo?_high {tail : List UInt8} (hdrop : bytes.drop pos = high ++ tail)
    (hhigh : IsHigh high) :
    ∃ pos' high', readTo? bytes stop ⟨pos, depth, within.mode.bytes⟩ =
        readTo? bytes stop ⟨pos', depth, within.mode.bytes⟩ ∧
      bytes.drop pos' = high' ++ tail ∧ IsHigh high' ∧ (high' = [] ∨ stop ≤ pos') := by
  induction high generalizing pos with
  | nil => exact ⟨pos, [], rfl, hdrop, isHigh_nil, Or.inl rfl⟩
  | cons b high ih =>
    by_cases hlt : pos < stop
    · obtain ⟨hb, hrest⟩ := List.forall_mem_cons.1 hhigh
      rw [List.cons_append] at hdrop
      rw [readTo?_of_drop_eq hdrop hlt (track_high within depth hb _)]
      exact ih (drop_succ_of_drop_eq hdrop) hrest
    · exact ⟨pos, b :: high, rfl, hdrop, hhigh, Or.inr (Nat.le_of_not_lt hlt)⟩

/-- A tracker over bytes stands where a tracker over characters does, or within the character in
front of that place. -/
structure Follows (bytes : List UInt8) (byteTracker : ByteTracker) (tracker : DepthTracker) :
    Prop where
  isAtByte : tracker.within.mode.isAtByte = true
  mode_eq : byteTracker.mode = tracker.within.mode.bytes
  depth_eq : byteTracker.depth = tracker.depth
  drop_eq : ∃ high, IsHigh high ∧ bytes.drop byteTracker.pos = high ++ utf8 tracker.pending
  offset_eq : tracker.offset + byteLength tracker.pending = bytes.length

/-- **The two trackers stay together**, whatever offset they read on to.  The induction is on what
the tracker over characters has not read. -/
theorem exists_readTo? {pending : List Char} {along offset : Nat}
    (hat : within.mode.isAtByte = true) (hhigh : IsHigh high)
    (hdrop : bytes.drop pos = high ++ utf8 (pending.drop along))
    (hoffset : offset + byteLength pending = bytes.length) (target : Nat) :
    ∃ next, readTo? bytes (min target bytes.length) ⟨pos, depth, within.mode.bytes⟩ = some next ∧
      Follows bytes next
        (DepthTracker.advanceFrom target within along pending offset depth) := by
  induction pending generalizing within pos depth high along offset with
  | nil =>
    rw [List.drop_nil] at hdrop
    obtain ⟨pos', high', hread, hdrop', hhigh', hstop⟩ :=
      @exists_readTo?_high _ _ within _ depth (min target bytes.length) _ hdrop hhigh
    have hle : min target bytes.length ≤ pos' := by
      rcases hstop with rfl | hstop
      · exact Nat.le_trans (Nat.min_le_right _ _) (List.drop_eq_nil_iff.1 hdrop')
      · exact hstop
    refine ⟨_, hread.trans (readTo?_of_le hle _), ?_⟩
    rw [DepthTracker.advanceFrom]
    exact ⟨hat, rfl, rfl, ⟨high', hhigh', hdrop'⟩, hoffset⟩
  | cons c pending ih =>
    rw [byteLength_cons, ← Nat.add_assoc] at hoffset
    cases along with
    | succ along =>
      rw [DepthTracker.advanceFrom]
      exact ih hat hhigh hdrop hoffset
    | zero =>
      rw [List.drop_zero] at hdrop
      obtain ⟨pos', high', hread, hdrop', hhigh', hstop⟩ :=
        @exists_readTo?_high _ _ within _ depth (min target bytes.length) _ hdrop hhigh
      -- the offsets of the two trackers differ by the bytes that have been begun
      have hpos : pos' + high'.length = offset := by
        have hlength := congrArg List.length hdrop'
        rw [List.length_drop, List.length_append, length_utf8, byteLength_cons] at hlength
        have := c.utf8Size_pos
        omega
      rw [DepthTracker.advanceFrom]
      split
      · next hlt =>
        have hoffsetlt : offset < min target bytes.length := by
          have := c.utf8Size_pos
          omega
        obtain rfl : high' = [] := by
          rcases hstop with hstop | hstop
          · exact hstop
          · omega
        obtain rfl : pos' = offset := hpos
        obtain ⟨lead, trail, hbytes, hencoded⟩ := exists_isEncoded c
        obtain ⟨hat', along, rest, htrack, hafter, hrest⟩ := tracks hat hencoded depth pending
        rw [List.nil_append, utf8_cons, hbytes, List.cons_append] at hdrop'
        have hstep : readTo? bytes (min target bytes.length) ⟨pos', depth, within.mode.bytes⟩ = _ :=
          readTo?_of_drop_eq hdrop' hoffsetlt htrack
        rw [hread, hstep]
        refine ih hat' hrest ?_ hoffset
        rw [← List.drop_drop, drop_succ_of_drop_eq hdrop', hafter]
        rfl
      · next hge =>
        have hle : min target bytes.length ≤ pos' := by
          rcases hstop with rfl | hstop
          · obtain rfl : pos' = offset := hpos
            exact Nat.le_trans (Nat.min_le_left _ _) (Nat.le_of_not_lt hge)
          · exact hstop
        refine ⟨_, hread.trans (readTo?_of_le hle _), hat, rfl, rfl, ⟨high', hhigh', hdrop'⟩, ?_⟩
        show offset + (c.utf8Size + byteLength pending) = bytes.length
        rw [← Nat.add_assoc, hoffset]

theorem Follows.exists_advance {byteTracker : ByteTracker} {tracker : DepthTracker}
    (h : Follows bytes byteTracker tracker) (target : Nat) :
    ∃ next, byteTracker.readTo? bytes (min target bytes.length) = some next ∧
      Follows bytes next (tracker.advance target) := by
  obtain ⟨high, hhigh, hdrop⟩ := h.drop_eq
  obtain ⟨pos, depth, mode⟩ := byteTracker
  obtain rfl : mode = _ := h.mode_eq
  obtain rfl : depth = _ := h.depth_eq
  have hdrop' : bytes.drop pos = high ++ utf8 (tracker.pending.drop 0) := hdrop
  exact exists_readTo? h.isAtByte hhigh hdrop' h.offset_eq target

/-- **No index and no cut of a tracker fails**, and it answers what the tracker over characters
does, whatever the offsets and their order. -/
theorem Follows.depths?_eq {byteTracker : ByteTracker} {tracker : DepthTracker}
    (h : Follows bytes byteTracker tracker) (offsets : List Nat) :
    byteTracker.depths? bytes offsets = some (tracker.depths offsets) := by
  induction offsets generalizing byteTracker tracker with
  | nil => rfl
  | cons target targets ih =>
    obtain ⟨next, hread, hnext⟩ := h.exists_advance target
    simp only [depths?, hread, Option.bind_eq_bind, Option.bind_some, ih hnext, hnext.depth_eq]
    rfl

theorem depths?_start (text : List Char) (offsets : List Nat) :
    start.depths? (utf8 text) offsets = some ((DepthTracker.ofText text).depths offsets) := by
  have hstart : Follows (utf8 text) start (DepthTracker.ofText text) :=
    ⟨rfl, rfl, rfl, ⟨[], isHigh_nil, rfl⟩, by simp [DepthTracker.ofText]⟩
  exact hstart.depths?_eq offsets

end ByteTracker

end RpcBinder.Lexis
