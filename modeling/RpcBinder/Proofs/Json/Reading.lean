import RpcBinder.Json.Printer
import RpcBinder.Json.Reader
import RpcBinder.Proofs.Text.Parts

/-!
# Reading what was written

The text of a value is read back as the value.  A character in a literal is read from what was
written for it alone, and so is a value from its text: no mark of the grammar needs a look at
what stands behind it, numbers apart, and these are left out here.

## Main definitions

* `IsEscape` — the ways in which a character stands in a literal.
* `Piece.StandsFor` — a piece of a literal that stands for a character.
* `NumberFree` — a value without numbers.
* `IsReadBack` — a value that is read back from its text, at any depth and with any text behind.

## Main results

* `readLiteral?_flatMap` — a literal is read back.
* `NumberFree.isReadBack` — **a value without numbers is read back.**
* `parse?_pretty` — the text of such a value holds the value and nothing else.
-/

namespace RpcBinder.Json

/-! ### Characters -/

/-- A character stands in a literal behind a backslash, by its number, or as it is. -/
inductive IsEscape (c : Char) : List Char → Prop
  | short {letter : Char} (h : escaped? letter = some c) : IsEscape c ['\\', letter]
  | unit (h : c.toNat < 0x20) :
      IsEscape c ['\\', 'u', '0', '0', hexDigit (c.toNat / 16), hexDigit (c.toNat % 16)]
  | plain (hquote : c ≠ '"') (hbackslash : c ≠ '\\') (hcontrol : 0x20 ≤ c.toNat) : IsEscape c [c]

theorem isEscape_escape (c : Char) : IsEscape c (escape c) := by
  unfold escape
  split_ifs with hquote hbackslash hfeed hreturn htab hback hform hcontrol
  · exact .short (congrArg some (eq_of_beq hquote).symm)
  · exact .short (congrArg some (eq_of_beq hbackslash).symm)
  · exact .short (congrArg some (eq_of_beq hfeed).symm)
  · exact .short (congrArg some (eq_of_beq hreturn).symm)
  · exact .short (congrArg some (eq_of_beq htab).symm)
  · exact .short (congrArg some (Char.toNat_inj.1 (eq_of_beq hback)).symm)
  · exact .short (congrArg some (Char.toNat_inj.1 (eq_of_beq hform)).symm)
  · exact .unit hcontrol
  · exact .plain (by simpa using hquote) (by simpa using hbackslash) (Nat.le_of_not_lt hcontrol)

/-- A piece of a literal stands for a character: as itself, or by its number. -/
inductive Piece.StandsFor : Piece → Char → Prop
  | char (c : Char) : StandsFor (.char c) c
  | unit {c : Char} (h : c.toNat < 0x20) : StandsFor (.unit c.toNat) c

theorem hexValue?_hexDigit : ∀ n < 16, hexValue? (hexDigit n) = some n := by decide

theorem readPieces?_short {letter c : Char} (h : escaped? letter = some c) (rest : List Char) :
    readPieces? ('\\' :: letter :: rest) =
      (readPieces? rest).map fun (pieces, after) => (.char c :: pieces, after) := by
  have hunit : letter ≠ 'u' := by
    rintro rfl
    cases h
  rw [readPieces?, h]
  · cases readPieces? rest <;> rfl
  · rintro _ _ _ _ _ rfl
    exact absurd rfl hunit

theorem readPieces?_unit {c : Char} (h : c.toNat < 0x20) (rest : List Char) :
    readPieces? ('\\' :: 'u' :: '0' :: '0' :: hexDigit (c.toNat / 16) ::
        hexDigit (c.toNat % 16) :: rest) =
      (readPieces? rest).map fun (pieces, after) => (.unit c.toNat :: pieces, after) := by
  have hzero : hexValue? '0' = some 0 := rfl
  have hvalue : 16 * (16 * (16 * 0 + 0) + c.toNat / 16) + c.toNat % 16 = c.toNat := by omega
  rw [readPieces?, hzero, hexValue?_hexDigit _ (by omega), hexValue?_hexDigit _ (by omega)]
  simp only [Option.bind_eq_bind, Option.bind_some, hvalue]
  cases readPieces? rest <;> rfl

theorem readPieces?_plain {c : Char} (hquote : c ≠ '"') (hbackslash : c ≠ '\\')
    (hcontrol : 0x20 ≤ c.toNat) (rest : List Char) :
    readPieces? (c :: rest) =
      (readPieces? rest).map fun (pieces, after) => (.char c :: pieces, after) := by
  have hallowed : (decide (c.toNat < 0x20) || c == '\\') = false := by
    simp [hbackslash, hcontrol]
  rw [readPieces?, hallowed]
  · cases readPieces? rest <;> rfl
  · exact hquote
  · exact fun _ _ _ _ _ h => absurd h hbackslash
  · exact fun _ _ h => absurd h hbackslash

/-- A character is read from what was written for it, whatever stands behind it. -/
theorem exists_readPieces?_escape (c : Char) :
    ∃ piece, Piece.StandsFor piece c ∧ ∀ rest, readPieces? (escape c ++ rest) =
      (readPieces? rest).map fun (pieces, after) => (piece :: pieces, after) := by
  have hescape := isEscape_escape c
  generalize escape c = written at hescape ⊢
  cases hescape with
  | short h => exact ⟨_, .char c, readPieces?_short h⟩
  | unit h => exact ⟨_, .unit h, readPieces?_unit h⟩
  | plain hquote hbackslash hcontrol =>
    exact ⟨_, .char c, readPieces?_plain hquote hbackslash hcontrol⟩

/-! ### Literals -/

theorem exists_readPieces?_flatMap (text rest : List Char) :
    ∃ pieces, List.Forall₂ Piece.StandsFor pieces text ∧
      readPieces? (text.flatMap escape ++ '"' :: rest) = some (pieces, rest) := by
  induction text with
  | nil => exact ⟨[], .nil, rfl⟩
  | cons c text ih =>
    obtain ⟨pieces, hpieces, hread⟩ := ih
    obtain ⟨piece, hpiece, hescape⟩ := exists_readPieces?_escape c
    refine ⟨piece :: pieces, .cons hpiece hpieces, ?_⟩
    rw [List.flatMap_cons, List.append_assoc, hescape, hread]
    rfl

theorem joinPieces?_cons {piece : Piece} {c : Char} (h : Piece.StandsFor piece c)
    (pieces : List Piece) : joinPieces? (piece :: pieces) = (joinPieces? pieces).map (c :: ·) := by
  cases h with
  | char => rw [joinPieces?]
  | unit hcontrol =>
    -- a number below the space is no half of a pair, whatever piece comes next
    have hhigh : isHighSurrogate c.toNat = false := by simp [isHighSurrogate]; omega
    have hlow : isLowSurrogate c.toNat = false := by simp [isLowSurrogate]; omega
    have hself := Char.ofNat_toNat c
    match pieces with
    | [] => simp [joinPieces?, hhigh, hlow, hself]
    | .char _ :: _ => simp [joinPieces?, hhigh, hlow, hself]
    | .unit _ :: _ => simp [joinPieces?, hhigh, hlow, hself]

theorem joinPieces?_of_forall₂ {pieces : List Piece} {text : List Char}
    (h : List.Forall₂ Piece.StandsFor pieces text) : joinPieces? pieces = some text := by
  induction h with
  | nil => rfl
  | cons hpiece _ ih =>
    rw [joinPieces?_cons hpiece, ih]
    rfl

/-- A literal is read back from what was written for it. -/
theorem readLiteral?_flatMap (text : String) (rest : List Char) :
    readLiteral? (text.toList.flatMap escape ++ '"' :: rest) = some (some text, rest) := by
  obtain ⟨pieces, hpieces, hread⟩ := exists_readPieces?_flatMap text.toList rest
  rw [readLiteral?, hread]
  simp [joinPieces?_of_forall₂ hpieces]

/-- What is written for a literal begins with a quotation mark, and is read back behind it.  This
holds for one without a text, too: half of a pair stands for none. -/
theorem exists_quote?_eq (text? : Option String) :
    ∃ body, quote? text? = '"' :: body ∧
      ∀ rest, readLiteral? (body ++ rest) = some (text?, rest) := by
  cases text? with
  | none => exact ⟨_, rfl, fun _ => rfl⟩
  | some text =>
    refine ⟨text.toList.flatMap escape ++ ['"'], rfl, fun rest => ?_⟩
    rw [List.append_assoc]
    exact readLiteral?_flatMap text rest

/-! ### Blanks -/

theorem skipBlanks_cons {c : Char} (h : isBlankChar c = false) (text : List Char) :
    skipBlanks (c :: text) = c :: text :=
  List.dropWhile_cons_of_neg (by simp [h])

theorem skipBlanks_space (text : List Char) : skipBlanks (' ' :: text) = skipBlanks text := rfl

theorem skipBlanks_newLine (depth : Nat) (text : List Char) :
    skipBlanks (newLine depth ++ text) = skipBlanks text := by
  refine List.dropWhile_append_of_pos fun c hc => ?_
  rcases List.mem_cons.1 hc with rfl | hc
  · rfl
  · rw [List.eq_of_mem_replicate hc]
    rfl

section Blanks

variable {s t : List Char} (h : skipBlanks s = skipBlanks t) (n : Nat)

include h

theorem readValue?_congr : readValue? n s = readValue? n t := by
  cases n with
  | zero => rfl
  | succ n => rw [readValue?, readValue?, h]

theorem readItems?_congr : readItems? n s = readItems? n t := by
  cases n with
  | zero => rfl
  | succ n => rw [readItems?, readItems?, readValue?_congr h]

theorem readMembers?_congr : readMembers? n s = readMembers? n t := by
  cases n with
  | zero => rfl
  | succ n => rw [readMembers?, readMembers?, h]

end Blanks

/-! ### Values -/

/-- A value is read back from its text, with any text behind it.  A reading takes at most two
steps for each character. -/
def IsReadBack (value : Json) : Prop :=
  ∀ depth n rest, 2 * (write depth value).length ≤ n →
    readValue? n (write depth value ++ rest) = some (value, rest)

/-! ### Arrays -/

section Items

variable {n depth : Nat} {text more rest : List Char} {item : Json} {items : List Json}

theorem readItems?_last (h : readValue? n text = some (item, newLine depth ++ ']' :: rest)) :
    readItems? (n + 1) text = some ([item], rest) := by
  rw [readItems?, h]
  simp only [Option.bind_eq_bind, Option.bind_some, skipBlanks_newLine]
  rfl

theorem readItems?_next (h : readValue? n text = some (item, ',' :: newLine depth ++ more))
    (hmore : readItems? n more = some (items, rest)) :
    readItems? (n + 1) text = some (item :: items, rest) := by
  rw [← readItems?_congr (skipBlanks_newLine depth more)] at hmore
  have hcomma : skipBlanks (',' :: newLine depth ++ more) = ',' :: (newLine depth ++ more) := rfl
  rw [readItems?, h]
  simp only [Option.bind_eq_bind, Option.bind_some, hcomma, hmore]
  rfl

theorem readValue?_array {c : Char} (hc : isBlankChar c = false) (hclose : c ≠ ']')
    (h : readItems? n (c :: text) = some (items, rest)) :
    readValue? (n + 1) ('[' :: newLine depth ++ c :: text) = some (.array items, rest) := by
  have hopen : skipBlanks ('[' :: newLine depth ++ c :: text) =
      '[' :: (newLine depth ++ c :: text) := rfl
  rw [readValue?, hopen]
  simp only [skipBlanks_newLine, skipBlanks_cons hc]
  split
  · next hmark => exact absurd (List.cons.inj hmark).1 hclose
  · rw [h]
    rfl

end Items

/-- The items of an array are read one after the other. -/
theorem readItems?_write {item : Json} {items : List Json}
    (h : ∀ value ∈ item :: items, IsReadBack value) (depth outer n : Nat) (rest : List Char)
    (hn : 2 * ((write depth item).length + (writeItems depth items).length) < n) :
    readItems? n (write depth item ++ writeItems depth items ++ newLine outer ++ ']' :: rest) =
      some (item :: items, rest) := by
  induction items generalizing item n with
  | nil =>
    obtain ⟨n, rfl⟩ : ∃ m, n = m + 1 := Nat.exists_eq_add_one_of_ne_zero (by omega)
    rw [writeItems, List.append_nil, List.append_assoc]
    exact readItems?_last (h item List.mem_cons_self depth n _ (by omega))
  | cons next items ih =>
    obtain ⟨hitem, hitems⟩ := List.forall_mem_cons.1 h
    obtain ⟨n, rfl⟩ : ∃ m, n = m + 1 := Nat.exists_eq_add_one_of_ne_zero (by omega)
    -- the value in front uses up its part of the steps, and the others have theirs left
    simp only [writeItems, List.length_append, List.length_cons] at hn
    have hmore := ih hitems n (by omega)
    have hread := hitem depth n
      (writeItems depth (next :: items) ++ newLine outer ++ ']' :: rest) (by omega)
    rw [writeItems] at hread ⊢
    simp only [List.append_assoc, List.cons_append] at hread hmore ⊢
    exact readItems?_next hread hmore

/-! ### Objects -/

section Members

variable {n depth : Nat} {text more rest : List Char} {key : Option String} {value : Json}
  {members : List (Option String × Json)}

theorem readMembers?_eq (n : Nat) (key : Option String) (text : List Char) :
    readMembers? (n + 1) (quote? key ++ ':' :: ' ' :: text) =
      (readValue? n text).bind fun (value, rest) =>
        match skipBlanks rest with
        | ',' :: rest => (readMembers? n rest).bind fun (members, after) =>
            some ((key, value) :: members, after)
        | '\x7d' :: after => some ([(key, value)], after)
        | _ => none := by
  obtain ⟨body, hbody, hkey⟩ := exists_quote?_eq key
  have hopen : skipBlanks ('"' :: body ++ ':' :: ' ' :: text) =
      '"' :: (body ++ ':' :: ' ' :: text) := rfl
  have hcolon : skipBlanks (':' :: ' ' :: text) = ':' :: ' ' :: text := rfl
  rw [hbody, readMembers?, hopen]
  simp only [hkey, hcolon, Option.bind_eq_bind, Option.bind_some,
    readValue?_congr (skipBlanks_space text)]
  rfl

theorem readMembers?_last (h : readValue? n text = some (value, newLine depth ++ '\x7d' :: rest)) :
    readMembers? (n + 1) (quote? key ++ ':' :: ' ' :: text) = some ([(key, value)], rest) := by
  rw [readMembers?_eq, h]
  simp only [Option.bind_some, skipBlanks_newLine]
  rfl

theorem readMembers?_next (h : readValue? n text = some (value, ',' :: newLine depth ++ more))
    (hmore : readMembers? n more = some (members, rest)) :
    readMembers? (n + 1) (quote? key ++ ':' :: ' ' :: text) =
      some ((key, value) :: members, rest) := by
  rw [← readMembers?_congr (skipBlanks_newLine depth more)] at hmore
  have hcomma : skipBlanks (',' :: newLine depth ++ more) = ',' :: (newLine depth ++ more) := rfl
  rw [readMembers?_eq, h]
  simp only [Option.bind_some, hcomma, hmore]

theorem readValue?_object (h : readMembers? n ('"' :: text) = some (members, rest)) :
    readValue? (n + 1) ('\x7b' :: newLine depth ++ '"' :: text) =
      some (.object members, rest) := by
  have hopen : skipBlanks ('\x7b' :: newLine depth ++ '"' :: text) =
      '\x7b' :: (newLine depth ++ '"' :: text) := rfl
  have hquote : skipBlanks ('"' :: text) = '"' :: text := rfl
  rw [readValue?, hopen]
  simp only [skipBlanks_newLine, hquote]
  change (readMembers? n ('"' :: text)).map _ = _
  rw [h]
  rfl

end Members

/-- The members of an object are read one after the other. -/
theorem readMembers?_write {key : Option String} {value : Json}
    {members : List (Option String × Json)}
    (h : ∀ member ∈ (key, value) :: members, IsReadBack member.2) (depth outer n : Nat)
    (rest : List Char)
    (hn : 2 * ((writeMember depth (key, value)).length +
      (writeMembers depth members).length) < n) :
    readMembers? n (writeMember depth (key, value) ++ writeMembers depth members ++
        newLine outer ++ '\x7d' :: rest) = some ((key, value) :: members, rest) := by
  induction members generalizing key value n with
  | nil =>
    obtain ⟨n, rfl⟩ : ∃ m, n = m + 1 := Nat.exists_eq_add_one_of_ne_zero (by omega)
    simp only [writeMember, List.length_append, List.length_cons] at hn
    have hvalue : IsReadBack value := h (key, value) List.mem_cons_self
    have hread := hvalue depth n
      (newLine outer ++ '\x7d' :: rest) (by omega)
    simp only [writeMember, writeMembers, List.append_assoc, List.cons_append, List.nil_append]
    exact readMembers?_last hread
  | cons next members ih =>
    obtain ⟨nextKey, nextValue⟩ := next
    obtain ⟨hvalue, hmembers⟩ := List.forall_mem_cons.1 h
    dsimp only at hvalue
    obtain ⟨n, rfl⟩ : ∃ m, n = m + 1 := Nat.exists_eq_add_one_of_ne_zero (by omega)
    rw [writeMembers, List.length_append, List.length_append, List.length_cons] at hn
    have hmore := ih hmembers n (by omega)
    rw [writeMember, List.length_append, List.length_cons, List.length_cons] at hn
    have hread := hvalue depth n
      (writeMembers depth ((nextKey, nextValue) :: members) ++ newLine outer ++ '\x7d' :: rest)
      (by omega)
    rw [writeMembers] at hread ⊢
    rw [writeMember]
    simp only [List.append_assoc, List.cons_append] at hread hmore ⊢
    exact readMembers?_next hread hmore

/-! ### Values without numbers -/

/-- A value that holds no number. -/
inductive NumberFree : Json → Prop
  | null : NumberFree .null
  | bool (value : Bool) : NumberFree (.bool value)
  | literal (text? : Option String) : NumberFree (.literal text?)
  | array {items : List Json} (h : ∀ item ∈ items, NumberFree item) : NumberFree (.array items)
  | object {members : List (Option String × Json)} (h : ∀ member ∈ members, NumberFree member.2) :
      NumberFree (.object members)

/-- The text of a value begins with a mark, and not with one that ends an array. -/
theorem NumberFree.exists_write_eq {value : Json} (h : value.NumberFree) (depth : Nat) :
    ∃ c text, write depth value = c :: text ∧ isBlankChar c = false ∧ c ≠ ']' := by
  cases h with
  | null => exact ⟨_, _, rfl, by decide, by decide⟩
  | bool value => cases value <;> exact ⟨_, _, rfl, by decide, by decide⟩
  | literal text? =>
    obtain ⟨body, hbody, -⟩ := exists_quote?_eq text?
    exact ⟨_, body, hbody, by decide, by decide⟩
  | @array items => cases items <;> exact ⟨_, _, rfl, by decide, by decide⟩
  | @object members => cases members <;> exact ⟨_, _, rfl, by decide, by decide⟩

theorem NumberFree.exists_steps_eq {value : Json} (h : value.NumberFree) {depth n : Nat}
    (hn : 2 * (write depth value).length ≤ n) : ∃ m, n = m + 1 := by
  obtain ⟨c, text, hwrite, -⟩ := h.exists_write_eq depth
  rw [hwrite, List.length_cons] at hn
  exact Nat.exists_eq_add_one_of_ne_zero (by omega)

/-- **A value without numbers is read back.**  The steps that a value may take are bounded by its
text, so those that its items need are left over. -/
theorem NumberFree.isReadBack {value : Json} (h : value.NumberFree) : IsReadBack value := by
  induction h with
  | null =>
    intro depth n rest hn
    obtain ⟨n, rfl⟩ := NumberFree.null.exists_steps_eq hn
    rfl
  | bool value =>
    intro depth n rest hn
    obtain ⟨n, rfl⟩ := (NumberFree.bool value).exists_steps_eq hn
    cases value <;> rfl
  | literal text? =>
    intro depth n rest hn
    obtain ⟨n, rfl⟩ := (NumberFree.literal text?).exists_steps_eq hn
    obtain ⟨body, hbody, hread⟩ := exists_quote?_eq text?
    have hopen : skipBlanks ('"' :: (body ++ rest)) = '"' :: (body ++ rest) := rfl
    rw [write, hbody, List.cons_append, readValue?, hopen]
    simp only [hread]
    rfl
  | @array items h ih =>
    intro depth n rest hn
    obtain ⟨n, rfl⟩ := (NumberFree.array h).exists_steps_eq hn
    cases items with
    | nil => rfl
    | cons item items =>
      -- the text of the first value begins with no blank and no bracket, so the list goes on
      obtain ⟨c, text, hwrite, hblank, hclose⟩ :=
        (h item List.mem_cons_self).exists_write_eq (depth + 1)
      simp only [write, List.length_append, List.length_cons] at hn
      have hitems := readItems?_write ih (depth + 1) depth n rest (by omega)
      rw [hwrite] at hitems
      rw [write, hwrite]
      simp only [List.append_assoc, List.cons_append, List.nil_append] at hitems ⊢
      exact readValue?_array hblank hclose hitems
  | @object members h ih =>
    intro depth n rest hn
    obtain ⟨n, rfl⟩ := (NumberFree.object h).exists_steps_eq hn
    cases members with
    | nil => rfl
    | cons member members =>
      obtain ⟨key, value⟩ := member
      obtain ⟨body, hbody, -⟩ := exists_quote?_eq key
      simp only [write, List.length_append, List.length_cons] at hn
      have hmembers := readMembers?_write ih (depth + 1) depth n rest (by omega)
      rw [writeMember, hbody] at hmembers
      rw [write, writeMember, hbody]
      simp only [List.append_assoc, List.cons_append, List.nil_append] at hmembers ⊢
      exact readValue?_object hmembers

/-- The text of a value without numbers holds the value and nothing else. -/
theorem parse?_pretty {value : Json} (h : value.NumberFree) : parse? value.pretty = some value := by
  have hread := h.isReadBack 0 (2 * (write 0 value).length + 2) [] (by omega)
  rw [List.append_nil] at hread
  rw [parse?, pretty, String.toList_ofList, hread]
  rfl

end RpcBinder.Json
