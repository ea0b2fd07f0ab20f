import RpcBinder.Proofs.Declaration.AnchorHead
import RpcBinder.Proofs.Declaration.Headers

/-!
# Keys and values in the tag of an anchor

The arguments of a tag are searched for keys with their values, one match behind the other.  A
match takes a pair as a whole, so nothing is searched for within a value, whatever the value looks
like, and the comma between two pairs begins no pair.  Each pair is recorded over what was said
before, so of several pairs with one key the last one counts, and a blank route takes back an
earlier one.

## Main definitions

* `WrittenValue`, `KeyValue` — a value and a pair as they may be written.
* `KeyValue.listText` — pairs between parentheses.
* `KeyValue.lastValue?`, `KeyValue.said` — the value that counts for a key, and what pairs say.

## Main results

* `KeyValue.reads` — the shape of an argument reads a pair up to a comma or a parenthesis.
* `parseAnchorArguments_eq_foldl` — pairs are recorded one after the other.
* `KeyValue.foldl_record` — recording them leaves what the last pairs say.
* `parseAnchorArguments_listText` — **what printed arguments say.**
-/

namespace RpcBinder.Declaration

open Pattern

/-! ### Values -/

/-- A value as it may be written. -/
inductive WrittenValue
  /-- A text in quotes. -/
  | quoted (text : List Char)
  /-- A text without quotes. -/
  | bare (text : List Char)

namespace WrittenValue

/-- The value without its quotes. -/
def text : WrittenValue → List Char
  | .quoted text => text
  | .bare text => text

/-- The value as it is printed. -/
def printed : WrittenValue → List Char
  | .quoted text => '"' :: (text ++ ['"'])
  | .bare text => text

/-- The part that holds the value. -/
def valuePart : WrittenValue → Part
  | .quoted _ => .quoted
  | .bare _ => .bare

/-- A character of a value without quotes. -/
def isTokenChar (c : Char) : Bool :=
  c != ',' && c != ')' && c != '"' && !isSpace c

/-- A value in quotes may hold anything but a quote. -/
def IsWellFormed : WrittenValue → Prop
  | .quoted text => '"' ∉ text
  | .bare text => IsRun isTokenChar text

instance : DecidablePred IsWellFormed
  | .quoted text => inferInstanceAs (Decidable ('"' ∉ text))
  | .bare text => inferInstanceAs (Decidable (IsRun isTokenChar text))

variable {value : WrittenValue} {rest : List Char}

/-- A value does not begin with white space. -/
theorem head?_printed (h : value.IsWellFormed) :
    ∀ c ∈ (value.printed ++ rest).head?, isSpace c = false := by
  intro c hc
  cases value with
  | quoted text =>
    obtain rfl : '"' = c := Option.some.inj hc
    decide
  | bare text =>
    have htoken := Shape.head?_append_of_isRun h hc
    simp only [isTokenChar, Bool.and_eq_true, Bool.not_eq_true'] at htoken
    exact htoken.2

/-- A value is read up to a comma or a parenthesis. -/
theorem reads (h : value.IsWellFormed) (hrest : ∀ c ∈ rest.head?, c = ',' ∨ c = ')') :
    Reads (either (Shape.word "\"" ++ part Part.quoted (stretch (· != '"')) ++ Shape.word "\"")
        (part Part.bare (stretch1 fun c => c != ',' && c != ')' && !isSpace c)))
      value.printed rest [(value.valuePart, value.text)] := by
  cases value with
  | quoted text =>
    have hall : text.all (· != '"') = true :=
      List.all_eq_true.2 fun c hc => bne_iff_ne.2 (ne_of_mem_of_not_mem hc h)
    have htext : Reads (part Part.quoted (stretch (· != '"'))) text (['"'] ++ rest)
        [(Part.quoted, text)] := (reads_stretch hall (by simp)).part Part.quoted
    exact (((reads_literal ['"'] _).seq htext).seq (reads_literal ['"'] _)).either _
  | bare text =>
    have hstop : ∀ c ∈ rest.head?, (c != ',' && c != ')' && !isSpace c) = false := by
      intro c hc
      rcases hrest c hc with rfl | rfl <;> decide
    have hrun : IsRun (fun c => c != ',' && c != ')' && !isSpace c) text := by
      refine IsRun.mono h fun c hc => ?_
      simp only [isTokenChar, Bool.and_eq_true] at hc ⊢
      exact ⟨hc.1.1, hc.2⟩
    -- the value begins with no quote, so it is not taken for one in quotes
    have hmiss : Misses (Shape.word "\"" : Pattern Part) (text ++ rest) := by
      obtain ⟨c, more, rfl⟩ := List.exists_cons_of_ne_nil hrun.ne_nil
      have hquote : c ≠ '"' := ne_of_class (h.forall_char c List.mem_cons_self) (by decide)
      exact misses_literal_cons hquote _ _
    exact reads_either_of_misses ((hmiss.seq _).seq _)
      ((reads_stretch1 hrun hstop).part Part.bare)

end WrittenValue

/-! ### Pairs -/

/-- A key with its value as they may be written. -/
structure KeyValue where
  /-- The key. -/
  key : List Char
  /-- The white space in front of the sign between the two. -/
  before : List Char
  /-- The white space behind it. -/
  behind : List Char
  /-- The value. -/
  value : WrittenValue

namespace KeyValue

/-- The text of a pair. -/
def text (pair : KeyValue) : List Char :=
  pair.key ++ (pair.before ++ '=' :: (pair.behind ++ pair.value.printed))

/-- The text of pairs between their parentheses. -/
def listText (pairs : List KeyValue) : List Char :=
  '(' :: ([',', ' '].intercalate (pairs.map text) ++ [')'])

/-- The key is an ASCII name, and there may be white space around the sign. -/
structure IsWellFormed (pair : KeyValue) : Prop where
  key : IsAsciiName pair.key
  before : isBlank pair.before = true
  behind : isBlank pair.behind = true
  value : pair.value.IsWellFormed

instance : DecidablePred IsWellFormed := fun pair =>
  decidable_of_iff (IsAsciiName pair.key ∧ isBlank pair.before = true ∧
      isBlank pair.behind = true ∧ pair.value.IsWellFormed)
    ⟨fun h => ⟨h.1, h.2.1, h.2.2.1, h.2.2.2⟩, fun h => ⟨h.key, h.before, h.behind, h.value⟩⟩

variable {pair : KeyValue} {pairs : List KeyValue} {rest : List Char}

theorem reads_key (h : IsAsciiName pair.key) (hrest : ∀ c ∈ rest.head?, isWord c = false) :
    Reads (part Part.key (one isNameStart ++ stretch isWord)) pair.key rest
      [(Part.key, pair.key)] := by
  obtain ⟨key, before, behind, value⟩ := pair
  cases key with
  | nil => exact h.elim
  | cons c key =>
    have hkey : key.all isWord = true :=
      List.all_eq_true.2 fun d hd => isWord_of_isNamePart (h.2 d hd)
    exact ((reads_one h.1 _).seq (reads_stretch hkey hrest)).part Part.key

/-- A pair is read up to a comma or a parenthesis. -/
theorem reads (h : pair.IsWellFormed) (hrest : ∀ c ∈ rest.head?, c = ',' ∨ c = ')') :
    Reads Shape.anchorArgument pair.text rest
      [(Part.key, pair.key), (pair.value.valuePart, pair.value.text)] := by
  have hsign : isWord '=' = false := by decide +kernel
  -- key, blank, sign, blank, value: each part ends where the next one begins
  have hkey := reads_key h.key
    (head?_blank_append h.before hsign (pair.behind ++ (pair.value.printed ++ rest)))
  have hbefore : Reads Shape.spaces pair.before
      (['='] ++ (pair.behind ++ (pair.value.printed ++ rest))) [] :=
    Shape.reads_spaces h.before (by simp; decide)
  have hbehind : Reads Shape.spaces pair.behind (pair.value.printed ++ rest) [] :=
    Shape.reads_spaces h.behind (WrittenValue.head?_printed h.value)
  have htext : pair.text =
      pair.key ++ pair.before ++ ['='] ++ pair.behind ++ pair.value.printed := by simp [text]
  rw [htext]
  exact (((hkey.seq hbefore).seq (reads_literal ['='] _)).seq hbehind).seq
    (WrittenValue.reads h.value hrest)

theorem text_ne_nil (pair : KeyValue) : pair.text ≠ [] := by simp [text]

/-- What stands in front of the pairs behind another one. -/
def mark : List KeyValue → List Char
  | [] => []
  | _ :: _ => [',', ' ']

theorem intercalate_cons_append (pair : KeyValue) (pairs : List KeyValue) (rest : List Char) :
    [',', ' '].intercalate ((pair :: pairs).map text) ++ rest =
      pair.text ++ (mark pairs ++ ([',', ' '].intercalate (pairs.map text) ++ rest)) := by
  cases pairs with
  | nil => simp [mark]
  | cons other pairs => simp [mark, List.intercalate_cons_cons]

end KeyValue

/-! ### Searching the arguments -/

/-- A pair begins with the first character of a name. -/
theorem misses_anchorArgument {text : List Char} (h : ∀ c ∈ text.head?, isNameStart c = false) :
    Misses Shape.anchorArgument text := by
  have hkey : Misses (one isNameStart ++ stretch isWord : Pattern Part) text := (misses_one h).seq _
  exact ((((hkey.part Part.key).seq _).seq _).seq _).seq _

namespace KeyValue

variable {pairs : List KeyValue}

/-- What the search for pairs finds. -/
theorem exists_finds (h : ∀ pair ∈ pairs, pair.IsWellFormed) :
    ∃ founds : List (Found Part),
      Shape.anchorArgument.Finds ([',', ' '].intercalate (pairs.map text) ++ [')']) founds ∧
      founds.map Found.parts = pairs.map fun pair =>
        [(Part.key, pair.key), (pair.value.valuePart, pair.value.text)] := by
  have hmiss : ∀ c ∈ [',', ' ', ')'], ∀ rest, Misses Shape.anchorArgument (c :: rest) := by
    intro c hc rest
    have hstart : ∀ c ∈ [',', ' ', ')'], isNameStart c = false := by simp; decide
    exact misses_anchorArgument (by simpa using hstart c hc)
  induction pairs with
  | nil =>
    have hclose : Shape.anchorArgument.Finds [')'] [] :=
      .skip (hmiss ')' (by simp) _) (.nil (misses_anchorArgument (by simp)))
    exact ⟨[], hclose, rfl⟩
  | cons pair pairs ih =>
    obtain ⟨hpair, hpairs⟩ := List.forall_mem_cons.1 h
    obtain ⟨founds, hfounds, hparts⟩ := ih hpairs
    have hmark : ∀ c ∈ mark pairs, c ∈ [',', ' ', ')'] := by cases pairs <;> simp [mark]
    -- behind a pair there is the comma of the next one or the parenthesis
    have hstop : ∀ c ∈ (mark pairs ++
        ([',', ' '].intercalate (pairs.map text) ++ [')'])).head?, c = ',' ∨ c = ')' := by
      cases pairs <;> simp [mark]
    have hrest := Finds.append (fun c hc => hmiss c (hmark c hc)) hfounds
    rw [intercalate_cons_append]
    refine ⟨_, .take (reads hpair hstop) pair.text_ne_nil hrest, ?_⟩
    rw [List.map_cons, List.map_cons, hparts]

end KeyValue

/-- Printed pairs are recorded one after the other. -/
theorem parseAnchorArguments_eq_foldl {pairs : List KeyValue}
    (h : ∀ pair ∈ pairs, pair.IsWellFormed) :
    parseAnchorArguments (KeyValue.listText pairs) =
      pairs.foldl (fun known pair => known.record pair.key pair.value.text) {} := by
  obtain ⟨founds, hfounds, hparts⟩ := KeyValue.exists_finds h
  have hopen : Misses Shape.anchorArgument (KeyValue.listText pairs) :=
    misses_anchorArgument (by simp [KeyValue.listText]; decide)
  -- the matches are the pairs in order, with what they capture
  have hall := (Finds.skip hopen hfounds).forall₂_findAll
  let record (known : AnchorArguments) (parts : List (Part × List Char)) : AnchorArguments :=
    known.record ((parts.lookup .key).getD [])
      ((parts.lookup .quoted).getD ((parts.lookup .bare).getD []))
  have hfold : parseAnchorArguments (KeyValue.listText pairs) =
      founds.foldl (fun known found => record known found.parts) {} := by
    refine foldl_eq_of_forall₂ hall (fun found actual hdescribes known => ?_) _
    simp only [Match.part, hdescribes.part?, record]
  -- a value is recorded alike, quoted or bare
  have hrecord : ∀ known (pair : KeyValue),
      record known [(Part.key, pair.key), (pair.value.valuePart, pair.value.text)] =
        known.record pair.key pair.value.text := by
    intro known pair
    cases hvalue : pair.value <;> rfl
  rw [hfold, ← List.foldl_map (f := Found.parts) (g := record), hparts, List.foldl_map]
  simp only [hrecord]

/-! ### What pairs say -/

/-- What a text says as a truth value. -/
def flag? (text : List Char) : Option Bool :=
  if text = "true".toList then some true
  else if text = "false".toList then some false
  else none

namespace AnchorArguments

theorem record_service (known : AnchorArguments) (value : List Char) :
    known.record "service".toList value = { known with
      service := if isBlank value then none else some (String.ofList (trim value)) } := by
  have hblank : (trim value).isEmpty = isBlank value := by
    rw [Bool.eq_iff_iff, List.isEmpty_iff, trim_eq_nil_iff]
  rw [record, if_pos (by decide)]
  simp only [hblank]

theorem record_factory (known : AnchorArguments) (value : List Char) :
    known.record "generateFactory".toList value =
      { known with generateFactory := (flag? value).getD true } := by
  have hflag : (value != "false".toList) = (flag? value).getD true := by
    unfold flag?
    by_cases htrue : value = "true".toList
    · rw [if_pos htrue, htrue]
      decide
    · by_cases hfalse : value = "false".toList
      · rw [if_neg htrue, if_pos hfalse, hfalse]
        decide
      · rw [if_neg htrue, if_neg hfalse]
        exact bne_iff_ne.2 hfalse
  rw [record, if_neg (by decide), if_pos (by decide), hflag]

theorem record_of_ne (known : AnchorArguments) {key : List Char} (hservice : key ≠ "service".toList)
    (hfactory : key ≠ "generateFactory".toList) (value : List Char) :
    known.record key value = known := by
  rw [record, if_neg (by simpa using hservice), if_neg (by simpa using hfactory)]

end AnchorArguments

namespace KeyValue

/-- The value of the last pair with a key. -/
def lastValue? (key : String) (pairs : List KeyValue) : Option (List Char) :=
  (pairs.reverse.find? (·.key == key.toList)).map (·.value.text)

/-- What pairs say: the last route without its outer white space, unless nothing is left of it, and
whether a factory is wanted, which it is unless the last word on it is a plain no. -/
def said (pairs : List KeyValue) : AnchorArguments where
  service := (lastValue? "service" pairs).bind fun value =>
    if isBlank value then none else some (String.ofList (trim value))
  generateFactory := ((lastValue? "generateFactory" pairs).bind flag?).getD true

variable {key : String} {pair : KeyValue} {pairs : List KeyValue}

theorem lastValue?_concat (h : pair.key = key.toList) :
    lastValue? key (pairs ++ [pair]) = some pair.value.text := by
  simp [lastValue?, h]

theorem lastValue?_concat_of_ne (h : pair.key ≠ key.toList) :
    lastValue? key (pairs ++ [pair]) = lastValue? key pairs := by
  simp [lastValue?, h]

/-- Recording pairs leaves what the last of them say. -/
theorem foldl_record (pairs : List KeyValue) :
    pairs.foldl (fun known pair => known.record pair.key pair.value.text) {} = said pairs := by
  induction pairs using List.reverseRecOn with
  | nil => rfl
  | append_singleton pairs pair ih =>
    rw [List.foldl_append, ih, List.foldl_cons, List.foldl_nil]
    -- the last pair decides for its own key and leaves the other one as it was
    by_cases hservice : pair.key = "service".toList
    · have hfactory : pair.key ≠ "generateFactory".toList := by
        rw [hservice]
        decide
      rw [said, said, lastValue?_concat hservice, lastValue?_concat_of_ne hfactory, hservice,
        AnchorArguments.record_service]
      rfl
    · by_cases hfactory : pair.key = "generateFactory".toList
      · rw [said, said, lastValue?_concat hfactory, lastValue?_concat_of_ne hservice, hfactory,
          AnchorArguments.record_factory]
        rfl
      · rw [said, said, lastValue?_concat_of_ne hfactory, lastValue?_concat_of_ne hservice,
          AnchorArguments.record_of_ne _ hservice hfactory]

end KeyValue

theorem parseAnchorArguments_eq_said {pairs : List KeyValue}
    (h : ∀ pair ∈ pairs, pair.IsWellFormed) :
    parseAnchorArguments (KeyValue.listText pairs) = KeyValue.said pairs := by
  rw [parseAnchorArguments_eq_foldl h, KeyValue.foldl_record]

/-- **What printed arguments say**: of the pairs with a key the last one counts, and pairs that
agree there say the same, whatever else they hold and however it is written. -/
theorem parseAnchorArguments_listText {pairs : List KeyValue}
    (h : ∀ pair ∈ pairs, pair.IsWellFormed) :
    parseAnchorArguments (KeyValue.listText pairs) = KeyValue.said pairs ∧
      ∀ others : List KeyValue, (∀ pair ∈ others, pair.IsWellFormed) →
        KeyValue.lastValue? "service" others = KeyValue.lastValue? "service" pairs →
        KeyValue.lastValue? "generateFactory" others =
          KeyValue.lastValue? "generateFactory" pairs →
        parseAnchorArguments (KeyValue.listText others) =
          parseAnchorArguments (KeyValue.listText pairs) := by
  have hsaid := parseAnchorArguments_eq_said h
  refine ⟨hsaid, ?_⟩
  intro others hothers hservice hfactory
  rw [hsaid, parseAnchorArguments_eq_said hothers, KeyValue.said, KeyValue.said, hservice, hfactory]

theorem parseAnchorArguments_listText_example :
    let pairs : List KeyValue :=
      [⟨"service".toList, [], [], .bare "Old".toList⟩,
        ⟨"generateFactory".toList, [' '], ['\n', ' '], .bare "false".toList⟩,
        ⟨"note".toList, [' '], [' '], .quoted "service = ".toList⟩,
        ⟨"service".toList, ['\t'], [], .quoted " a, b) ".toList⟩,
        ⟨"_x1".toList, [' '], [' '], .quoted "generateFactory = true, service = Other".toList⟩]
    let others : List KeyValue :=
      [⟨"generateFactory".toList, [], [], .quoted "false".toList⟩,
        ⟨"service".toList, [], [], .quoted " a, b) ".toList⟩]
    let texts : List String :=
      ["(service=Old, generateFactory =\n false, note = \"service = \", ",
        "service\t=\" a, b) \", _x1 = \"generateFactory = true, service = Other\")"]
    (∀ pair ∈ pairs, pair.IsWellFormed) ∧ KeyValue.listText pairs = texts.flatMap String.toList ∧
      parseAnchorArguments (texts.flatMap String.toList) = ⟨some "a, b)", false⟩ ∧
      parseAnchorArguments (KeyValue.listText others) = ⟨some "a, b)", false⟩ := by
  intro pairs others texts
  have hpairs : ∀ pair ∈ pairs, pair.IsWellFormed := by decide +kernel
  have hothers : ∀ pair ∈ others, pair.IsWellFormed := by decide +kernel
  have htext : KeyValue.listText pairs = texts.flatMap String.toList := by decide +kernel
  have hsaid : KeyValue.said pairs = ⟨some "a, b)", false⟩ := by decide +kernel
  obtain ⟨hread, halike⟩ := parseAnchorArguments_listText hpairs
  have hagree := halike others hothers (by decide +kernel) (by decide +kernel)
  rw [hread, hsaid] at hagree
  rw [htext, hsaid] at hread
  exact ⟨hpairs, htext, hread, hagree⟩

end RpcBinder.Declaration
