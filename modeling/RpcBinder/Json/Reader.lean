import RpcBinder.Json.Basic

/-!
# Reading JSON

The grammar is the strict one: four blank characters, no comments, no trailing commas, no
leading zeros, no raw control characters in strings, and nothing behind the value.

## Main definitions

* `Json.readLiteral?` — a string literal behind its first quotation mark.
* `Json.readNumber?` — a number.
* `Json.parse?` — the value that a text holds.
-/

namespace RpcBinder.Json

/-- The blank characters between the parts of a value. -/
def isBlankChar (c : Char) : Bool :=
  c == ' ' || c == '\n' || c == '\t' || c == '\r'

/-- A text without the blank characters at its start. -/
def skipBlanks (text : List Char) : List Char :=
  text.dropWhile isBlankChar

/-- The value of a hexadecimal digit of either case. -/
def hexValue? (c : Char) : Option Nat :=
  if '0' ≤ c && c ≤ '9' then some (c.toNat - '0'.toNat)
  else if 'a' ≤ c && c ≤ 'f' then some (c.toNat - 'a'.toNat + 10)
  else if 'A' ≤ c && c ≤ 'F' then some (c.toNat - 'A'.toNat + 10)
  else none

/-- The character that a backslash and a letter stand for. -/
def escaped? (c : Char) : Option Char :=
  if c == '"' || c == '\\' || c == '/' then some c
  else if c == 'b' then some '\x08'
  else if c == 'f' then some '\x0c'
  else if c == 'n' then some '\n'
  else if c == 'r' then some '\r'
  else if c == 't' then some '\t'
  else none

/-- A piece of a string literal. -/
inductive Piece
  /-- A character. -/
  | char (c : Char)
  /-- A code unit given by four hexadecimal digits. -/
  | unit (value : Nat)
  deriving DecidableEq, Repr

/-- The pieces of a literal up to its closing quotation mark, and the text behind it. -/
def readPieces? : List Char → Option (List Piece × List Char)
  | '"' :: rest => some ([], rest)
  | '\\' :: 'u' :: a :: b :: c :: d :: rest => do
      let value := 16 * (16 * (16 * (← hexValue? a) + (← hexValue? b)) + (← hexValue? c)) +
        (← hexValue? d)
      let (pieces, after) ← readPieces? rest
      return (.unit value :: pieces, after)
  | '\\' :: c :: rest => do
      let e ← escaped? c
      let (pieces, after) ← readPieces? rest
      return (.char e :: pieces, after)
  | c :: rest =>
      if c.toNat < 0x20 || c == '\\' then none
      else do
        let (pieces, after) ← readPieces? rest
        return (.char c :: pieces, after)
  | [] => none

/-- The first unit of a surrogate pair. -/
def isHighSurrogate (value : Nat) : Bool :=
  0xD800 ≤ value && value < 0xDC00

/-- The second unit of a surrogate pair. -/
def isLowSurrogate (value : Nat) : Bool :=
  0xDC00 ≤ value && value < 0xE000

/-- The text of a series of pieces, unless one is half of a surrogate pair. -/
def joinPieces? : List Piece → Option (List Char)
  | [] => some []
  | .char c :: pieces => (joinPieces? pieces).map (c :: ·)
  | .unit high :: .unit low :: pieces =>
      if isHighSurrogate high then
        if isLowSurrogate low then
          (joinPieces? pieces).map
            (Char.ofNat (0x10000 + (high - 0xD800) * 0x400 + (low - 0xDC00)) :: ·)
        else none
      else if isLowSurrogate high then none
      else (joinPieces? (.unit low :: pieces)).map (Char.ofNat high :: ·)
  | .unit value :: pieces =>
      if isHighSurrogate value || isLowSurrogate value then none
      else (joinPieces? pieces).map (Char.ofNat value :: ·)

/-- A string literal behind its first quotation mark, and the text behind it. -/
def readLiteral? (text : List Char) : Option (Option String × List Char) := do
  let (pieces, after) ← readPieces? text
  return ((joinPieces? pieces).map String.ofList, after)

/-- At least one digit, and the text behind the digits. -/
def readDigits? (text : List Char) : Option (List Char × List Char) :=
  match text.span Char.isDigit with
  | ([], _) => none
  | (digits, after) => some (digits, after)

/-- The digits of a whole number without leading zeros, and the text behind them. -/
def readWhole? : List Char → Option (List Char × List Char)
  | '0' :: rest => if (rest.head?.map Char.isDigit).getD false then none else some (['0'], rest)
  | text => readDigits? text

/-- The fraction of a number with its point, if there is one. -/
def readFraction? : List Char → Option (List Char × List Char)
  | '.' :: rest => (readDigits? rest).map fun (digits, after) => ('.' :: digits, after)
  | text => some ([], text)

/-- The exponent of a number with its letter and sign, if there is one. -/
def readExponent? : List Char → Option (List Char × List Char)
  | c :: rest =>
      if c == 'e' || c == 'E' then
        let (sign, rest) := match rest with
          | '+' :: rest => (['+'], rest)
          | '-' :: rest => (['-'], rest)
          | rest => ([], rest)
        (readDigits? rest).map fun (digits, after) => (c :: sign ++ digits, after)
      else some ([], c :: rest)
  | [] => some ([], [])

/-- A number as it is written, and the text behind it. -/
def readNumber? (text : List Char) : Option (List Char × List Char) := do
  let (sign, rest) := match text with
    | '-' :: rest => (['-'], rest)
    | rest => ([], rest)
  let (whole, rest) ← readWhole? rest
  let (fraction, rest) ← readFraction? rest
  let (exponent, rest) ← readExponent? rest
  return (sign ++ whole ++ fraction ++ exponent, rest)

mutual

/-- A value at the start of a text, blanks in front of it allowed, and the text behind it.
The reading takes at most a number of steps. -/
def readValue? : Nat → List Char → Option (Json × List Char)
  | 0, _ => none
  | steps + 1, text =>
      match skipBlanks text with
      | 'n' :: 'u' :: 'l' :: 'l' :: rest => some (.null, rest)
      | 't' :: 'r' :: 'u' :: 'e' :: rest => some (.bool true, rest)
      | 'f' :: 'a' :: 'l' :: 's' :: 'e' :: rest => some (.bool false, rest)
      | '"' :: rest => (readLiteral? rest).map fun (text?, after) => (.literal text?, after)
      | '[' :: rest =>
          match skipBlanks rest with
          | ']' :: after => some (.array [], after)
          | rest => (readItems? steps rest).map fun (items, after) => (.array items, after)
      | '\x7b' :: rest =>
          match skipBlanks rest with
          | '\x7d' :: after => some (.object [], after)
          | rest => (readMembers? steps rest).map fun (members, after) => (.object members, after)
      | rest => (readNumber? rest).map fun (digits, after) => (.number digits, after)

/-- The items of an array up to its closing bracket, at least one, and the text behind it. -/
def readItems? : Nat → List Char → Option (List Json × List Char)
  | 0, _ => none
  | steps + 1, text => do
      let (item, rest) ← readValue? steps text
      match skipBlanks rest with
      | ',' :: rest => do
          let (items, after) ← readItems? steps rest
          return (item :: items, after)
      | ']' :: after => return ([item], after)
      | _ => none

/-- The members of an object up to its closing brace, at least one, and the text behind it. -/
def readMembers? : Nat → List Char → Option (List (Option String × Json) × List Char)
  | 0, _ => none
  | steps + 1, text =>
      match skipBlanks text with
      | '"' :: rest => do
          let (key, rest) ← readLiteral? rest
          match skipBlanks rest with
          | ':' :: rest => do
              let (value, rest) ← readValue? steps rest
              match skipBlanks rest with
              | ',' :: rest => do
                  let (members, after) ← readMembers? steps rest
                  return ((key, value) :: members, after)
              | '\x7d' :: after => return ([(key, value)], after)
              | _ => none
          | _ => none
      | _ => none

end

/-- The value that a text holds.  Every two steps of the reading use up a character, which
bounds their number. -/
def parse? (text : String) : Option Json :=
  match readValue? (2 * text.toList.length + 2) text.toList with
  | some (value, rest) => if (skipBlanks rest).isEmpty then some value else none
  | none => none

end RpcBinder.Json
