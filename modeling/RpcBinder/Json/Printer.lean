import RpcBinder.Json.Basic

/-!
# Writing JSON

Values are written over several lines with an indentation of two spaces.  An array or object
without entries takes no further line.  In strings only the quotation mark, the backslash and
the characters below the space are escaped.

## Main definitions

* `Json.quote` — the literal of a text.
* `Json.pretty` — the text of a value.
-/

namespace RpcBinder.Json

/-- A hexadecimal digit in lower case. -/
def hexDigit (n : Nat) : Char :=
  if n < 10 then Char.ofNat (n + '0'.toNat) else Char.ofNat (n - 10 + 'a'.toNat)

/-- A character as it stands in a literal. -/
def escape (c : Char) : List Char :=
  if c == '"' then ['\\', '"']
  else if c == '\\' then ['\\', '\\']
  else if c == '\n' then ['\\', 'n']
  else if c == '\r' then ['\\', 'r']
  else if c == '\t' then ['\\', 't']
  else if c.toNat == 0x08 then ['\\', 'b']
  else if c.toNat == 0x0C then ['\\', 'f']
  else if c.toNat < 0x20 then
    ['\\', 'u', '0', '0', hexDigit (c.toNat / 16), hexDigit (c.toNat % 16)]
  else [c]

/-- The literal of a text. -/
def quote (text : List Char) : List Char :=
  '"' :: text.flatMap escape ++ ['"']

/-- The literal of a string value; one without a text is written as half a surrogate pair. -/
def quote? : Option String → List Char
  | some text => quote text.toList
  | none => "\"\\ud800\"".toList

/-- A line break with an indentation. -/
def newLine (depth : Nat) : List Char :=
  '\n' :: List.replicate (2 * depth) ' '

mutual

/-- The text of a value that stands at a depth. -/
def write (depth : Nat) : Json → List Char
  | .null => "null".toList
  | .bool true => "true".toList
  | .bool false => "false".toList
  | .number digits => digits
  | .literal text? => quote? text?
  | .array [] => "[]".toList
  | .array (item :: items) =>
      '[' :: newLine (depth + 1) ++ write (depth + 1) item ++ writeItems (depth + 1) items ++
        newLine depth ++ [']']
  | .object [] => ['\x7b', '\x7d']
  | .object (member :: members) =>
      '\x7b' :: newLine (depth + 1) ++ writeMember (depth + 1) member ++
        writeMembers (depth + 1) members ++ newLine depth ++ ['\x7d']

/-- The items of an array after the first. -/
def writeItems (depth : Nat) : List Json → List Char
  | [] => []
  | item :: items => ',' :: newLine depth ++ write depth item ++ writeItems depth items

/-- A member of an object. -/
def writeMember (depth : Nat) : Option String × Json → List Char
  | (key, value) => quote? key ++ ':' :: ' ' :: write depth value

/-- The members of an object after the first. -/
def writeMembers (depth : Nat) : List (Option String × Json) → List Char
  | [] => []
  | member :: members =>
      ',' :: newLine depth ++ writeMember depth member ++ writeMembers depth members

end

/-- The text of a value. -/
def pretty (value : Json) : String :=
  String.ofList (write 0 value)

end RpcBinder.Json
