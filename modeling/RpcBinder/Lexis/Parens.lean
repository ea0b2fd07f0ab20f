import RpcBinder.Text.Bytes

/-!
# The end of a parenthesised list

Finds the parenthesis that closes a list.  Parentheses in strings and character literals do
not count; a backslash in a literal takes the next character with it, and a literal may run
over the end of a line.

## Main definitions

* `splitClosing` — what stands before and after the closing parenthesis.
* `closingParen?` — its offset in a text.
-/

namespace RpcBinder.Lexis

/-- Cuts the text at the parenthesis that closes the list it is read in.  The list lies
within `outer` further ones opened since, and `quote` ends the literal that is open. -/
def splitClosingFrom : Nat → Option Char → List Char → Option (List Char × List Char)
  | _, _, [] => none
  | outer, some quote, '\\' :: c :: rest =>
      (splitClosingFrom outer (some quote) rest).map fun (inner, after) => ('\\' :: c :: inner, after)
  | outer, some quote, c :: rest =>
      (splitClosingFrom outer (if c == quote then none else some quote) rest).map
        fun (inner, after) => (c :: inner, after)
  | 0, none, ')' :: rest => some ([], rest)
  | outer + 1, none, ')' :: rest =>
      (splitClosingFrom outer none rest).map fun (inner, after) => (')' :: inner, after)
  | outer, none, c :: rest =>
      let quote := if c == '"' || c == '\'' then some c else none
      (splitClosingFrom (if c == '(' then outer + 1 else outer) quote rest).map
        fun (inner, after) => (c :: inner, after)

/-- What stands before and after the parenthesis that closes the list whose inside begins
the text; `none` if the list is left open. -/
def splitClosing (text : List Char) : Option (List Char × List Char) :=
  splitClosingFrom 0 none text

/-- The offset of the parenthesis that closes the one at the offset `opening`; `none` if
there is none at that offset, or if it is left open. -/
def closingParen? (text : List Char) (opening : Nat) : Option Nat :=
  match dropBytes? opening text with
  | some ('(' :: rest) =>
      (splitClosing rest).map fun (inner, _) => opening + 1 + byteLength inner
  | _ => none

end RpcBinder.Lexis
