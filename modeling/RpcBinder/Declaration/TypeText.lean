import RpcBinder.Lexis.Nesting

/-!
# Types as they are written

What a pattern takes for a type may hold more than the type: a comment, a brace, a default
value, line breaks.  These functions cut it down.

## Main definitions

* `cleanType` — a type in one line with single spaces.
* `stripDefault` — a parameter's type without its default value.
* `parameterName` — a parameter's name without modifiers.
* `anchorBase` — the bare name of a supertype.
-/

namespace RpcBinder.Declaration

/-- The text up to the first line comment. -/
def beforeLineComment : List Char → List Char
  | '/' :: '/' :: _ => []
  | c :: rest => c :: beforeLineComment rest
  | [] => []

/-- The type at the start of a text: without what follows a line comment or a closing brace,
without semicolons at its end, and with single spaces. -/
def cleanType (text : List Char) : List Char :=
  let type := trim ((beforeLineComment text).takeWhile (· != '}'))
  [' '].intercalate (words (trimEndBy (· == ';') type))

/-- The text up to an equals sign outside of brackets. -/
def stripDefault (text : List Char) : List Char :=
  Lexis.cutTopLevel '=' text

/-- The last word of what stands before the colon. -/
def parameterName (text : List Char) : List Char :=
  (words text).getLast?.getD []

/-- The name that a type reference begins with: no type arguments, no constructor call and no
question mark. -/
def anchorBase (text : List Char) : List Char :=
  trimEndBy (· == '?') ((trim text).takeWhile fun c => !(c == '<' || c == '(' || isSpace c))

end RpcBinder.Declaration
