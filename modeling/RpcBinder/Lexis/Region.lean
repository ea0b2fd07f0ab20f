/-!
# Lexical regions

A source text is cut into code, comments and literals by one pass that gives every
character its region.  Line comments end with their line, block comments nest, strings and
character literals end at their quote or at the end of the line, and raw strings end at
three quotes in a row.  A backslash in a string or character literal takes the next
character with it.  Literals and comments may be left open; they then reach to the end.

## Main definitions

* `Region` — what a character belongs to.
* `Mode`, `Mode.step` — the state of the pass between two characters, and one character.
* `regions` — the text with the region of each character.
-/

namespace RpcBinder.Lexis

/-- What a character of a source text belongs to. -/
inductive Region
  /-- Code, white space included. -/
  | code
  /-- A comment with its delimiters; a line comment takes its line feed. -/
  | comment
  /-- A string or character literal with its quotes. -/
  | literal
  deriving DecidableEq, Repr, Inhabited

/-- Where the pass stands between two characters. -/
inductive Mode
  /-- In code. -/
  | code
  /-- In a line comment. -/
  | lineComment
  /-- In a block comment that lies within `outer` further ones. -/
  | blockComment (outer : Nat)
  /-- In a literal that ends at `quote`. -/
  | quoted (quote : Char)
  /-- In a raw string. -/
  | rawString
  /-- Before a character whose region is already known: the rest of a delimiter, or an
  escaped character. -/
  | held (region : Region) (next : Mode)
  deriving DecidableEq, Repr, Inhabited

/-- The quotes of a raw string after the first. -/
def startsWithTwoQuotes : List Char → Bool
  | '"' :: '"' :: _ => true
  | _ => false

/-- The region of the character `c` that stands before `rest`, and the mode after it.
Where `comments` is false, comment delimiters are code like anything else. -/
def Mode.step (comments : Bool) (mode : Mode) (c : Char) (rest : List Char) : Region × Mode :=
  match mode with
  | .held region next => (region, next)
  | .code =>
      if comments && c == '/' && rest.head? == some '/' then (.comment, .held .comment .lineComment)
      else if comments && c == '/' && rest.head? == some '*' then
        (.comment, .held .comment (.blockComment 0))
      else if c == '"' && startsWithTwoQuotes rest then
        (.literal, .held .literal (.held .literal .rawString))
      else if c == '"' || c == '\'' then (.literal, .quoted c)
      else (.code, .code)
  | .lineComment => (.comment, if c == '\n' then .code else .lineComment)
  | .blockComment outer =>
      if c == '*' && rest.head? == some '/' then
        (.comment, .held .comment (match outer with
          | 0 => .code
          | n + 1 => .blockComment n))
      else if c == '/' && rest.head? == some '*' then
        (.comment, .held .comment (.blockComment (outer + 1)))
      else (.comment, .blockComment outer)
  | .quoted quote =>
      if c == '\\' then (.literal, .held .literal (.quoted quote))
      else if c == quote || c == '\n' then (.literal, .code)
      else (.literal, .quoted quote)
  | .rawString =>
      if c == '"' && startsWithTwoQuotes rest then
        (.literal, .held .literal (.held .literal .code))
      else (.literal, .rawString)

/-- Each character of the text with its region, read from `mode` on. -/
def regionsFrom (comments : Bool) : Mode → List Char → List (Char × Region)
  | _, [] => []
  | mode, c :: rest =>
      let (region, next) := mode.step comments c rest
      (c, region) :: regionsFrom comments next rest

@[simp] theorem regionsFrom_nil (comments : Bool) (mode : Mode) :
    regionsFrom comments mode [] = [] := rfl

@[simp] theorem regionsFrom_cons (comments : Bool) (mode : Mode) (c : Char) (rest : List Char) :
    regionsFrom comments mode (c :: rest) =
      (c, (mode.step comments c rest).1) ::
        regionsFrom comments (mode.step comments c rest).2 rest := rfl

/-- Each character of a source text with its region. -/
def regions (text : List Char) : List (Char × Region) :=
  regionsFrom true .code text

/-- Each character of a text that holds no comments with its region: what looks like a
comment is code. -/
def commentFreeRegions (text : List Char) : List (Char × Region) :=
  regionsFrom false .code text

end RpcBinder.Lexis
