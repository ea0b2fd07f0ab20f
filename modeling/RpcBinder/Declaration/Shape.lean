import RpcBinder.Pattern.Search
import RpcBinder.Text.Space
import RpcBinder.Text.Word

/-!
# The shapes of declarations

The declarations that are recognised in a Kotlin source, as patterns over its text with the
comments blanked.

## Main definitions

* `Part` — the named parts of all shapes.
* `Shape.package`, `Shape.importing`, `Shape.type` — the shapes of a line's start.
* `Shape.service`, `Shape.method`, `Shape.returnType` — the shapes of a service.
* `Shape.clientAnchor`, `Shape.serverAnchor`, `Shape.anchorArgument` — the shapes of an anchor.
-/

namespace RpcBinder.Declaration

/-- The parts of declarations. -/
inductive Part
  /-- The package of a file. -/
  | package
  /-- The path of an import. -/
  | path
  /-- The other name of an import. -/
  | alias
  /-- The name of what is declared. -/
  | name
  /-- The route of a service. -/
  | route
  /-- The identifier of a method. -/
  | id
  /-- The return type of a method. -/
  | returnType
  /-- The arguments of an anchor's tag, with their parentheses. -/
  | arguments
  /-- The supertype of an anchor. -/
  | supertype
  /-- The type of a server anchor's constructor parameter. -/
  | implemented
  /-- The key of an argument. -/
  | key
  /-- A quoted value. -/
  | quoted
  /-- A bare value. -/
  | bare
  deriving DecidableEq, Repr, Inhabited

namespace Shape

open Pattern

/-- The characters of a word. -/
def word (text : String) : Pattern Part :=
  literal text.toList

/-- A space or a tab. -/
def isTabOrSpace (c : Char) : Bool :=
  c == ' ' || c == '\t'

/-- A character of a dotted ASCII path. -/
def isPathPart (c : Char) : Bool :=
  c.isAlphanum || c == '_' || c == '.'

/-- A character of a dotted name. -/
def isDottedWord (c : Char) : Bool :=
  isWord c || c == '.'

/-- Any white space. -/
def spaces : Pattern Part :=
  stretch isSpace

/-- At least one white space. -/
def spaces1 : Pattern Part :=
  stretch1 isSpace

/-- Any spaces and tabs. -/
def tabs : Pattern Part :=
  stretch isTabOrSpace

/-- At least one space or tab. -/
def tabs1 : Pattern Part :=
  stretch1 isTabOrSpace

/-- An ASCII identifier. -/
def identifier : Pattern Part :=
  one isNameStart ++ stretch isNamePart

/-- The end of a line that holds a directive. -/
def directiveEnd : Pattern Part :=
  tabs ++ maybe (word ";") ++ tabs ++ maybe (word "\r") ++ lineEnd

/-- A package directive. -/
def package : Pattern Part :=
  lineStart ++ tabs ++ word "package" ++ tabs1 ++ part .package (stretch1 isPathPart) ++
    directiveEnd

/-- An import directive, of one type, of a whole package, or under another name. -/
def importing : Pattern Part :=
  lineStart ++ tabs ++ word "import" ++ tabs1 ++
    part .path (stretch1 isPathPart ++ maybe (word ".*")) ++
    maybe (tabs1 ++ word "as" ++ tabs1 ++ part .alias identifier) ++ directiveEnd

/-- A tag with a dotted name, and with arguments of a class of characters in parentheses. -/
def tag (isArgument : Char → Bool) : Pattern Part :=
  word "@" ++ stretch1 isDottedWord ++ maybe (word "(" ++ stretch isArgument ++ word ")")

/-- Any further tags, on lines of their own or not. -/
def tags : Pattern Part :=
  many (tag (· != ')') ++ spaces)

/-- Any modifiers out of a list. -/
def modifiers (names : List String) : Pattern Part :=
  many (anyOf names ++ spaces1)

/-- A class, interface or object at the start of a line, after tags and modifiers. -/
def type : Pattern Part :=
  lineStart ++ tabs ++ many (tag (fun c => c != ')' && c != '\n') ++ tabs1) ++
    many (anyOf ["public", "internal", "private", "protected", "data", "sealed", "abstract",
      "open", "value", "annotation", "enum", "fun", "inline", "expect", "actual"] ++ tabs1) ++
    anyOf ["class", "interface", "object"] ++ tabs1 ++ part .name identifier

/-- A tag whose only argument is a quoted text. -/
def quotedTag (name : String) (content : Part) : Pattern Part :=
  word name ++ spaces ++ word "(" ++ spaces ++ word "\"" ++ part content (stretch1 (· != '"')) ++
    word "\"" ++ spaces ++ word ")" ++ spaces

/-- An interface with the tag of a service. -/
def service : Pattern Part :=
  quotedTag "@RpcService" .route ++ tags ++ modifiers ["public", "internal", "private"] ++
    maybe (word "fun" ++ spaces1) ++ word "interface" ++ spaces1 ++ part .name (stretch1 isWord)

/-- A function with the tag of a method, up to the parenthesis of its parameters. -/
def method : Pattern Part :=
  quotedTag "@RpcMethod" .id ++ tags ++ modifiers ["public", "abstract", "open", "override"] ++
    maybe (word "suspend" ++ spaces1) ++ word "fun" ++ spaces1 ++
    part .name (stretch1 isWord) ++ spaces ++ word "("

/-- A space, a tab or a line break. -/
def isTabOrBreak (c : Char) : Bool :=
  isTabOrSpace c || c == '\r' || c == '\n'

/-- A return type behind a list of parameters; it ends with its line. -/
def returnType : Pattern Part :=
  stretch isTabOrBreak ++ word ":" ++ stretch isTabOrBreak ++
    part .returnType (stretch1 fun c => c != '\n' && c != '{' && c != '=')

/-- An abstract class with the tag of an anchor, up to its name and type parameters. -/
def anchorHead (name : String) : Pattern Part :=
  word name ++ spaces ++ maybe (part .arguments (word "(" ++ stretch (· != ')') ++ word ")")) ++
    spaces ++ tags ++ modifiers ["public", "internal", "private", "open", "final", "sealed"] ++
    word "abstract" ++ spaces1 ++ word "class" ++ spaces1 ++ part .name (stretch1 isWord) ++
    maybe (spaces ++ word "<" ++ stretch (· != '>') ++ word ">")

/-- A client anchor up to its supertype. -/
def clientAnchor : Pattern Part :=
  anchorHead "@RpcClient" ++ spaces ++ word ":" ++ spaces ++
    part .supertype (stretch1 fun c => c != ',' && c != '{' && c != '\n')

/-- A server anchor up to the end of its constructor, and its supertype if it has one. -/
def serverAnchor : Pattern Part :=
  anchorHead "@RpcServer" ++ spaces ++ word "(" ++ spaces ++
    maybe (anyOf ["private", "protected", "internal", "public"] ++ spaces1) ++
    maybe (anyOf ["val", "var"] ++ spaces1) ++
    word "impl" ++ spaces ++ word ":" ++ spaces ++
    part .implemented (stretch1 fun c => c != ',' && c != ')') ++ spaces ++ maybe (word ",") ++
    spaces ++ word ")" ++
    maybe (spaces ++ word ":" ++ spaces ++ part .supertype (stretch1 isDottedWord))

/-- A key with a value in the arguments of an anchor's tag. -/
def anchorArgument : Pattern Part :=
  part .key (one isNameStart ++ stretch isWord) ++ spaces ++ word "=" ++ spaces ++
    (word "\"" ++ part .quoted (stretch (· != '"')) ++ word "\"" |||
      part .bare (stretch1 fun c => c != ',' && c != ')' && !isSpace c))

end Shape

end RpcBinder.Declaration
