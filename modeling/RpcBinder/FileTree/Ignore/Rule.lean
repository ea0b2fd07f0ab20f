import RpcBinder.FileTree.Glob.Reader
import RpcBinder.Text.Space

/-!
# The lines of a list of ignored files

A line is a glob.  An exclamation mark in front says that what it describes is kept after all,
a slash at the end that it speaks of directories only, and a number sign in front makes it a
remark.  A glob without a slash describes a name in any directory.

## Main definitions

* `IgnoreRule`, `IgnoreRule.ofLine?` — the rule in a line.
* `IgnoreRule.verdict?` — what a rule says of a path.
* `readRules` — the rules in the lines of a list.
-/

namespace RpcBinder

/-- A line of a list. -/
structure IgnoreRule where
  /-- The paths that it speaks of. -/
  glob : Glob
  /-- It speaks of directories only. -/
  onlyDirectories : Bool
  /-- It says that these are kept after all. -/
  keeps : Bool

namespace IgnoreRule

/-- The text without a character at its start, and whether it was there. -/
def dropStart (c : Char) (text : List Char) : Bool × List Char :=
  if text.head? == some c then (true, text.tail) else (false, text)

/-- The text without a character at its end, and whether it was there. -/
def dropEnd (c : Char) (text : List Char) : Bool × List Char :=
  if text.getLast? == some c then (true, text.dropLast) else (false, text)

/-- The glob with two stars in front, if it stands for a name in any directory. -/
def anywhere (glob : List Char) : List Char :=
  if glob.contains '/' || glob == ['*', '*'] then glob else '*' :: '*' :: '/' :: glob

/-- The glob of what lies within, if two stars stand at its end. -/
def within (glob : List Char) : List Char :=
  if ['/', '*', '*'].isSuffixOf glob then glob ++ ['/', '*'] else glob

/-- The rule in a line without a number sign at its start. -/
def ofTrimmed? (line : List Char) : Option IgnoreRule := do
  let escaped := ['\\', '!'].isPrefixOf line || ['\\', '#'].isPrefixOf line
  let (keeps, line) := if escaped then (false, line.tail) else dropStart '!' line
  let (anchored, line) := if escaped then (false, line) else dropStart '/' line
  let (onlyDirectories, line) := dropEnd '/' line
  let line := if onlyDirectories then (dropEnd '\\' line).2 else line
  let pieces ← readPieces? (within (if anchored then line else anywhere line))
  return { glob := .ofPieces pieces, onlyDirectories, keeps }

/-- The rule in a line, if it holds one that can be read. -/
def ofLine? (line : List Char) : Option IgnoreRule :=
  let line := if ['\\', ' '].isSuffixOf line then line else trimEndBy isSpace line
  if line.isEmpty || line.head? == some '#' then none else ofTrimmed? line

/-- What the rule says of a path: that it is kept, that it is not, or nothing. -/
def verdict? (rule : IgnoreRule) (path : List Char) (isDirectory : Bool) : Option Bool :=
  if (isDirectory || !rule.onlyDirectories) && rule.glob.accepts path then some rule.keeps
  else none

end IgnoreRule

/-- The rules in the lines of a list, the last one first.  Byte order marks in front of the
first line do not count. -/
def readRules : List (List Char) → List IgnoreRule
  | [] => []
  | first :: lines =>
      ((first.dropWhile (· == '\uFEFF') :: lines).filterMap IgnoreRule.ofLine?).reverse

end RpcBinder
