import RpcBinder.Model.Anchor

/-!
# Failures

Every way in which a pass can fail, and its wording.

## Main definitions

* `FileError`, `ConfigFault`, `Failure` — the causes.
* `Failure.message` — the wording.
-/

namespace RpcBinder

/-- Why a file or directory cannot be used. -/
inductive FileError
  /-- There is nothing at the place. -/
  | notFound
  /-- Something is there already. -/
  | alreadyExists
  /-- A directory is needed, and the place is none. -/
  | notDirectory
  /-- A file is needed, and the place is a directory. -/
  | isDirectory
  /-- The directory holds something. -/
  | notEmpty
  /-- The directory is named by a dot. -/
  | namedByDot
  /-- The directory is the root. -/
  | isRoot
  /-- The path or a name in it is too long. -/
  | nameTooLong
  /-- The path holds a character that ends it. -/
  | nulCharacter
  /-- The file holds no text. -/
  | notText
  /-- No directory on the way can be created. -/
  | noAncestor
  deriving DecidableEq, Repr, Inhabited

/-- The wording of a file error. -/
def FileError.message : FileError → String
  | .notFound => "No such file or directory (os error 2)"
  | .alreadyExists => "File exists (os error 17)"
  | .notDirectory => "Not a directory (os error 20)"
  | .isDirectory => "Is a directory (os error 21)"
  | .notEmpty => "Directory not empty (os error 39)"
  | .namedByDot => "Invalid argument (os error 22)"
  | .isRoot => "Device or resource busy (os error 16)"
  | .nameTooLong => "File name too long (os error 36)"
  | .nulCharacter => "file name contained an unexpected NUL byte"
  | .notText => "stream did not contain valid UTF-8"
  | .noAncestor => "failed to create whole tree"

/-- What is wrong with a configuration. -/
inductive ConfigFault
  /-- There is no output directory. -/
  | emptyOutputDir
  /-- An entry of a package filter is blank. -/
  | blankFilter (entry : String)
  deriving DecidableEq, Repr, Inhabited

/-- A number in hexadecimal digits, in lower case and without leading zeros. -/
def hexDigits (n : Nat) : String :=
  String.ofList (Nat.toDigits 16 n)

/-- A white space character in quotes: the space as it is, the common blanks by their letters,
the others by their numbers. -/
def quoteSpace (c : Char) : String :=
  if c == ' ' then " "
  else if c == '\t' then "\\t"
  else if c == '\n' then "\\n"
  else if c == '\r' then "\\r"
  else "\\u\x7b" ++ hexDigits c.toNat ++ "\x7d"

/-- The wording of a fault. -/
def ConfigFault.message : ConfigFault → String
  | .emptyOutputDir => "outputDir must not be empty"
  | .blankFilter entry =>
      "package filters must not be blank (got \"" ++
        String.join (entry.toList.map quoteSpace) ++ "\")"

/-- Why a pass fails. -/
inductive Failure
  /-- A file cannot be used. -/
  | file (error : FileError)
  /-- A configuration file is not the JSON that it should be. -/
  | json
  /-- A parameter of a method cannot be read. -/
  | malformedParameter (fragment : String)
  /-- An anchor names an interface that is no service. -/
  | unknownInterface (side : Side) (className interfaceFqn : String)
  /-- The generator gives up on an anchor. -/
  | generator (className message : String)
  /-- The configuration is faulty. -/
  | config (fault : ConfigFault)
  deriving DecidableEq, Repr, Inhabited

/-- The wording of a failure. -/
def Failure.message : Failure → String
  | .file error => "I/O error: " ++ error.message
  | .json => "JSON serialization/deserialization error"
  | .malformedParameter fragment => "Bad parameter entry: '" ++ fragment ++ "'"
  | .unknownInterface side className interfaceFqn =>
      "No @RpcService found for interface " ++ interfaceFqn ++ " used by " ++ side.word ++
        " anchor " ++ className
  | .generator className message => "Generator failed for " ++ className ++ ": " ++ message
  | .config fault => "Configuration error: " ++ fault.message

end RpcBinder
