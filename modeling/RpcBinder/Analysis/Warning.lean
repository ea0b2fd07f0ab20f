import RpcBinder.Path

/-!
# Warnings

What is worth saying about a pass that does not make it fail.

## Main definitions

* `SourceRole`, `DeclarationKind` — what is read and what is looked for.
* `Warning`, `Warning.message` — the warnings and their wording.
-/

namespace RpcBinder

/-- What a directory of sources is for. -/
inductive SourceRole
  /-- It holds the interfaces of services. -/
  | api
  /-- It holds client anchors. -/
  | client
  /-- It holds server anchors. -/
  | server
  deriving DecidableEq, Repr, Inhabited

/-- The word for a role. -/
def SourceRole.word : SourceRole → String
  | .api => "api"
  | .client => "client"
  | .server => "server"

/-- What is looked for in sources. -/
inductive DeclarationKind
  /-- Services. -/
  | service
  /-- Client anchors. -/
  | clientAnchor
  /-- Server anchors. -/
  | serverAnchor
  deriving DecidableEq, Repr, Inhabited

/-- The words for the declarations of a kind. -/
def DeclarationKind.words : DeclarationKind → String
  | .service => "RPC services"
  | .clientAnchor => "client anchors"
  | .serverAnchor => "server anchors"

/-- The tag that marks a declaration of a kind. -/
def DeclarationKind.tag : DeclarationKind → String
  | .service => "@RpcService"
  | .clientAnchor => "@RpcClient"
  | .serverAnchor => "@RpcServer"

/-- A file in which nothing was found. -/
structure FileCheck where
  /-- Its path. -/
  path : Path
  /-- Its text holds the tag of what was looked for. -/
  mentionsTag : Bool
  deriving DecidableEq, Repr, Inhabited

/-- A remark on a pass. -/
inductive Warning
  /-- A directory of sources does not exist. -/
  | missingRoot (role : SourceRole) (path : Path)
  /-- Nothing of a kind was found in the files read. -/
  | noDeclarations (kind : DeclarationKind) (files : List FileCheck)
  /-- An interface is a service once more. -/
  | duplicateService (fqn : String)
  deriving DecidableEq, Repr, Inhabited

/-- The wording of a warning. -/
def Warning.message : Warning → String
  | .missingRoot role path => role.word ++ " source path does not exist: " ++ path.text
  | .noDeclarations kind files =>
      let hinted := (files.filter (·.mentionsTag)).length
      "No " ++ kind.words ++ " found in " ++ toString files.length ++ " source files" ++
        if hinted == 0 then ""
        else " (" ++ toString hinted ++ " mention the annotation but did not match)"
  | .duplicateService fqn =>
      "Interface " ++ fqn ++ " is declared as a service more than once"

end RpcBinder
