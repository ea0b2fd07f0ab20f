import RpcBinder.Path
import RpcBinder.Text.Split

/-!
# Command line arguments

A call names a command and then its options.  An option is followed by its value, as an
argument of its own or behind an equals sign; no option may be given twice, and no value may be
empty.  An argument of its own that begins with a dash is no value, a single dash apart.

## Main definitions

* `CommandName`, `SourceOptions`, `Call` — what can be asked for.
* `Request.parse?` — the request that a list of arguments makes.
-/

namespace RpcBinder

/-- The commands. -/
inductive CommandName
  /-- Reads all sources and binds every anchor. -/
  | check
  /-- Prints what the sources declare. -/
  | dump
  /-- Writes a descriptor for every anchor. -/
  | generate
  deriving DecidableEq, Repr, Inhabited

/-- The command that a word names. -/
def CommandName.ofWord? (word : String) : Option CommandName :=
  if word == "check" then some .check
  else if word == "dump" then some .dump
  else if word == "generate" then some .generate
  else none

/-- Where the sources are. -/
structure SourceOptions where
  /-- A configuration file. -/
  config : Option Path := none
  /-- The directory of the interfaces. -/
  api : Option Path := none
  /-- The directory of the client anchors. -/
  client : Option Path := none
  /-- The directory of the server anchors. -/
  server : Option Path := none
  deriving DecidableEq, Repr, Inhabited

/-- A command with its options. -/
structure Call where
  /-- The command. -/
  command : CommandName
  /-- Where the sources are. -/
  sources : SourceOptions := {}
  /-- The output directory. -/
  out : Option Path := none
  deriving DecidableEq, Repr, Inhabited

/-- What can be asked for. -/
inductive Request
  /-- The version. -/
  | version
  /-- A command. -/
  | call (call : Call)
  deriving DecidableEq, Repr, Inhabited

/-- The path that a value gives, if it is not empty and none was given before. -/
def once? (given : Option Path) (value : String) : Option (Option Path) :=
  if given.isSome || value.isEmpty then none else some (some ⟨value⟩)

/-- The call with one more option. -/
def Call.set? (call : Call) (option value : String) : Option Call :=
  match option with
  | "--config" => (once? call.sources.config value).map fun path =>
      { call with sources := { call.sources with config := path } }
  | "--api" => (once? call.sources.api value).map fun path =>
      { call with sources := { call.sources with api := path } }
  | "--client" => (once? call.sources.client value).map fun path =>
      { call with sources := { call.sources with client := path } }
  | "--server" => (once? call.sources.server value).map fun path =>
      { call with sources := { call.sources with server := path } }
  | "--out" =>
      if call.command == .generate then
        (once? call.out value).map fun path => { call with out := path }
      else none
  | _ => none

/-- The argument cannot be the value of the option before it. -/
def looksLikeOption (argument : String) : Bool :=
  argument.toList.head? == some '-' && argument != "-"

/-- The call with the options in the rest of the arguments.  Two dashes end the options, and
nothing may follow them. -/
def Call.withOptions? (call : Call) : List String → Option Call
  | [] => some call
  | "--" :: rest => if rest.isEmpty then some call else none
  | argument :: rest =>
      match splitFirst? '=' argument.toList with
      | some (option, value) => do
          (← call.set? (String.ofList option) (String.ofList value)).withOptions? rest
      | none =>
          match rest with
          | [] => none
          | value :: rest => do
              if looksLikeOption value then none
              else (← call.set? argument value).withOptions? rest

/-- The argument asks for the version. -/
def asksForVersion (argument : String) : Bool :=
  argument == "--version" || ['-', 'V'].isPrefixOf argument.toList

/-- The request that a list of arguments makes; none if they break a rule. -/
def Request.parse? : List String → Option Request
  | [] => none
  | argument :: rest =>
      if asksForVersion argument then some .version
      else do
        let command ← CommandName.ofWord? argument
        return .call (← { command : Call }.withOptions? rest)

end RpcBinder
