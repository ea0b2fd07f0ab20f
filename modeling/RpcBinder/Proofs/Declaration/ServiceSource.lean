import RpcBinder.Declaration.Service
import RpcBinder.Proofs.Declaration.TypeText

/-!
# Services as they are printed

A service is printed with its tag and its header on lines of their own, a method with its tag on
one line and its signature on the next, and types in canonical spacing.

## Main definitions

* `ServiceDecl`, `MethodDecl`, `ParamDecl` — services with their types as trees.
* `ServiceDecl.source` and its like — their texts in a layout.
* `ServiceDecl.service` and its like — what is to be read off these texts.
* `ServiceDecl.IsWellFormed` — what names, routes and types are made of.
-/

namespace RpcBinder.Declaration

/-- A parameter with its type as a tree. -/
structure ParamDecl where
  /-- Its name. -/
  name : List Char
  /-- Its type. -/
  type : TypeTree

/-- A method with its types as trees. -/
structure MethodDecl where
  /-- Its identifier. -/
  id : List Char
  /-- It may be suspended. -/
  suspending : Bool
  /-- Its name. -/
  name : List Char
  /-- Its parameters. -/
  params : List ParamDecl
  /-- Its return type, if one is written. -/
  returns? : Option TypeTree

/-- A service with its methods. -/
structure ServiceDecl where
  /-- Its route. -/
  route : List Char
  /-- The name of its interface. -/
  name : List Char
  /-- Its methods. -/
  methods : List MethodDecl

/-- The white space between declarations. -/
structure Layout where
  /-- What stands in front of the two lines of a method. -/
  indent : List Char
  /-- What follows the last line of a service. -/
  gap : List Char

/-! ### Texts -/

/-- The line of a tag. -/
def tagLine (name : String) (argument indent : List Char) : List Char :=
  name.toList ++ '(' :: '"' :: (argument ++ '"' :: ')' :: '\n' :: indent)

def ParamDecl.source (param : ParamDecl) : List Char :=
  param.name ++ ':' :: ' ' :: param.type.canonical

namespace MethodDecl

/-- The text up to the parenthesis of the parameters, from the tag on. -/
def head (layout : Layout) (method : MethodDecl) : List Char :=
  tagLine "@RpcMethod" method.id layout.indent ++
    ((if method.suspending then "suspend".toList ++ [' '] else []) ++
      ("fun".toList ++ ' ' :: method.name)) ++ ['(']

/-- The parameters between their parentheses. -/
def block (method : MethodDecl) : List Char :=
  [',', ' '].intercalate (method.params.map (·.source))

/-- The text behind the parameters. -/
def ending (method : MethodDecl) : List Char :=
  match method.returns? with
  | none => ['\n']
  | some type => ':' :: ' ' :: (type.canonical ++ ['\n'])

def source (layout : Layout) (method : MethodDecl) : List Char :=
  layout.indent ++ (method.head layout ++ (method.block ++ ')' :: method.ending))

end MethodDecl

namespace ServiceDecl

/-- The text up to the name of the interface. -/
def head (service : ServiceDecl) : List Char :=
  tagLine "@RpcService" service.route [] ++ ("interface".toList ++ ' ' :: service.name)

/-- The text behind the methods. -/
def ending (layout : Layout) : List Char :=
  '}' :: '\n' :: layout.gap

def source (layout : Layout) (service : ServiceDecl) : List Char :=
  service.head ++ (' ' :: '{' :: '\n' :: service.methods.flatMap (·.source layout) ++
    ending layout)

/-- Services one after the other. -/
def sourceAll (layout : Layout) (services : List ServiceDecl) : List Char :=
  services.flatMap (·.source layout)

end ServiceDecl

/-! ### What is to be read -/

def ParamDecl.param (resolver : Resolver) (param : ParamDecl) : Param :=
  ⟨String.ofList param.name, String.ofList (resolver.qualify (param.type.canonical))⟩

/-- The qualified return type; without one it is `Unit`. -/
def MethodDecl.returnType (resolver : Resolver) (method : MethodDecl) : String :=
  String.ofList (resolver.qualify
    (match method.returns? with
      | none => "Unit".toList
      | some type => type.canonical))

def MethodDecl.method (resolver : Resolver) (markers : Markers) (method : MethodDecl) : Method where
  id := String.ofList method.id
  name := String.ofList method.name
  parameters := method.params.map (·.param resolver)
  returnType := method.returnType resolver
  isStreaming := markers.isStreaming (method.returnType resolver)

def ServiceDecl.service (resolver : Resolver) (markers : Markers) (service : ServiceDecl) :
    Service where
  route := String.ofList service.route
  package := resolver.scope.package
  interface := String.ofList service.name
  methods := service.methods.map (·.method resolver markers)

/-! ### Well-formed declarations -/

/-- The quoted argument of a tag is not empty and holds no quote and no tag. -/
abbrev IsArgument (text : List Char) : Prop := IsRun (fun c => c != '"' && c != '@') text

/-- All names of the type are dotted names. -/
def HasDottedNames (type : TypeTree) : Prop := ∀ name ∈ type.names, IsDottedName name

instance (type : TypeTree) : Decidable (HasDottedNames type) :=
  inferInstanceAs (Decidable (∀ name ∈ type.names, IsDottedName name))

structure ParamDecl.IsWellFormed (param : ParamDecl) : Prop where
  name : IsIdentifier param.name
  type : HasDottedNames param.type

instance (param : ParamDecl) : Decidable param.IsWellFormed :=
  decidable_of_iff (IsIdentifier param.name ∧ HasDottedNames param.type)
    ⟨fun h => ⟨h.1, h.2⟩, fun h => ⟨h.name, h.type⟩⟩

structure MethodDecl.IsWellFormed (method : MethodDecl) : Prop where
  id : IsArgument method.id
  name : IsIdentifier method.name
  params : ∀ param ∈ method.params, param.IsWellFormed
  returns : ∀ type ∈ method.returns?, HasDottedNames type

instance (method : MethodDecl) : Decidable method.IsWellFormed :=
  decidable_of_iff (IsArgument method.id ∧ IsIdentifier method.name ∧
      (∀ param ∈ method.params, param.IsWellFormed) ∧
        ∀ type ∈ method.returns?, HasDottedNames type)
    ⟨fun h => ⟨h.1, h.2.1, h.2.2.1, h.2.2.2⟩, fun h => ⟨h.id, h.name, h.params, h.returns⟩⟩

structure ServiceDecl.IsWellFormed (service : ServiceDecl) : Prop where
  route : IsArgument service.route
  name : IsIdentifier service.name
  methods : ∀ method ∈ service.methods, method.IsWellFormed

instance (service : ServiceDecl) : Decidable service.IsWellFormed :=
  decidable_of_iff (IsArgument service.route ∧ IsIdentifier service.name ∧
      ∀ method ∈ service.methods, method.IsWellFormed)
    ⟨fun h => ⟨h.1, h.2.1, h.2.2⟩, fun h => ⟨h.route, h.name, h.methods⟩⟩

/-- The layout is made of white space. -/
structure Layout.IsBlank (layout : Layout) : Prop where
  indent : isBlank layout.indent = true
  gap : isBlank layout.gap = true

theorem HasDottedNames.isDeclared {type : TypeTree} (h : HasDottedNames type) : type.IsDeclared :=
  fun name hname => (h name hname).mono fun _ => isDeclaredChar_of_isDottedWord

/-! ### Characters -/

/-- A character of a type in canonical spacing. -/
def isTypeLineChar (c : Char) : Bool :=
  Shape.isDottedWord c || TypeTree.marks.contains c

theorem forall_char_canonical {type : TypeTree} (h : HasDottedNames type) :
    ∀ c ∈ type.canonical, isTypeLineChar c = true := by
  refine TypeTree.forall_char_text (fun name hname c hc => ?_) (by decide)
  unfold isTypeLineChar
  rw [(h name hname).forall_char c hc, Bool.true_or]

/-- A character of a list of parameters. -/
def isBlockChar (c : Char) : Bool :=
  isTypeLineChar c || c == ':'

theorem isBlockChar_of_isTypeLineChar {c : Char} (h : isTypeLineChar c = true) :
    isBlockChar c = true := by
  unfold isBlockChar
  rw [h, Bool.true_or]

theorem isTypeLineChar_of_isWord {c : Char} (h : isWord c = true) : isTypeLineChar c = true := by
  rw [isTypeLineChar, isDottedWord_of_isWord h, Bool.true_or]

theorem ParamDecl.forall_char_source {param : ParamDecl} (hwf : param.IsWellFormed) :
    ∀ c ∈ param.source, isBlockChar c = true := by
  intro c hc
  unfold source at hc
  rw [List.mem_append, List.mem_cons, List.mem_cons] at hc
  rcases hc with hc | rfl | rfl | hc
  · exact isBlockChar_of_isTypeLineChar (isTypeLineChar_of_isWord (hwf.name.forall_char c hc))
  · decide
  · decide
  · exact isBlockChar_of_isTypeLineChar (forall_char_canonical hwf.type c hc)

theorem MethodDecl.forall_char_block {method : MethodDecl} (hwf : method.IsWellFormed) :
    ∀ c ∈ method.block, isBlockChar c = true := by
  refine forall_char_intercalate (by decide) fun source hsource c hc => ?_
  obtain ⟨param, hparam, rfl⟩ := List.mem_map.1 hsource
  exact ParamDecl.forall_char_source (hwf.params param hparam) c hc

theorem isSolid_canonical {type : TypeTree} (h : HasDottedNames type) : IsSolid type.canonical :=
  (TypeTree.written_text type).isSolid h.isDeclared.isWellFormed

end RpcBinder.Declaration
