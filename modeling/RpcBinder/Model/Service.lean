import RpcBinder.Marker

/-!
# Services

An RPC service is an interface with a route and with methods that are called by their
identifiers.

## Main definitions

* `Param`, `Method`, `Service` — the parts of a service.
* `Service.interfaceFqn` — the key under which an anchor finds it.
* `Service.validate` — what a generator may rely on.
-/

namespace RpcBinder

/-- A parameter of a method. -/
structure Param where
  /-- Its name. -/
  name : String
  /-- Its qualified type. -/
  type : String
  deriving DecidableEq, Repr, Inhabited

/-- A method of a service. -/
structure Method where
  /-- The identifier by which it is called. -/
  id : String
  /-- Its name. -/
  name : String
  /-- Its parameters in order. -/
  parameters : List Param
  /-- Its qualified return type, with type arguments and nullability as written. -/
  returnType : String
  /-- It returns a stream. -/
  isStreaming : Bool
  deriving DecidableEq, Repr, Inhabited

/-- An interface whose methods are called from afar. -/
structure Service where
  /-- The route under which it is reached. -/
  route : String
  /-- The package of the interface. -/
  package : String
  /-- The name of the interface. -/
  interface : String
  /-- Its methods in order of declaration. -/
  methods : List Method
  deriving DecidableEq, Repr, Inhabited

/-- What is wrong with a service. -/
inductive ServiceFault
  /-- The route of an interface is blank. -/
  | blankRoute (interfaceFqn : String)
  /-- The interface behind a route has a blank name. -/
  | blankInterface (route : String)
  deriving DecidableEq, Repr, Inhabited

/-- The wording of a fault. -/
def ServiceFault.message : ServiceFault → String
  | .blankRoute interfaceFqn => "Invalid model: service " ++ interfaceFqn ++ " has an empty route name"
  | .blankInterface route => "Invalid model: service '" ++ route ++ "' has no interface name"

namespace Service

/-- The qualified name of the interface. -/
def interfaceFqn (service : Service) : String :=
  qualifiedName service.package service.interface

/-- The first method with an identifier. -/
def method? (service : Service) (id : String) : Option Method :=
  service.methods.find? (·.id == id)

/-- The methods that return streams, in order. -/
def streamingMethods (service : Service) : List Method :=
  service.methods.filter (·.isStreaming)

/-- A service must have a route and an interface name that are not blank; the route is looked
at first. -/
def validate (service : Service) : Except ServiceFault Unit :=
  if isBlank service.route.toList then .error (.blankRoute service.interfaceFqn)
  else if isBlank service.interface.toList then .error (.blankInterface service.route)
  else .ok ()

end Service

end RpcBinder
