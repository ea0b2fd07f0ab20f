/-!
# Anchors

An anchor is an abstract class of a client or a server that names the interface of a
service.  A generated class of the same package extends it.

## Main definitions

* `Side` — client or server.
* `Anchor` — an anchor of either side.
-/

namespace RpcBinder

/-- The two ends of a call. -/
inductive Side
  /-- The end that calls. -/
  | client
  /-- The end that answers. -/
  | server
  deriving DecidableEq, Repr, Inhabited

/-- The word for a side. -/
def Side.word : Side → String
  | .client => "client"
  | .server => "server"

/-- An abstract class that is bound to the interface of a service. -/
structure Anchor where
  /-- The package of the class. -/
  package : String
  /-- The name of the class. -/
  className : String
  /-- The qualified name of the interface. -/
  interfaceFqn : String
  /-- A route that takes the place of the service's own. -/
  routeOverride : Option String
  /-- A factory is wanted for the generated class. -/
  generateFactory : Bool
  deriving DecidableEq, Repr, Inhabited

/-- The name of the generated class. -/
def Anchor.implName (anchor : Anchor) : String :=
  anchor.className ++ "Impl"

end RpcBinder
