import RpcBinder.Failure
import RpcBinder.Model.Service
import RpcBinder.Table

/-!
# The catalog of services

Services are found by the qualified names of their interfaces.  Of two services with the same
interface the later one counts.

## Main definitions

* `Catalog`, `Catalog.ofServices` — the catalog of a list of services.
* `Binding` — an anchor with its service.
* `Catalog.bind` — the bindings of a list of anchors.
-/

namespace RpcBinder

/-- Services by their interfaces. -/
structure Catalog where
  /-- The services, in order of the first one for each interface. -/
  services : Table String Service
  deriving DecidableEq, Repr

/-- An anchor with the service of its interface. -/
structure Binding where
  /-- The service. -/
  service : Service
  /-- The anchor. -/
  anchor : Anchor
  deriving DecidableEq, Repr, Inhabited

/-- The route that generated code uses: the anchor's if it has one, else the service's. -/
def Binding.route (binding : Binding) : String :=
  binding.anchor.routeOverride.getD binding.service.route

namespace Catalog

/-- The catalog of a list of services. -/
def ofServices (services : List Service) : Catalog :=
  ⟨.ofList (services.map fun service => (service.interfaceFqn, service))⟩

/-- The service of an interface. -/
def get? (catalog : Catalog) (interfaceFqn : String) : Option Service :=
  catalog.services.get? interfaceFqn

/-- The interfaces in order. -/
def interfaces (catalog : Catalog) : List String :=
  catalog.services.keys

/-- The number of interfaces. -/
def size (catalog : Catalog) : Nat :=
  catalog.services.size

/-- An anchor with the service of its interface, which must be there. -/
def bindOne (catalog : Catalog) (side : Side) (anchor : Anchor) : Except Failure Binding :=
  match catalog.get? anchor.interfaceFqn with
  | some service => .ok ⟨service, anchor⟩
  | none => .error (.unknownInterface side anchor.className anchor.interfaceFqn)

/-- Every anchor of one side with its service, in order.  The first anchor without a service
makes it fail. -/
def bind (catalog : Catalog) (side : Side) (anchors : List Anchor) :
    Except Failure (List Binding) :=
  anchors.mapM (catalog.bindOne side)

end Catalog

end RpcBinder
