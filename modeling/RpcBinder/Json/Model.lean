import RpcBinder.Json.Basic
import RpcBinder.Marker
import RpcBinder.Model.Anchor
import RpcBinder.Model.Service

/-!
# Services, anchors and markers as JSON

Each model is a record.  A record is written as an object with its fields in order, and read
from an object or from an array of its fields.

## Main definitions

* `toJson` and `ofJson?` of `Param`, `Method`, `Service`, `Anchor`, `Side` and `Marker`.
-/

namespace RpcBinder

open Json

/-- A parameter as an object. -/
def Param.toJson (param : Param) : Json :=
  ofMembers [("name", string param.name), ("type", string param.type)]

/-- The parameter that a value describes. -/
def Param.ofJson? (value : Json) : Option Param := do
  let [name, type] ← value.fields? ["name", "type"] | none
  return {
    name := ← required name asString?
    type := ← required type asString? }

/-- A method as an object. -/
def Method.toJson (method : Method) : Json :=
  ofMembers [("rpcMethodId", string method.id), ("methodName", string method.name),
    ("parameters", .array (method.parameters.map Param.toJson)),
    ("returnType", string method.returnType), ("isStreaming", .bool method.isStreaming)]

/-- The method that a value describes. -/
def Method.ofJson? (value : Json) : Option Method := do
  let [id, name, parameters, returnType, isStreaming] ←
    value.fields? ["rpcMethodId", "methodName", "parameters", "returnType", "isStreaming"] | none
  return {
    id := ← required id asString?
    name := ← required name asString?
    parameters := ← required parameters (asList? Param.ofJson?)
    returnType := ← required returnType asString?
    isStreaming := ← required isStreaming asBool? }

/-- A service as an object. -/
def Service.toJson (service : Service) : Json :=
  ofMembers [("serviceName", string service.route), ("packageName", string service.package),
    ("interfaceName", string service.interface),
    ("methods", .array (service.methods.map Method.toJson))]

/-- The service that a value describes. -/
def Service.ofJson? (value : Json) : Option Service := do
  let [route, package, interface, methods] ←
    value.fields? ["serviceName", "packageName", "interfaceName", "methods"] | none
  return {
    route := ← required route asString?
    package := ← required package asString?
    interface := ← required interface asString?
    methods := ← required methods (asList? Method.ofJson?) }

/-- An anchor as an object. -/
def Anchor.toJson (anchor : Anchor) : Json :=
  ofMembers [("packageName", string anchor.package),
    ("abstractClassName", string anchor.className), ("interfaceFqn", string anchor.interfaceFqn),
    ("explicitServiceName", string? anchor.routeOverride),
    ("generateFactory", .bool anchor.generateFactory)]

/-- The anchor that a value describes. -/
def Anchor.ofJson? (value : Json) : Option Anchor := do
  let [package, className, interfaceFqn, routeOverride, generateFactory] ←
    value.fields? ["packageName", "abstractClassName", "interfaceFqn", "explicitServiceName",
      "generateFactory"] | none
  return {
    package := ← required package asString?
    className := ← required className asString?
    interfaceFqn := ← required interfaceFqn asString?
    routeOverride := ← optionalString routeOverride
    generateFactory := ← required generateFactory asBool? }

/-- The side named by a word. -/
def Side.ofWord? (word : String) : Option Side :=
  if word == "client" then some .client
  else if word == "server" then some .server
  else none

/-- A side as its word. -/
def Side.toJson (side : Side) : Json :=
  string side.word

/-- The side that a value names, as a word or as the only key of an object, with null behind
it. -/
def Side.ofJson? : Json → Option Side
  | .literal (some word) => Side.ofWord? word
  | .object [(some word, .null)] => Side.ofWord? word
  | _ => none

/-- A marker as an object. -/
def Marker.toJson (marker : Marker) : Json :=
  ofMembers [("simpleName", string marker.simpleName), ("fqn", string marker.fqn),
    ("streaming", .bool marker.streaming)]

/-- The marker that a value describes; it is no stream unless it says so. -/
def Marker.ofJson? (value : Json) : Option Marker := do
  let [simpleName, fqn, streaming] ← value.fields? ["simpleName", "fqn", "streaming"] | none
  return {
    simpleName := ← required simpleName asString?
    fqn := ← required fqn asString?
    streaming := ← withDefault false streaming asBool? }

/-- Markers as an array. -/
def Markers.toJson (markers : Markers) : Json :=
  .array (markers.map Marker.toJson)

/-- The markers that a value lists. -/
def Markers.ofJson? (value : Json) : Option Markers :=
  asList? Marker.ofJson? value

end RpcBinder
