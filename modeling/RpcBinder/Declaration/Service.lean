import RpcBinder.Declaration.Shape
import RpcBinder.Declaration.TypeText
import RpcBinder.Lexis.Parens
import RpcBinder.Model.Service
import RpcBinder.Scope.Resolver

/-!
# The services that a source declares

A method belongs to the last service header before it; methods in front of the first header
belong to the first service.

## Main definitions

* `MalformedParameter` — why a method cannot be read.
* `parseParams` — the parameters in a list.
* `methodAt` — the method behind a match of its shape.
* `servicesOf` — the services of a source.
-/

namespace RpcBinder.Declaration

/-- A text that should be a parameter and is not. -/
structure MalformedParameter where
  /-- The text. -/
  fragment : String
  deriving DecidableEq, Repr, Inhabited

/-- The parameter that an entry of a list gives: a name before the first colon, a type behind
it.  Neither may be missing. -/
def parseParam (resolver : Resolver) (entry : List Char) : Except MalformedParameter Param :=
  match splitFirst? ':' entry with
  | none => .error ⟨String.ofList entry⟩
  | some (before, after) =>
      let name := parameterName before
      let type := cleanType (stripDefault after)
      if name.isEmpty || type.isEmpty then .error ⟨String.ofList entry⟩
      else .ok ⟨String.ofList name, String.ofList (resolver.qualify type)⟩

/-- The parameters between the parentheses of a method.  Empty entries do not count. -/
def parseParams (resolver : Resolver) (block : List Char) :
    Except MalformedParameter (List Param) :=
  ((Lexis.splitTopLevel block).filter (!·.isEmpty)).mapM (parseParam resolver)

/-- The return type behind the parameters of a method as it is written, empty if there is
none. -/
def writtenReturnType (after : List Char) : List Char :=
  match Shape.returnType.matchAt? (Cursor.ofText after) with
  | some found => cleanType (found.part .returnType)
  | none => []

/-- The qualified return type behind the parameters of a method; without one it is `Unit`. -/
def returnTypeOf (resolver : Resolver) (after : List Char) : String :=
  let written := writtenReturnType after
  String.ofList (resolver.qualify (if written.isEmpty then "Unit".toList else written))

/-- The method that begins with a match of its shape. -/
def methodAt (resolver : Resolver) (markers : Markers) (found : Match Part) :
    Except MalformedParameter Method :=
  let rest := found.stop.rest
  match Lexis.splitClosing rest with
  | none => .error ⟨String.ofList (trim ('(' :: rest.takeWhile (· != '\n')))⟩
  | some (block, after) => do
      let parameters ← parseParams resolver block
      let returnType := returnTypeOf resolver after
      return {
        id := String.ofList (found.part .id)
        name := String.ofList (found.part .name)
        parameters
        returnType
        isStreaming := markers.isStreaming returnType }

/-- The number of the header to which a place belongs: the last one that does not begin after
it, or the first. -/
def ownerOf (headers : List (Match Part)) (place : Cursor) : Nat :=
  (headers.takeWhile fun header => place.left ≤ header.start.left).length - 1

/-- The service of a header, with the methods that belong to it. -/
def serviceAt (resolver : Resolver) (header : Match Part) (methods : List Method) : Service where
  route := String.ofList (header.part .route)
  package := resolver.scope.package
  interface := String.ofList (header.part .name)
  methods := methods

/-- The services of a source without comments, in order.  If a method cannot be read there are
none, and the first such method is the reason. -/
def servicesOf (resolver : Resolver) (markers : Markers) (source : List Char) :
    Except MalformedParameter (List Service) :=
  let headers := Shape.service.findAll source
  if headers.isEmpty then .ok []
  else do
    let methods ← (Shape.method.findAll source).mapM fun found => do
      return (ownerOf headers found.start, ← methodAt resolver markers found)
    return headers.zipIdx.map fun (header, number) =>
      serviceAt resolver header ((methods.filter (·.1 == number)).map (·.2))

end RpcBinder.Declaration
