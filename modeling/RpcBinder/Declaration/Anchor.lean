import RpcBinder.Declaration.Shape
import RpcBinder.Declaration.TypeText
import RpcBinder.Model.Anchor
import RpcBinder.Scope.Resolver

/-!
# The anchors that a source declares

A client anchor names its interface as its supertype, a server anchor as the type of its
constructor parameter.

## Main definitions

* `AnchorArguments`, `parseAnchorArguments` — the arguments of an anchor's tag.
* `anchorsOf` — the anchors of one side in a source.
-/

namespace RpcBinder.Declaration

/-- What the tag of an anchor says. -/
structure AnchorArguments where
  /-- A route that takes the place of the service's own. -/
  service : Option String := none
  /-- A factory is wanted. -/
  generateFactory : Bool := true
  deriving DecidableEq, Repr, Inhabited

/-- The arguments after one more key with its value.  A blank service is none, and a factory
is wanted unless the value is `false`. -/
def AnchorArguments.record (arguments : AnchorArguments) (key value : List Char) :
    AnchorArguments :=
  if key == "service".toList then
    let service := trim value
    { arguments with service := if service.isEmpty then none else some (String.ofList service) }
  else if key == "generateFactory".toList then
    { arguments with generateFactory := value != "false".toList }
  else arguments

/-- What the arguments of a tag say; of two values for a key the later one counts. -/
def parseAnchorArguments (text : List Char) : AnchorArguments :=
  (Shape.anchorArgument.findAll text).foldl
    (fun arguments found =>
      arguments.record (found.part .key)
        ((found.part? .quoted).getD (found.part .bare)))
    {}

/-- The shape of an anchor. -/
def anchorShape : Side → Pattern Part
  | .client => Shape.clientAnchor
  | .server => Shape.serverAnchor

/-- The part of an anchor that names its interface. -/
def interfacePart : Side → Part
  | .client => .supertype
  | .server => .implemented

/-- The anchor behind a match of its shape. -/
def anchorAt (resolver : Resolver) (side : Side) (found : Match Part) : Anchor :=
  let arguments := parseAnchorArguments (found.part .arguments)
  { package := resolver.scope.package
    className := String.ofList (found.part .name)
    interfaceFqn := String.ofList (resolver.qualify (anchorBase (found.part (interfacePart side))))
    routeOverride := arguments.service
    generateFactory := arguments.generateFactory }

/-- The anchors of one side in a source without comments, in order. -/
def anchorsOf (resolver : Resolver) (side : Side) (source : List Char) : List Anchor :=
  ((anchorShape side).findAll source).map (anchorAt resolver side)

end RpcBinder.Declaration
