import RpcBinder.Json.Model
import RpcBinder.Json.Printer
import RpcBinder.Stub.Basic

/-!
# Descriptors

The stub of a binding as a JSON document instead of code.

## Main definitions

* `descriptor` — the document.
* `descriptorGenerator` — the generator that writes it.
-/

namespace RpcBinder

/-- The document that describes a service bound to an anchor. -/
def descriptor (options : StubOptions) (side : Side) (service : Service) (anchor : Anchor) : Json :=
  Json.ofMembers (
    [("kind", side.toJson), ("packageName", .string anchor.package),
      ("implClassName", .string anchor.implName), ("extends", .string anchor.className),
      ("interfaceFqn", .string anchor.interfaceFqn),
      ("serviceName", .string (Binding.route ⟨service, anchor⟩)),
      ("generateFactory", .bool anchor.generateFactory), ("obfuscated", .bool options.obfuscated)] ++
    (if options.debugInfo then [("debug", service.toJson)] else []) ++
    [("methods", .array (service.methods.map Method.toJson))])

/-- The generator of descriptors.  It gives up on a service that is not valid. -/
def descriptorGenerator : Generator where
  extension := "json"
  generate options side service anchor :=
    match service.validate with
    | .ok () => .ok (descriptor options side service anchor).pretty
    | .error fault => .error fault.message

end RpcBinder
