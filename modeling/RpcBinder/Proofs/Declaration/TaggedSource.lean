import RpcBinder.Proofs.Declaration.StuckTags

/-!
# Services with further tags

Between the tag and the header of a service, and between the tag and the signature of a method,
there may be white space and further tags.  All else is printed as it is without them.

## Main definitions

* `TaggedService`, `TaggedMethod` — services with what stands between.
* `TaggedService.source` and its like — their texts.
* `TaggedService.declared`, `TaggedService.bare` — the services themselves, and the same without
  further tags.
* `TaggedService.IsWellFormed`, `TaggedService.IsReadable`, `TaggedService.IsDecided` — what
  further tags there may be, and whether they are read.
-/

namespace RpcBinder.Declaration

/-- A method with further tags. -/
structure TaggedMethod where
  /-- The method. -/
  declared : MethodDecl
  /-- What stands between its tag and its signature. -/
  between : Between

/-- A service with further tags. -/
structure TaggedService where
  /-- Its route. -/
  route : List Char
  /-- The name of its interface. -/
  name : List Char
  /-- What stands between its tag and its header. -/
  between : Between
  /-- Its methods. -/
  methods : List TaggedMethod

/-! ### Texts -/

namespace TaggedMethod

/-- The text from the first word up to the parenthesis of the parameters. -/
def words (method : TaggedMethod) : List Char :=
  (if method.declared.suspending then "suspend".toList ++ [' '] else []) ++
    ("fun".toList ++ ' ' :: method.declared.name) ++ ['(']

/-- The text up to the parenthesis of the parameters, from the tag on. -/
def head (method : TaggedMethod) : List Char :=
  lead "RpcMethod" method.declared.id method.between ++ method.words

def source (layout : Layout) (method : TaggedMethod) : List Char :=
  layout.indent ++ (method.head ++ (method.declared.block ++ ')' :: method.declared.ending))

/-- The same without further tags. -/
def bare (method : TaggedMethod) : TaggedMethod :=
  { method with between := method.between.bare }

end TaggedMethod

namespace TaggedService

/-- The text up to the name of the interface. -/
def head (service : TaggedService) : List Char :=
  lead "RpcService" service.route service.between ++ ("interface".toList ++ ' ' :: service.name)

def source (layout : Layout) (service : TaggedService) : List Char :=
  service.head ++ ([' ', '{', '\n'] ++ (service.methods.flatMap (·.source layout) ++
    ServiceDecl.ending layout))

/-- Services one after the other. -/
def sourceAll (layout : Layout) (services : List TaggedService) : List Char :=
  services.flatMap (·.source layout)

/-- The service itself. -/
def declared (service : TaggedService) : ServiceDecl :=
  ⟨service.route, service.name, service.methods.map (·.declared)⟩

/-- The same without further tags. -/
def bare (service : TaggedService) : TaggedService :=
  { service with between := service.between.bare, methods := service.methods.map (·.bare) }

end TaggedService

/-! ### Well-formed services -/

/-- The further tags of a method neither are nor hold the tag of a service. -/
structure TaggedMethod.IsWellFormed (method : TaggedMethod) : Prop where
  declared : method.declared.IsWellFormed
  between : method.between.IsWellFormed
  further : ∀ tag ∈ method.between.tags, tag.IsFurther "RpcService"

instance (method : TaggedMethod) : Decidable method.IsWellFormed :=
  decidable_of_iff (method.declared.IsWellFormed ∧ method.between.IsWellFormed ∧
      ∀ tag ∈ method.between.tags, tag.IsFurther "RpcService")
    ⟨fun h => ⟨h.1, h.2.1, h.2.2⟩, fun h => ⟨h.declared, h.between, h.further⟩⟩

/-- The further tags of a service neither are nor hold the tag of a method. -/
structure TaggedService.IsWellFormed (service : TaggedService) : Prop where
  route : IsArgument service.route
  name : IsIdentifier service.name
  between : service.between.IsWellFormed
  further : ∀ tag ∈ service.between.tags, tag.IsFurther "RpcMethod"
  methods : ∀ method ∈ service.methods, method.IsWellFormed

instance (service : TaggedService) : Decidable service.IsWellFormed :=
  decidable_of_iff (IsArgument service.route ∧ IsIdentifier service.name ∧
      service.between.IsWellFormed ∧ (∀ tag ∈ service.between.tags, tag.IsFurther "RpcMethod") ∧
        ∀ method ∈ service.methods, method.IsWellFormed)
    ⟨fun h => ⟨h.1, h.2.1, h.2.2.1, h.2.2.2.1, h.2.2.2.2⟩,
      fun h => ⟨h.route, h.name, h.between, h.further, h.methods⟩⟩

namespace Between

/-- The further tags are all read, or they get stuck and do not hold the declaration's own tag
either. -/
def IsDecided (word keyword : String) (between : Between) : Prop :=
  between.IsReadable ∨
    between.IsStuck keyword ∧ ∀ tag ∈ between.tags, tag.IsFurther word

instance (word keyword : String) : DecidablePred (IsDecided word keyword) := fun between =>
  inferInstanceAs (Decidable (between.IsReadable ∨
    between.IsStuck keyword ∧ ∀ tag ∈ between.tags, tag.IsFurther word))

theorem bare_isReadable (between : Between) : between.bare.IsReadable :=
  List.forall_mem_nil _

theorem IsWellFormed.bare {between : Between} (h : between.IsWellFormed) :
    between.bare.IsWellFormed :=
  ⟨h.gap, List.forall_mem_nil _⟩

end Between

/-- All further tags of a service and of its methods are readable. -/
def TaggedService.IsReadable (service : TaggedService) : Prop :=
  service.between.IsReadable ∧ ∀ method ∈ service.methods, method.between.IsReadable

/-- Each tag of a service and of its methods is followed by readable tags or by stuck ones. -/
def TaggedService.IsDecided (service : TaggedService) : Prop :=
  service.between.IsDecided "RpcService" "interface" ∧
    ∀ method ∈ service.methods, method.between.IsDecided "RpcMethod" "fun"

instance : DecidablePred TaggedService.IsReadable := fun service =>
  inferInstanceAs (Decidable (service.between.IsReadable ∧
    ∀ method ∈ service.methods, method.between.IsReadable))

instance : DecidablePred TaggedService.IsDecided := fun service =>
  inferInstanceAs (Decidable (service.between.IsDecided "RpcService" "interface" ∧
    ∀ method ∈ service.methods, method.between.IsDecided "RpcMethod" "fun"))

theorem TaggedService.IsReadable.isDecided {service : TaggedService} (h : service.IsReadable) :
    service.IsDecided :=
  ⟨Or.inl h.1, fun method hmem => Or.inl (h.2 method hmem)⟩

theorem TaggedMethod.IsWellFormed.bare {method : TaggedMethod} (h : method.IsWellFormed) :
    method.bare.IsWellFormed :=
  ⟨h.declared, h.between.bare, List.forall_mem_nil _⟩

namespace TaggedService

theorem IsWellFormed.bare {service : TaggedService} (h : service.IsWellFormed) :
    service.bare.IsWellFormed := by
  refine ⟨h.route, h.name, h.between.bare, List.forall_mem_nil _, ?_⟩
  intro method hmem
  obtain ⟨method, hmethod, rfl⟩ := List.mem_map.1 hmem
  exact (h.methods method hmethod).bare

theorem bare_isReadable (service : TaggedService) : service.bare.IsReadable := by
  refine ⟨service.between.bare_isReadable, ?_⟩
  intro method hmem
  obtain ⟨method, -, rfl⟩ := List.mem_map.1 hmem
  exact method.between.bare_isReadable

theorem declared_bare (service : TaggedService) : service.bare.declared = service.declared := by
  unfold declared bare
  rw [List.map_map]
  rfl

end TaggedService

end RpcBinder.Declaration
