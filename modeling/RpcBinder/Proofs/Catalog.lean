import Mathlib.Data.List.Forall2
import RpcBinder.Catalog
import RpcBinder.Proofs.Series
import RpcBinder.Proofs.Table

/-!
# Catalogs and bindings

A catalog knows of several services with one interface the last one, and lists the interface where
the first one stood.  Binding fails with the first anchor whose interface is not listed.

## Main definitions

* `serviceOf?` — the service of an interface.
* `bindFailure?` — the failure of an anchor without a service.
* `IsBindingOf` — the binding of an anchor.

## Main results

* `interfaces_ofServices`, `get?_ofServices` — what a catalog lists and finds.
* `bind_eq` — binding fails with the first failure, or gives all bindings.
* `errorOf?_bind` — the failure names the first anchor without a service.
-/

namespace RpcBinder

/-! ### The services of a catalog -/

/-- The service of an interface: of several the last one. -/
def serviceOf? (services : List Service) (interfaceFqn : String) : Option Service :=
  services.reverse.find? fun service => service.interfaceFqn == interfaceFqn

section Services

variable (services : List Service)

theorem serviceOf?_eq (interfaceFqn : String) :
    serviceOf? services interfaceFqn =
      (services.filter (·.interfaceFqn == interfaceFqn)).getLast? :=
  List.getLast?_filter.symm

/-- The catalog finds the service of an interface. -/
theorem get?_ofServices (interfaceFqn : String) :
    (Catalog.ofServices services).get? interfaceFqn = serviceOf? services interfaceFqn := by
  unfold Catalog.ofServices Catalog.get? serviceOf?
  rw [Table.get?_ofList, ← List.map_reverse, List.find?_map, Option.map_map]
  -- the entries of the table are the services themselves, each beside its key
  exact Option.map_id'

/-- The interfaces of a catalog stand in order of their first services. -/
theorem interfaces_ofServices :
    (Catalog.ofServices services).interfaces = (services.map Service.interfaceFqn).eraseDups := by
  rw [Catalog.interfaces, Catalog.ofServices, Table.keys_ofList, List.map_map]
  rfl

theorem nodup_interfaces : (Catalog.ofServices services).interfaces.Nodup :=
  Table.nodup_keys_ofList _

theorem size_ofServices :
    (Catalog.ofServices services).size = (services.map Service.interfaceFqn).eraseDups.length := by
  rw [← interfaces_ofServices]
  exact (List.length_map _).symm

theorem mem_interfaces_iff {interfaceFqn : String} :
    interfaceFqn ∈ (Catalog.ofServices services).interfaces ↔
      ∃ service ∈ services, service.interfaceFqn = interfaceFqn := by
  rw [interfaces_ofServices, List.mem_eraseDups, List.mem_map]

/-- An interface has a service just if it is listed. -/
theorem serviceOf?_eq_none_iff {interfaceFqn : String} :
    serviceOf? services interfaceFqn = none ↔
      interfaceFqn ∉ (Catalog.ofServices services).interfaces := by
  rw [mem_interfaces_iff, serviceOf?, List.find?_eq_none]
  simp

end Services

/-! ### Bindings -/

/-- An anchor without a service fails. -/
def bindFailure? (services : List Service) (side : Side) (anchor : Anchor) : Option Failure :=
  match serviceOf? services anchor.interfaceFqn with
  | some _ => none
  | none => some (.unknownInterface side anchor.className anchor.interfaceFqn)

/-- The binding of an anchor: with the last service of its interface, and under the anchor's own
route, or else the route of the service. -/
structure IsBindingOf (services : List Service) (binding : Binding) (anchor : Anchor) : Prop where
  anchor_eq : binding.anchor = anchor
  service_eq : (services.filter (·.interfaceFqn == anchor.interfaceFqn)).getLast? =
    some binding.service
  route_eq : binding.route = match anchor.routeOverride with
    | some route => route
    | none => binding.service.route

section Bindings

variable {services : List Service} {side : Side}

theorem bind_eq (anchors : List Anchor) :
    (Catalog.ofServices services).bind side anchors =
      unlessFailed (anchors.filterMap (bindFailure? services side))
        (anchors.filterMap fun anchor =>
          (serviceOf? services anchor.interfaceFqn).map fun service => ⟨service, anchor⟩) := by
  -- anchor by anchor, the catalog answers as the search among the services
  have hfailure : (fun anchor => errorOf? ((Catalog.ofServices services).bindOne side anchor)) =
      bindFailure? services side := by
    funext anchor
    rw [Catalog.bindOne, get?_ofServices, bindFailure?]
    cases serviceOf? services anchor.interfaceFqn <;> rfl
  have hbinding : (fun anchor => ((Catalog.ofServices services).bindOne side anchor).toOption) =
      fun anchor => (serviceOf? services anchor.interfaceFqn).map fun service =>
        ⟨service, anchor⟩ := by
    funext anchor
    rw [Catalog.bindOne, get?_ofServices]
    cases serviceOf? services anchor.interfaceFqn <;> rfl
  rw [Catalog.bind, mapM_eq, hfailure, hbinding]

/-- The first failure of binding is that of the first anchor whose interface is not listed. -/
theorem head?_bindFailures (services : List Service) (side : Side) (anchors : List Anchor) :
    (anchors.filterMap (bindFailure? services side)).head? =
      (anchors.find? fun anchor =>
        anchor.interfaceFqn ∉ (Catalog.ofServices services).interfaces).map fun anchor =>
          .unknownInterface side anchor.className anchor.interfaceFqn := by
  induction anchors with
  | nil => rfl
  | cons anchor anchors ih =>
    rw [List.filterMap_cons, List.find?_cons, bindFailure?]
    cases hservice : serviceOf? services anchor.interfaceFqn with
    | none =>
      rw [decide_eq_true ((serviceOf?_eq_none_iff services).1 hservice)]
      rfl
    | some service =>
      have hlisted : ¬ anchor.interfaceFqn ∉ (Catalog.ofServices services).interfaces := by
        rw [← serviceOf?_eq_none_iff, hservice]
        nofun
      rw [decide_eq_false hlisted]
      exact ih

/-- The failure of binding names the first anchor whose interface is not listed. -/
theorem errorOf?_bind (services : List Service) (side : Side) (anchors : List Anchor) :
    errorOf? ((Catalog.ofServices services).bind side anchors) =
      (anchors.find? fun anchor =>
        anchor.interfaceFqn ∉ (Catalog.ofServices services).interfaces).map fun anchor =>
          .unknownInterface side anchor.className anchor.interfaceFqn := by
  rw [bind_eq, errorOf?_unlessFailed, head?_bindFailures]

/-- Anchors that are bound are bound one by one. -/
theorem forall₂_isBindingOf {anchors : List Anchor} {bindings : List Binding}
    (h : (Catalog.ofServices services).bind side anchors = .ok bindings) :
    List.Forall₂ (IsBindingOf services) bindings anchors := by
  refine (forall₂_of_mapM_eq_ok h).imp fun binding anchor hbind => ?_
  rw [Catalog.bindOne, get?_ofServices, serviceOf?_eq] at hbind
  split at hbind
  · next service hservice =>
    obtain rfl := Except.ok.inj hbind
    refine ⟨rfl, hservice, ?_⟩
    rw [Binding.route]
    cases anchor.routeOverride <;> rfl
  · cases hbind

end Bindings

end RpcBinder
