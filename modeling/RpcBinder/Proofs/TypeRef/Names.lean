import RpcBinder.Proofs.TypeRef.Qualification

/-!
# The names of a type reference

A reference that is read from a text holds the names that are replaced in it, one by one.  If each of
them is replaced by itself, the reference stays as it is; and whatever replaces one of them stands in
the text.

## Main definitions

* `TypeRef.names` — the names of a reference, in order.

## Main results

* `TypeRef.mapNames_eq_self` — names that stay leave the reference as it is.
* `TypeRef.infix_render_mapNames` — what replaces a name stands in the text.
-/

namespace RpcBinder.TypeRef

mutual

/-- The names of a reference, in order. -/
def names : TypeRef → List (List Char)
  | .verbatim _ => []
  | .named name => [name]
  | .generic base arguments _ => base :: namesAll arguments
  | .nullable type => names type
  | .projected _ type => names type

/-- The names of references, in order. -/
def namesAll : List TypeRef → List (List Char)
  | [] => []
  | type :: types => names type ++ namesAll types

end

/-- Induction over references, with a hypothesis for each type argument. -/
@[induction_eliminator]
theorem induct {motive : TypeRef → Prop} (verbatim : ∀ text, motive (.verbatim text))
    (named : ∀ name, motive (.named name))
    (generic : ∀ base arguments tail, (∀ type ∈ arguments, motive type) →
      motive (.generic base arguments tail))
    (nullable : ∀ type, motive type → motive (.nullable type))
    (projected : ∀ variance type, motive type → motive (.projected variance type)) :
    ∀ type, motive type := by
  intro type
  refine @TypeRef.rec motive (fun types => ∀ type ∈ types, motive type)
    verbatim named generic nullable projected ?_ ?_ type
  · simp
  · intro type types htype htypes
    exact List.forall_mem_cons.2 ⟨htype, htypes⟩

theorem namesAll_eq (types : List TypeRef) : namesAll types = types.flatMap names := by
  induction types with
  | nil => rfl
  | cons type types ih => rw [namesAll, ih, List.flatMap_cons]

variable {f : List Char → List Char}

theorem mem_names_generic {base tail name : List Char} {arguments : List TypeRef} :
    name ∈ (generic base arguments tail).names ↔
      name = base ∨ ∃ type ∈ arguments, name ∈ type.names := by
  rw [names, namesAll_eq, List.mem_cons, List.mem_flatMap]

/-- A reference whose names stay is the same reference. -/
theorem mapNames_eq_self {type : TypeRef} (h : ∀ name ∈ type.names, f name = name) :
    type.mapNames f = type := by
  induction type with
  | verbatim text => rfl
  | named name => rw [mapNames, h name (by rw [names]; exact List.mem_singleton_self name)]
  | generic base arguments tail ih =>
    have hbase : f base = base := h base (mem_names_generic.2 (Or.inl rfl))
    have harguments : arguments.map (mapNames f) = arguments.map id :=
      List.map_congr_left fun type hmem =>
        ih type hmem fun name hname => h name (mem_names_generic.2 (Or.inr ⟨type, hmem, hname⟩))
    rw [mapNames, mapNamesAll_eq, hbase, harguments, List.map_id]
  | nullable type ih => rw [mapNames, ih h]
  | projected variance type ih => rw [mapNames, ih h]

theorem infix_intercalate (separator : List Char) {text : List Char} {texts : List (List Char)}
    (h : text ∈ texts) : text <:+: separator.intercalate texts := by
  induction texts with
  | nil => exact absurd h List.not_mem_nil
  | cons first texts ih =>
    cases texts with
    | nil =>
      obtain rfl : text = first := List.mem_singleton.1 h
      exact ⟨[], [], by simp⟩
    | cons second texts =>
      rw [List.intercalate_cons_cons]
      rcases List.mem_cons.1 h with rfl | h
      · exact ⟨[], separator ++ separator.intercalate (second :: texts), by simp⟩
      · exact (ih h).trans (List.suffix_append _ _).isInfix

/-- What replaces a name of a reference stands in its text. -/
theorem infix_render_mapNames {name : List Char} {type : TypeRef} (h : name ∈ type.names)
    (f : List Char → List Char) : f name <:+: (type.mapNames f).render := by
  induction type with
  | verbatim text => exact absurd h List.not_mem_nil
  | named other =>
    obtain rfl : name = other := List.mem_singleton.1 h
    exact ⟨[], [], by simp [mapNames]⟩
  | generic base arguments tail ih =>
    rw [mapNames, mapNamesAll_eq, render_generic, renderAll_eq, List.map_map]
    rcases mem_names_generic.1 h with rfl | ⟨type, hmem, hname⟩
    · exact (List.prefix_append _ _).isInfix
    · have hargument : (type.mapNames f).render ∈ arguments.map (render ∘ mapNames f) :=
        List.mem_map_of_mem hmem
      refine (ih type hmem hname).trans ((infix_intercalate [',', ' '] hargument).trans ?_)
      exact ⟨f base ++ ['<'], '>' :: tail, by simp⟩
  | nullable type ih =>
    rw [mapNames, render_nullable]
    exact (ih h).trans (List.prefix_append _ _).isInfix
  | projected variance type ih =>
    rw [mapNames, render_projected]
    exact (ih h).trans (List.suffix_append _ _).isInfix

end RpcBinder.TypeRef
