/-!
# Type references

A type reference as it is written in a source, apart from spacing: names, type arguments,
nullability and variance.

## Main definitions

* `TypeRef` — the references.
* `TypeRef.render` — their text.
* `TypeRef.mapNames` — a reference with its names replaced.
-/

namespace RpcBinder

/-- The variance of a type argument. -/
inductive Variance
  /-- A producer, `out T`. -/
  | producer
  /-- A consumer, `in T`. -/
  | consumer
  deriving DecidableEq, Repr, Inhabited

/-- The keyword of a variance with the space after it. -/
def Variance.keyword : Variance → List Char
  | .producer => "out ".toList
  | .consumer => "in ".toList

/-- A reference to a type. -/
inductive TypeRef
  /-- A text that is kept as it is: a star, nothing, or brackets that do not fit. -/
  | verbatim (text : List Char)
  /-- A name. -/
  | named (name : List Char)
  /-- A name with type arguments, and what stands behind their closing bracket. -/
  | generic (base : List Char) (arguments : List TypeRef) (tail : List Char)
  /-- A reference followed by a question mark. -/
  | nullable (type : TypeRef)
  /-- A reference with a variance in front. -/
  | projected (variance : Variance) (type : TypeRef)
  deriving Repr, Inhabited

namespace TypeRef

mutual

/-- The text of a reference in front of what follows it. -/
def renderOnto : TypeRef → List Char → List Char
  | .verbatim text, after => text ++ after
  | .named name, after => name ++ after
  | .generic base arguments tail, after =>
      base ++ '<' :: renderAllOnto arguments ('>' :: (tail ++ after))
  | .nullable type, after => renderOnto type ('?' :: after)
  | .projected variance type, after => variance.keyword ++ renderOnto type after

/-- The texts of references, with a comma and a space between them, in front of what follows. -/
def renderAllOnto : List TypeRef → List Char → List Char
  | [], after => after
  | [type], after => renderOnto type after
  | type :: types, after => renderOnto type (',' :: ' ' :: renderAllOnto types after)

end

/-- The text of a reference, with a comma and a space between type arguments. -/
def render (type : TypeRef) : List Char :=
  renderOnto type []

/-- The texts of references with a comma and a space between them. -/
def renderAll (types : List TypeRef) : List Char :=
  renderAllOnto types []

mutual

theorem renderOnto_eq : ∀ (type : TypeRef) (after : List Char),
    renderOnto type after = renderOnto type [] ++ after
  | .verbatim _, _ => by simp [renderOnto]
  | .named _, _ => by simp [renderOnto]
  | .generic _ arguments tail, after => by
      simp only [renderOnto]
      rw [renderAllOnto_eq arguments ('>' :: (tail ++ after)),
        renderAllOnto_eq arguments ('>' :: (tail ++ []))]
      simp
  | .nullable type, after => by
      simp only [renderOnto]
      rw [renderOnto_eq type ('?' :: after), renderOnto_eq type ['?']]
      simp
  | .projected _ type, after => by
      simp only [renderOnto]
      rw [renderOnto_eq type after]
      simp

theorem renderAllOnto_eq : ∀ (types : List TypeRef) (after : List Char),
    renderAllOnto types after = renderAllOnto types [] ++ after
  | [], _ => by simp [renderAllOnto]
  | [type], after => by
      simp only [renderAllOnto]
      exact renderOnto_eq type after
  | type :: other :: types, after => by
      simp only [renderAllOnto]
      rw [renderOnto_eq type (',' :: ' ' :: renderAllOnto (other :: types) after),
        renderOnto_eq type (',' :: ' ' :: renderAllOnto (other :: types) []),
        renderAllOnto_eq (other :: types) after]
      simp

end

@[simp] theorem render_verbatim (text : List Char) : render (.verbatim text) = text := by
  simp [render, renderOnto]

@[simp] theorem render_named (name : List Char) : render (.named name) = name := by
  simp [render, renderOnto]

@[simp] theorem render_generic (base tail : List Char) (arguments : List TypeRef) :
    render (.generic base arguments tail) =
      base ++ '<' :: (renderAll arguments ++ '>' :: tail) := by
  simp only [render, renderAll, renderOnto]
  rw [renderAllOnto_eq]
  simp

@[simp] theorem render_nullable (type : TypeRef) :
    render (.nullable type) = render type ++ ['?'] := by
  simp only [render, renderOnto]
  rw [renderOnto_eq]

@[simp] theorem render_projected (variance : Variance) (type : TypeRef) :
    render (.projected variance type) = variance.keyword ++ render type := rfl

@[simp] theorem renderAll_singleton (type : TypeRef) : renderAll [type] = render type := rfl

@[simp] theorem renderAll_cons_cons (type other : TypeRef) (types : List TypeRef) :
    renderAll (type :: other :: types) =
      render type ++ ',' :: ' ' :: renderAll (other :: types) := by
  simp only [renderAll, render, renderAllOnto]
  rw [renderOnto_eq]

mutual

/-- The reference with every name replaced by what `f` makes of it. -/
def mapNames (f : List Char → List Char) : TypeRef → TypeRef
  | .verbatim text => .verbatim text
  | .named name => .named (f name)
  | .generic base arguments tail => .generic (f base) (mapNamesAll f arguments) tail
  | .nullable type => .nullable (mapNames f type)
  | .projected variance type => .projected variance (mapNames f type)

/-- The references with every name replaced by what `f` makes of it. -/
def mapNamesAll (f : List Char → List Char) : List TypeRef → List TypeRef
  | [] => []
  | type :: types => mapNames f type :: mapNamesAll f types

end

end TypeRef

end RpcBinder
