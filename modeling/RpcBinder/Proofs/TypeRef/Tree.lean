import Mathlib.Data.List.Basic
import Mathlib.Data.List.Forall2
import RpcBinder.Proofs.Lexis.Nesting
import RpcBinder.Proofs.Text.Parts
import RpcBinder.TypeRef.Basic

/-!
# Types as trees

The well-formed types: names, names with at least one type argument, nullable types, types
with a variance, and the star.  A tree has one canonical text and many texts as written,
which differ in the white space around type arguments.

## Main definitions

* `TypeTree` — the trees, with `TypeTree.names` and `TypeTree.text`.
* `IsTypeName`, `TypeTree.IsWellFormed` — what names are made of.
* `TypeTree.Written` — a tree as it may be written.

## Main results

* `TypeTree.written_text` — the canonical text is a way to write a tree.
* `TypeTree.Written.isSolid`, `TypeTree.Written.walk` — a written tree has no white space at
  its ends, and its commas lie within its brackets.
-/

namespace RpcBinder

/-- A type as a tree. -/
inductive TypeTree
  /-- The star that stands for any type argument. -/
  | star
  /-- A name. -/
  | named (name : List Char)
  /-- A name with type arguments, of which there is a first. -/
  | generic (base : List Char) (first : TypeTree) (others : List TypeTree)
  /-- A type followed by a question mark. -/
  | nullable (type : TypeTree)
  /-- A type with a variance in front. -/
  | projected (variance : Variance) (type : TypeTree)

namespace TypeTree

mutual

/-- The names of a type, in order. -/
def names : TypeTree → List (List Char)
  | .star => []
  | .named name => [name]
  | .generic base first others => base :: (names first ++ namesAll others)
  | .nullable type => names type
  | .projected _ type => names type

/-- The names of types, in order. -/
def namesAll : List TypeTree → List (List Char)
  | [] => []
  | type :: types => names type ++ namesAll types

end

mutual

/-- The canonical text of a type in which `f name` stands for every name: type arguments are
separated by a comma and a space, and there is no other white space but behind a variance. -/
def text (f : List Char → List Char) : TypeTree → List Char
  | .star => ['*']
  | .named name => f name
  | .generic base first others =>
      f base ++ '<' :: ([',', ' '].intercalate (text f first :: textAll f others) ++ ['>'])
  | .nullable type => text f type ++ ['?']
  | .projected .producer type => "out ".toList ++ text f type
  | .projected .consumer type => "in ".toList ++ text f type

/-- The canonical texts of types. -/
def textAll (f : List Char → List Char) : List TypeTree → List (List Char)
  | [] => []
  | type :: types => text f type :: textAll f types

end

/-- The canonical text of a type with its names as they are. -/
abbrev canonical (type : TypeTree) : List Char := type.text id

theorem namesAll_eq (types : List TypeTree) : namesAll types = types.flatMap names := by
  induction types with
  | nil => rfl
  | cons type types ih => rw [namesAll, ih, List.flatMap_cons]

/-- Every name of a type argument is a name of the type. -/
theorem mem_names_of_argument {base : List Char} {first type : TypeTree} {others : List TypeTree}
    (hmem : type ∈ first :: others) {name : List Char} (hname : name ∈ type.names) :
    name ∈ (generic base first others).names := by
  rw [names, namesAll_eq, List.mem_cons, List.mem_append]
  rcases List.mem_cons.1 hmem with rfl | hmem
  · exact Or.inr (Or.inl hname)
  · exact Or.inr (Or.inr (List.mem_flatMap.2 ⟨type, hmem, hname⟩))

theorem textAll_eq (f : List Char → List Char) (types : List TypeTree) :
    textAll f types = types.map (text f) := by
  induction types with
  | nil => rfl
  | cons type types ih => rw [textAll, ih, List.map_cons]

theorem text_projected (f : List Char → List Char) (variance : Variance) (type : TypeTree) :
    text f (.projected variance type) = variance.keyword ++ text f type := by
  cases variance <;> rfl

/-- Induction over trees, with a hypothesis for each type argument. -/
@[induction_eliminator]
theorem induct {motive : TypeTree → Prop} (star : motive .star)
    (named : ∀ name, motive (.named name))
    (generic : ∀ base first others, (∀ type ∈ first :: others, motive type) →
      motive (.generic base first others))
    (nullable : ∀ type, motive type → motive (.nullable type))
    (projected : ∀ variance type, motive type → motive (.projected variance type)) :
    ∀ type, motive type := by
  intro type
  refine @TypeTree.rec motive (fun types => ∀ type ∈ types, motive type)
    star named ?_ nullable projected ?_ ?_ type
  · intro base first others hfirst hothers
    exact generic base first others (List.forall_mem_cons.2 ⟨hfirst, hothers⟩)
  · simp
  · intro type types htype htypes
    exact List.forall_mem_cons.2 ⟨htype, htypes⟩

/-! ### Well-formed trees -/

end TypeTree

/-- A character that a name may hold: no white space, and none of the characters that types are
put together with. -/
def isTypeNameChar (c : Char) : Bool :=
  !isSpace c && !(['<', '>', '(', ')', ',', '?', '*', '-'].contains c)

/-- A name in a type. -/
abbrev IsTypeName (name : List Char) : Prop := IsRun isTypeNameChar name

/-- All names of the tree are names. -/
def TypeTree.IsWellFormed (type : TypeTree) : Prop := ∀ name ∈ type.names, IsTypeName name

instance (type : TypeTree) : Decidable type.IsWellFormed :=
  inferInstanceAs (Decidable (∀ name ∈ type.names, IsTypeName name))

theorem isSpace_of_isTypeNameChar {c : Char} (h : isTypeNameChar c = true) :
    isSpace c = false := by
  simp only [isTypeNameChar, Bool.and_eq_true, Bool.not_eq_true'] at h
  exact h.1

theorem isPlain_of_isTypeNameChar {c : Char} (h : isTypeNameChar c = true) :
    Lexis.isPlain c = true := by
  simp only [isTypeNameChar, Bool.and_eq_true, Bool.not_eq_true', List.contains_eq_mem,
    decide_eq_false_iff_not, List.mem_cons, List.not_mem_nil, or_false, not_or] at h
  obtain ⟨-, hlt, hgt, hopen, hclose, hcomma, -, -, hdash⟩ := h
  simp [Lexis.isPlain, Lexis.isBracket, hlt, hgt, hopen, hclose, hcomma, hdash]

namespace IsTypeName

variable {name : List Char}

theorem isSolid (h : IsTypeName name) : IsSolid name :=
  isSolid_of_forall h.ne_nil fun c hc => isSpace_of_isTypeNameChar (h.forall_char c hc)

theorem walk (h : IsTypeName name) (depth : Nat) :
    Lexis.walk (depth, false) name = some (depth, false) :=
  Lexis.walk_of_forall_isPlain depth fun c hc => isPlain_of_isTypeNameChar (h.forall_char c hc)

end IsTypeName

namespace TypeTree

theorem IsWellFormed.named {name : List Char} (h : (TypeTree.named name).IsWellFormed) :
    IsTypeName name :=
  h name (by rw [names]; exact List.mem_singleton_self name)

theorem isWellFormed_named {name : List Char} (h : IsTypeName name) :
    (TypeTree.named name).IsWellFormed := by
  intro other hother
  rw [names, List.mem_singleton] at hother
  rwa [hother]

theorem IsWellFormed.base {base : List Char} {first : TypeTree} {others : List TypeTree}
    (h : (generic base first others).IsWellFormed) : IsTypeName base :=
  h base (by rw [names]; exact List.mem_cons_self)

theorem IsWellFormed.argument {base : List Char} {first : TypeTree} {others : List TypeTree}
    (h : (generic base first others).IsWellFormed) :
    ∀ type ∈ first :: others, type.IsWellFormed :=
  fun _ hmem name hname => h name (mem_names_of_argument hmem hname)

theorem IsWellFormed.nullable {type : TypeTree} (h : (TypeTree.nullable type).IsWellFormed) :
    type.IsWellFormed := fun name hname => h name (by rw [names]; exact hname)

theorem IsWellFormed.projected {variance : Variance} {type : TypeTree}
    (h : (TypeTree.projected variance type).IsWellFormed) : type.IsWellFormed :=
  fun name hname => h name (by rw [names]; exact hname)

/-! ### Trees as they are written -/

/-- The tree may be written as the text: with any white space around type arguments. -/
inductive Written : TypeTree → List Char → Prop
  | star : Written .star ['*']
  | named (name : List Char) : Written (.named name) name
  | generic {base : List Char} {first : TypeTree} {others : List TypeTree}
      {texts padded : List (List Char)} (harguments : List.Forall₂ Written (first :: others) texts)
      (hpadded : List.Forall₂ IsPadded texts padded) :
      Written (.generic base first others) (base ++ '<' :: ([','].intercalate padded ++ ['>']))
  | nullable {type : TypeTree} {text : List Char} (h : Written type text) :
      Written (.nullable type) (text ++ ['?'])
  | producer {type : TypeTree} {text : List Char} (h : Written type text) :
      Written (.projected .producer type) ("out ".toList ++ text)
  | consumer {type : TypeTree} {text : List Char} (h : Written type text) :
      Written (.projected .consumer type) ("in ".toList ++ text)

theorem forall₂_written_text {types : List TypeTree}
    (h : ∀ type ∈ types, Written type (type.text id)) :
    List.Forall₂ Written types (types.map (text id)) := by
  induction types with
  | nil => exact List.Forall₂.nil
  | cons type types ih =>
    exact List.Forall₂.cons (h type List.mem_cons_self)
      (ih fun other hmem => h other (List.mem_cons_of_mem _ hmem))

/-- A comma and a space between texts are a comma between padded texts. -/
theorem intercalate_comma_space (text : List Char) (texts : List (List Char)) :
    [',', ' '].intercalate (text :: texts) =
      [','].intercalate (text :: texts.map (' ' :: ·)) := by
  induction texts generalizing text with
  | nil => simp
  | cons other texts ih =>
    rw [List.map_cons, List.intercalate_cons_cons, List.intercalate_cons_cons, ih,
      List.intercalate_cons_cons_left]
    simp

/-- The canonical text is a way to write a tree. -/
theorem written_text (type : TypeTree) : Written type (type.text id) := by
  induction type with
  | star => exact Written.star
  | named name => exact Written.named name
  | generic base first others ih =>
    rw [text, textAll_eq, intercalate_comma_space]
    refine Written.generic (forall₂_written_text ih) ?_
    rw [List.map_cons]
    refine List.Forall₂.cons (isPadded_refl _) ?_
    rw [List.forall₂_map_right_iff]
    exact List.forall₂_same.2 fun text _ => isPadded_cons_space text
  | nullable type ih => exact Written.nullable ih
  | projected variance type ih =>
    cases variance with
    | producer => exact Written.producer ih
    | consumer => exact Written.consumer ih

/-- A written tree has no white space at its ends. -/
theorem Written.isSolid {type : TypeTree} {text : List Char} (h : Written type text)
    (hwf : type.IsWellFormed) : IsSolid text := by
  induction type generalizing text with
  | star =>
    cases h
    exact (isWord_singleton (by decide)).isSolid
  | named name =>
    cases h
    exact hwf.named.isSolid
  | generic base first others ih =>
    obtain _ | _ | ⟨harguments, hpadded⟩ := h
    refine ⟨hwf.base.isSolid.starts.append _, ?_⟩
    rw [← List.cons_append, ← List.append_assoc]
    exact endsSolid_concat _ (by decide)
  | nullable type ih =>
    obtain _ | _ | _ | h := h
    exact ⟨(ih h hwf.nullable).starts.append _, endsSolid_concat _ (by decide)⟩
  | projected variance type ih =>
    cases h with
    | producer h => exact ⟨startsSolid_cons _ (by decide), (ih h hwf.projected).ends.append _⟩
    | consumer h => exact ⟨startsSolid_cons _ (by decide), (ih h hwf.projected).ends.append _⟩

/-- The commas of a written tree lie within its brackets, and these are closed again. -/
theorem Written.walk {type : TypeTree} {text : List Char} (h : Written type text)
    (hwf : type.IsWellFormed) (depth : Nat) :
    Lexis.walk (depth, false) text = some (depth, false) := by
  induction type generalizing text depth with
  | star =>
    cases h
    rfl
  | named name =>
    cases h
    exact hwf.named.walk depth
  | generic base first others ih =>
    obtain _ | _ | ⟨harguments, hpadded⟩ := h
    rename_i texts padded
    -- the arguments are one level further down, so their commas are no cuts
    have hinner : ∀ piece ∈ padded,
        Lexis.walk (depth + 1, false) piece = some (depth + 1, false) := by
      intro piece hpiece
      obtain ⟨text, htext, hp⟩ := exists_related_of_mem hpadded hpiece
      obtain ⟨type, htype, hw⟩ := exists_related_of_mem harguments htext
      exact Lexis.walk_of_isPadded hp (ih type htype hw (hwf.argument type htype) (depth + 1))
    rw [Lexis.walk_append, hwf.base.walk, Option.bind_some, Lexis.walk_cons]
    show Lexis.walk (depth + 1, false) ([','].intercalate padded ++ ['>']) = some (depth, false)
    rw [Lexis.walk_append, Lexis.walk_intercalate hinner]
    rfl
  | nullable type ih =>
    obtain _ | _ | _ | h := h
    rw [Lexis.walk_append, ih h hwf.nullable]
    rfl
  | projected variance type ih =>
    cases h with
    | producer h =>
      rw [Lexis.walk_append]
      exact ih h hwf.projected depth
    | consumer h =>
      rw [Lexis.walk_append]
      exact ih h hwf.projected depth

/-- What is written for a type with a variance is the keyword and the type. -/
theorem Written.exists_of_projected {variance : Variance} {type : TypeTree} {text : List Char}
    (h : Written (.projected variance type) text) :
    ∃ rest, Written type rest ∧ text = variance.keyword ++ rest := by
  cases h with
  | producer h => exact ⟨_, h, rfl⟩
  | consumer h => exact ⟨_, h, rfl⟩

/-- Type arguments are found between the commas that separate them. -/
theorem splitTopLevel_arguments {first : TypeTree} {others : List TypeTree}
    {texts padded : List (List Char)} (harguments : List.Forall₂ Written (first :: others) texts)
    (hpadded : List.Forall₂ IsPadded texts padded)
    (hwf : ∀ type ∈ first :: others, type.IsWellFormed) :
    Lexis.splitTopLevel ([','].intercalate padded) = texts := by
  have hne : padded ≠ [] := by
    rintro rfl
    have := harguments.length_eq.trans hpadded.length_eq
    simp at this
  refine Lexis.splitTopLevel_intercalate hne hpadded ?_ ?_
  · intro text htext
    obtain ⟨type, htype, hw⟩ := exists_related_of_mem harguments htext
    exact hw.isSolid (hwf type htype)
  · intro piece hpiece
    obtain ⟨text, htext, hp⟩ := exists_related_of_mem hpadded hpiece
    obtain ⟨type, htype, hw⟩ := exists_related_of_mem harguments htext
    exact ⟨false, Lexis.walk_of_isPadded hp (hw.walk (hwf type htype) 0)⟩

end TypeTree

end RpcBinder
