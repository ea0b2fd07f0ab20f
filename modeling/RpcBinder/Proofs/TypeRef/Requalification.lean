import Mathlib.Data.List.TakeWhile
import RpcBinder.Proofs.Scope.Names
import RpcBinder.Proofs.TypeRef.Qualification

/-!
# Qualifying a qualified type

A qualified type is the canonical text of a tree again: the one in which every name is replaced by
what it resolves to.  So to qualify it once more is to resolve each of these names once more, and
nothing comes of it.  And since a name that is no alias keeps its last part, nothing but packages
has been added to the text.

## Main definitions

* `TypeTree.rename` — a tree with its names replaced.
* `withoutPackages` — a text whose names have lost everything up to their last dot.

## Main results

* `TypeTree.text_rename`, `TypeTree.text_congr` — the text of a tree depends on its names.
* `TypeTree.withoutPackages_text` — taking the packages off a text is taking them off the names.
* `Resolver.qualify_settled` — **qualifying twice is qualifying once, and no type is renamed.**
-/

namespace RpcBinder

/-! ### Trees with other names -/

namespace TypeTree

mutual

/-- The tree with every name replaced by what `f` makes of it. -/
def rename (f : List Char → List Char) : TypeTree → TypeTree
  | .star => .star
  | .named name => .named (f name)
  | .generic base first others => .generic (f base) (rename f first) (renameAll f others)
  | .nullable type => .nullable (rename f type)
  | .projected variance type => .projected variance (rename f type)

/-- The trees with every name replaced by what `f` makes of it. -/
def renameAll (f : List Char → List Char) : List TypeTree → List TypeTree
  | [] => []
  | type :: types => rename f type :: renameAll f types

end

variable {f g : List Char → List Char}

theorem renameAll_eq (f : List Char → List Char) (types : List TypeTree) :
    renameAll f types = types.map (rename f) := by
  induction types with
  | nil => rfl
  | cons type types ih => rw [renameAll, ih, List.map_cons]

theorem text_generic (f : List Char → List Char) (base : List Char) (first : TypeTree)
    (others : List TypeTree) :
    (generic base first others).text f =
      f base ++ '<' :: ([',', ' '].intercalate ((first :: others).map (text f)) ++ ['>']) := by
  rw [text, textAll_eq, List.map_cons]

theorem text_rename (f g : List Char → List Char) (type : TypeTree) :
    (type.rename f).text g = type.text (g ∘ f) := by
  induction type with
  | star => rfl
  | named name => rfl
  | generic base first others ih =>
    have harguments : (rename f first :: others.map (rename f)).map (text g) =
        (first :: others).map (text (g ∘ f)) := by
      rw [← List.map_cons, List.map_map]
      exact List.map_congr_left ih
    rw [rename, renameAll_eq, text_generic, text_generic, harguments]
    rfl
  | nullable type ih => rw [rename, text, text, ih]
  | projected variance type ih => rw [rename, text_projected, text_projected, ih]

theorem names_rename (f : List Char → List Char) (type : TypeTree) :
    (type.rename f).names = type.names.map f := by
  induction type with
  | star => rfl
  | named name => rfl
  | generic base first others ih =>
    obtain ⟨hfirst, hothers⟩ := List.forall_mem_cons.1 ih
    have hflat : (others.map (rename f)).flatMap names = (others.flatMap names).map f := by
      rw [List.flatMap_map, List.map_flatMap]
      exact List.flatMap_congr hothers
    rw [rename, renameAll_eq, names, names, namesAll_eq, namesAll_eq, hfirst, hflat,
      List.map_cons, List.map_append]
  | nullable type ih => rw [rename, names, names, ih]
  | projected variance type ih => rw [rename, names, names, ih]

/-- The text of a tree depends on what stands for its names. -/
theorem text_congr {type : TypeTree} (h : ∀ name ∈ type.names, f name = g name) :
    type.text f = type.text g := by
  induction type with
  | star => rfl
  | named name => exact h name (by rw [names]; exact List.mem_singleton_self name)
  | generic base first others ih =>
    have hbase : f base = g base := h base (by rw [names]; exact List.mem_cons_self)
    have harguments : (first :: others).map (text f) = (first :: others).map (text g) :=
      List.map_congr_left fun type hmem =>
        ih type hmem fun name hname => h name (mem_names_of_argument hmem hname)
    rw [text_generic, text_generic, hbase, harguments]
  | nullable type ih => rw [text, text, ih fun name hname => h name (by rw [names]; exact hname)]
  | projected variance type ih =>
    rw [text_projected, text_projected, ih fun name hname => h name (by rw [names]; exact hname)]

end TypeTree

/-! ### Taking packages off -/

/-- The text in which every name has lost its package: a character of a name goes as long as the
name has a dot there or further on. -/
def withoutPackages : List Char → List Char
  | [] => []
  | c :: rest =>
      if '.' ∈ (c :: rest).takeWhile isTypeNameChar then withoutPackages rest
      else c :: withoutPackages rest

theorem withoutPackages_cons (c : Char) (rest : List Char) :
    withoutPackages (c :: rest) =
      if '.' ∈ (c :: rest).takeWhile isTypeNameChar then withoutPackages rest
      else c :: withoutPackages rest := rfl

/-- A character that belongs to no name stays, and no name goes on behind it. -/
theorem withoutPackages_append_cons (text : List Char) {c : Char} (hc : isTypeNameChar c = false)
    (rest : List Char) :
    withoutPackages (text ++ c :: rest) = withoutPackages text ++ c :: withoutPackages rest := by
  -- the character belongs to no name, so none goes on beyond it
  have hstop : (c :: rest).takeWhile isTypeNameChar = [] :=
    List.takeWhile_cons_of_neg (by rw [hc]; decide)
  induction text with
  | nil =>
    rw [List.nil_append, withoutPackages_cons, hstop, if_neg List.not_mem_nil]
    rfl
  | cons d text ih =>
    have htake : (d :: (text ++ c :: rest)).takeWhile isTypeNameChar =
        (d :: text).takeWhile isTypeNameChar := by
      rw [← List.cons_append, List.takeWhile_append, hstop, List.append_nil]
      split
      · next hlength => exact ((List.takeWhile_prefix _).eq_of_length hlength).symm
      · rfl
    rw [List.cons_append, withoutPackages_cons, withoutPackages_cons, htake, ih]
    split
    · rfl
    · rfl

theorem withoutPackages_of_forall {name : List Char} (h : ∀ c ∈ name, isTypeNameChar c = true) :
    withoutPackages name = lastPart name := by
  induction name with
  | nil => rfl
  | cons c name ih =>
    have hall : (c :: name).takeWhile isTypeNameChar = c :: name := List.takeWhile_eq_self_iff.2 h
    have ih := ih fun d hd => h d (List.mem_cons_of_mem c hd)
    rw [withoutPackages_cons, hall, ih, lastPart]
    split
    · rfl
    · next hdot => rw [lastPart_of_notMem (List.not_mem_of_not_mem_cons hdot)]

theorem withoutPackages_keyword_append (variance : Variance) (rest : List Char) :
    withoutPackages (variance.keyword ++ rest) = variance.keyword ++ withoutPackages rest := by
  have hspace : isTypeNameChar ' ' = false := by decide
  cases variance with
  | producer => exact withoutPackages_append_cons ['o', 'u', 't'] hspace rest
  | consumer => exact withoutPackages_append_cons ['i', 'n'] hspace rest

/-- Texts that are joined by commas lose their packages one by one. -/
theorem withoutPackages_intercalate (texts : List (List Char)) :
    withoutPackages ([',', ' '].intercalate texts) =
      [',', ' '].intercalate (texts.map withoutPackages) := by
  have hcomma : isTypeNameChar ',' = false := by decide
  have hspace : isTypeNameChar ' ' = false := by decide
  induction texts with
  | nil => rfl
  | cons text texts ih =>
    cases texts with
    | nil => simp
    | cons other texts =>
      have hrest : withoutPackages (' ' :: [',', ' '].intercalate (other :: texts)) =
          ' ' :: withoutPackages ([',', ' '].intercalate (other :: texts)) :=
        withoutPackages_append_cons [] hspace _
      rw [List.map_cons, List.map_cons, List.intercalate_cons_cons, List.intercalate_cons_cons,
        ← List.map_cons, ← ih, List.append_assoc, List.append_assoc, List.cons_append,
        List.singleton_append, withoutPackages_append_cons text hcomma, hrest]
      rfl

/-- Without packages the text of a tree is that of the tree without packages. -/
theorem TypeTree.withoutPackages_text {f : List Char → List Char} {type : TypeTree}
    (hname : ∀ name ∈ type.names, IsTypeName (f name)) :
    withoutPackages (type.text f) = type.text (lastPart ∘ f) := by
  have hopen : isTypeNameChar '<' = false := by decide
  have hclose : isTypeNameChar '>' = false := by decide
  have hmark : isTypeNameChar '?' = false := by decide
  induction type with
  | star => rfl
  | named name =>
    have hname : IsTypeName (f name) := hname name (by rw [names]; exact List.mem_singleton_self _)
    exact withoutPackages_of_forall hname.forall_char
  | generic base first others ih =>
    have hbase : IsTypeName (f base) := hname base (by rw [names]; exact List.mem_cons_self)
    have harguments : ((first :: others).map (text f)).map withoutPackages =
        (first :: others).map (text (lastPart ∘ f)) := by
      rw [List.map_map]
      exact List.map_congr_left fun type hmem =>
        ih type hmem fun name hin => hname name (mem_names_of_argument hmem hin)
    rw [text_generic, text_generic, withoutPackages_append_cons _ hopen,
      withoutPackages_append_cons _ hclose, withoutPackages_intercalate, harguments,
      withoutPackages_of_forall hbase.forall_char]
    rfl
  | nullable type ih =>
    rw [text, text, withoutPackages_append_cons _ hmark,
      ih fun name hin => hname name (by rw [names]; exact hin)]
    rfl
  | projected variance type ih =>
    rw [text_projected, text_projected, withoutPackages_keyword_append,
      ih fun name hin => hname name (by rw [names]; exact hin)]

/-! ### Qualifying twice -/

namespace Resolver

/-- A text without white space at its ends is read as it stands. -/
theorem qualify_of_isSolid (resolver : Resolver) {text : List Char} (h : IsSolid text) :
    resolver.qualify text = TypeRef.requalify resolver.qualifyName text := by
  rw [qualify, TypeRef.read, trim_of_isSolid h, TypeRef.requalify]

theorem qualify_eq_text (resolver : Resolver) {type : TypeTree} {text : List Char}
    (h : type.Written text) (hwf : type.IsWellFormed) :
    resolver.qualify text = type.text resolver.qualifyName := by
  rw [qualify_of_isSolid resolver (h.isSolid hwf)]
  exact TypeRef.requalify_written resolver.qualifyName h hwf []

/-- A name that is a type by itself is qualified as a type by what it resolves to. -/
theorem qualify_name (resolver : Resolver) {name : String} (h : IsTypeName name.toList) :
    resolver.qualify name.toList = (resolver.resolve name).fqn.toList := by
  rw [qualify_eq_text resolver (TypeTree.Written.named name.toList) (TypeTree.isWellFormed_named h),
    TypeTree.text, qualifyName, String.ofList_toList]

variable {scope : Scope} {steps : List IndexStep}

/-- **Qualifying a qualified type changes nothing, and qualifying renames no type**: without
packages the qualified text is that of the type as it was, unless a name of it is an alias. -/
theorem qualify_settled (hscope : scope.HasDottedPaths) (hsteps : ∀ step ∈ steps, step.IsRegular)
    {type : TypeTree} {text : List Char} (h : type.Written text) (hwf : type.IsWellFormed) :
    let resolver : Resolver := ⟨scope, .build steps⟩
    resolver.qualify (resolver.qualify text) = resolver.qualify text ∧
      ((∀ name ∈ type.names, scope.aliases.get? (String.ofList name) = none) →
        withoutPackages (resolver.qualify text) = withoutPackages type.canonical) := by
  intro resolver
  have hqualified : resolver.qualify text = type.text resolver.qualifyName :=
    qualify_eq_text resolver h hwf
  have htypeName : ∀ name ∈ type.names, IsTypeName (resolver.qualifyName name) :=
    fun name hname => (isNameOf_qualifyName hscope hsteps (hwf name hname)).1
  constructor
  · -- the qualified text is the canonical text of a tree, which is qualified in its turn
    have hrenamed : (type.rename resolver.qualifyName).IsWellFormed := by
      intro name hname
      rw [TypeTree.names_rename] at hname
      obtain ⟨old, hold, rfl⟩ := List.mem_map.1 hname
      exact htypeName old hold
    have htwice : ∀ name ∈ type.names,
        (resolver.qualifyName ∘ resolver.qualifyName) name = resolver.qualifyName name :=
      fun name hname => qualifyName_qualifyName hscope hsteps (hwf name hname)
    calc resolver.qualify (resolver.qualify text)
        = resolver.qualify (type.rename resolver.qualifyName).canonical := by
          rw [hqualified, TypeTree.canonical, TypeTree.text_rename, Function.id_comp]
      _ = (type.rename resolver.qualifyName).text resolver.qualifyName :=
          qualify_eq_text resolver (TypeTree.written_text _) hrenamed
      _ = type.text (resolver.qualifyName ∘ resolver.qualifyName) := TypeTree.text_rename _ _ type
      _ = type.text resolver.qualifyName := TypeTree.text_congr htwice
      _ = resolver.qualify text := hqualified.symm
  · intro haliases
    have hparts : ∀ name ∈ type.names,
        (lastPart ∘ resolver.qualifyName) name = (lastPart ∘ id) name :=
      fun name hname => lastPart_qualifyName hscope hsteps (hwf name hname) (haliases name hname)
    calc withoutPackages (resolver.qualify text)
        = withoutPackages (type.text resolver.qualifyName) := by rw [hqualified]
      _ = type.text (lastPart ∘ resolver.qualifyName) := TypeTree.withoutPackages_text htypeName
      _ = type.text (lastPart ∘ id) := TypeTree.text_congr hparts
      _ = withoutPackages type.canonical := (TypeTree.withoutPackages_text hwf).symm

/-- An explicit import, a wildcard import, a type of the default package and a built-in type, in a
file that has an alias which the type does not use. -/
theorem qualify_settled_map :
    let scope : Scope :=
      { package := "com.x", explicit := ["com.x.model.User"], wildcards := ["com.y"],
        aliases := .ofList [("U", "com.x.model.User")] }
    let steps : List IndexStep :=
      [.declare "com.y" "Page", .declare "" "Scratch", .seed Markers.kotlin]
    let resolver : Resolver := ⟨scope, .build steps⟩
    let type : TypeTree :=
      .nullable (.generic "Map".toList (.named "Scratch".toList)
        [.projected .producer (.generic "Page".toList (.nullable (.named "User".toList)) [])])
    (scope.HasDottedPaths ∧ (∀ step ∈ steps, step.IsRegular) ∧ type.IsWellFormed ∧
        ∀ name ∈ type.names, scope.aliases.get? (String.ofList name) = none) ∧
      resolver.qualify type.canonical =
        "kotlin.collections.Map<Scratch, out com.y.Page<com.x.model.User?>>?".toList ∧
      resolver.qualify (resolver.qualify type.canonical) = resolver.qualify type.canonical ∧
      withoutPackages (resolver.qualify type.canonical) =
        "Map<Scratch, out Page<User?>>?".toList := by
  intro scope steps resolver type
  have hscope : scope.HasDottedPaths := by
    refine ⟨Or.inr (by decide), by decide, by decide, fun name path h => ?_⟩
    have hlookup : scope.aliases.get? name =
        if name == "U" then some "com.x.model.User" else none := Table.get?_alter _ _ _ _
    rw [hlookup] at h
    split at h
    · obtain rfl := Option.some.inj h
      decide
    · cases h
  have hsteps : ∀ step ∈ steps, step.IsRegular := by decide
  have hwf : type.IsWellFormed := by decide
  have haliases : ∀ name ∈ type.names, scope.aliases.get? (String.ofList name) = none := by decide
  have hwritten : type.Written type.canonical := TypeTree.written_text type
  obtain ⟨htwice, hpackages⟩ := qualify_settled hscope hsteps hwritten hwf
  refine ⟨⟨hscope, hsteps, hwf, haliases⟩, ?_, htwice, (hpackages haliases).trans (by decide)⟩
  rw [qualify_eq_text resolver hwritten hwf]
  decide +kernel

end Resolver

end RpcBinder
