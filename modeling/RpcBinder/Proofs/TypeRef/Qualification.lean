import RpcBinder.Proofs.TypeRef.Tree
import RpcBinder.Scope.Resolver

/-!
# Qualifying a type as it is written

A type reference is read by looking for a question mark at its end, a variance at its front
and the outermost angle brackets, in this order.  The order is not that of the tree: in
`in T?` the question mark belongs to `T`, but it is found first.  The text that comes out is
the same, and to see this the induction over the tree carries the variances that have been
passed on the way.

## Main definitions

* `TypeRef.requalify` — a trimmed text read, its names replaced, and rendered again.

## Main results

* `TypeRef.requalify_written` — of a written tree this is the canonical text with the names
  replaced.
* `Resolver.qualify_of_written` — **qualifying replaces every name of a type by what it
  resolves to, and nothing else.**
-/

namespace RpcBinder

/-! ### The outermost form of a text -/

namespace TypeRef

theorem shape_star : shape ['*'] = .verbatim := rfl

theorem shape_concat_question (text : List Char) : shape (text ++ ['?']) = .nullable text := by
  simp [shape]

/-- A text begins with a keyword only if there is a space before its first bracket. -/
theorem isPrefixOf?_keyword_eq_none (variance : Variance) {name rest : List Char}
    (hspace : ' ' ∉ name) (hrest : ∀ c, rest.head? = some c → c = '<') :
    variance.keyword.isPrefixOf? (name ++ rest) = none := by
  rw [Option.eq_none_iff_forall_ne_some]
  intro r hr
  have heq : variance.keyword ++ r = name ++ rest := List.isPrefixOf?_eq_some_iff_append_eq.1 hr
  have hin : ' ' ∈ variance.keyword := by cases variance <;> decide
  have hout : '<' ∉ variance.keyword := by cases variance <;> decide
  rcases List.append_eq_append_iff.1 heq with ⟨inner, hname, -⟩ | ⟨inner, hkey, hinner⟩
  · exact hspace (hname ▸ List.mem_append_left _ hin)
  · cases inner with
    | nil =>
      rw [List.append_nil] at hkey
      exact hspace (hkey ▸ hin)
    | cons c inner =>
      -- the keyword reaches into the rest, which begins with a bracket
      have hc : c = '<' := hrest c (by rw [hinner]; rfl)
      exact hout (by rw [hkey, hc]; exact List.mem_append_right _ List.mem_cons_self)

theorem variance?_eq_none {name rest : List Char} (hspace : ' ' ∉ name)
    (hrest : ∀ c, rest.head? = some c → c = '<') : variance? (name ++ rest) = none := by
  rw [variance?, isPrefixOf?_keyword_eq_none .producer hspace hrest,
    isPrefixOf?_keyword_eq_none .consumer hspace hrest]
  rfl

theorem variance?_keyword_append (variance : Variance) (text : List Char) :
    variance? (variance.keyword ++ text) = some (variance, text) := by
  cases variance <;> rfl

theorem shape_keyword_append (variance : Variance) {text : List Char} (hne : text ≠ [])
    (hlast : text.getLast? ≠ some '?') :
    shape (variance.keyword ++ text) = .projected variance text := by
  have hend : (variance.keyword ++ text).getLast? = text.getLast? := by
    rw [List.getLast?_append]
    cases text with
    | nil => exact absurd rfl hne
    | cons c rest => simp [List.getLast?_cons]
  have hmark : ((variance.keyword ++ text).getLast? == some '?') = false := by
    rw [hend, beq_eq_false_iff_ne]
    exact hlast
  rw [shape, hmark, variance?_keyword_append]
  rfl

theorem shape_name {name : List Char} (h : IsTypeName name) : shape name = .named := by
  -- none of the marks that the reader asks for stands in a name
  have hmark : (name.getLast? == some '?') = false := by
    rw [beq_eq_false_iff_ne]
    intro hlast
    exact h.notMem (by decide) (List.mem_of_getLast? hlast)
  have hvariance : variance? name = none := by
    have hspace : ' ' ∉ name := h.notMem (by decide)
    have hnone := @variance?_eq_none name [] hspace (by simp)
    rwa [List.append_nil] at hnone
  have hstar : (name.isEmpty || name == ['*']) = false := by
    rw [Bool.or_eq_false_iff, List.isEmpty_eq_false_iff, beq_eq_false_iff_ne]
    refine ⟨h.ne_nil, ?_⟩
    rintro rfl
    exact h.notMem (c := '*') (by decide) (List.mem_singleton_self _)
  have hclose : name.contains '>' = false := by
    rw [List.contains_eq_mem, decide_eq_false_iff_not]
    exact h.notMem (by decide)
  rw [shape, hmark, hvariance]
  simp only [Bool.false_eq_true, if_false, hstar,
    splitFirst?_eq_none (h.notMem (by decide : isTypeNameChar '<' = false)), hclose]

theorem shape_generic {base inner : List Char} (hopen : '<' ∉ base)
    (hvariance : variance? (base ++ '<' :: (inner ++ ['>'])) = none) :
    shape (base ++ '<' :: (inner ++ ['>'])) = .generic base inner [] := by
  have hmark : ((base ++ '<' :: (inner ++ ['>'])).getLast? == some '?') = false := by
    rw [← List.cons_append, ← List.append_assoc, List.getLast?_concat]
    decide
  have hstar : ((base ++ '<' :: (inner ++ ['>'])).isEmpty ||
      base ++ '<' :: (inner ++ ['>']) == ['*']) = false := by
    rw [Bool.or_eq_false_iff, List.isEmpty_eq_false_iff, beq_eq_false_iff_ne]
    refine ⟨by simp, fun heq => ?_⟩
    have := congrArg List.length heq
    simp only [List.length_append, List.length_cons, List.length_nil] at this
    omega
  rw [shape, hmark, hvariance]
  simp only [Bool.false_eq_true, if_false, hstar, splitFirst?_append hopen, splitLast?_concat]

/-! ### Reading by the outermost form -/

theorem readTrimmed_of_verbatim {text : List Char} (h : shape text = .verbatim) :
    readTrimmed text = .verbatim text := by
  rw [readTrimmed]
  split <;> simp_all

theorem readTrimmed_of_named {text : List Char} (h : shape text = .named) :
    readTrimmed text = .named text := by
  rw [readTrimmed]
  split <;> simp_all

theorem readTrimmed_of_generic {text base inner tail : List Char}
    (h : shape text = .generic base inner tail) :
    readTrimmed text =
      .generic (trim base) ((Lexis.splitTopLevel inner).map readTrimmed) tail := by
  rw [readTrimmed]
  split <;> simp_all

theorem readTrimmed_of_nullable {text rest : List Char} (h : shape text = .nullable rest) :
    readTrimmed text = .nullable (readTrimmed (trim rest)) := by
  rw [readTrimmed]
  split <;> simp_all

theorem readTrimmed_of_projected {text rest : List Char} {variance : Variance}
    (h : shape text = .projected variance rest) :
    readTrimmed text = .projected variance (readTrimmed (trim rest)) := by
  rw [readTrimmed]
  split <;> simp_all

/-! ### Reading, renaming and rendering -/

theorem mapNamesAll_eq (f : List Char → List Char) (types : List TypeRef) :
    mapNamesAll f types = types.map (mapNames f) := by
  induction types with
  | nil => rfl
  | cons type types ih => rw [mapNamesAll, ih, List.map_cons]

theorem renderAll_eq (types : List TypeRef) :
    renderAll types = [',', ' '].intercalate (types.map render) := by
  induction types with
  | nil => rfl
  | cons type types ih =>
    cases types with
    | nil => rw [renderAll_singleton, List.map_cons, List.map_nil, List.intercalate_singleton]
    | cons other types =>
      rw [renderAll_cons_cons, ih]
      simp

/-- The text that a trimmed text becomes when it is read, `f name` stands for every name, and
it is rendered again. -/
def requalify (f : List Char → List Char) (text : List Char) : List Char :=
  ((readTrimmed text).mapNames f).render

variable (f : List Char → List Char)

theorem requalify_star : requalify f ['*'] = ['*'] := by
  rw [requalify, readTrimmed_of_verbatim shape_star, mapNames, render_verbatim]

theorem requalify_name {name : List Char} (h : IsTypeName name) : requalify f name = f name := by
  rw [requalify, readTrimmed_of_named (shape_name h), mapNames, render_named]

theorem requalify_concat_question {text : List Char} (h : IsSolid text) :
    requalify f (text ++ ['?']) = requalify f text ++ ['?'] := by
  rw [requalify, readTrimmed_of_nullable (shape_concat_question text), trim_of_isSolid h,
    mapNames, render_nullable, requalify]

theorem requalify_keyword_append (variance : Variance) {text : List Char} (h : IsSolid text)
    (hlast : text.getLast? ≠ some '?') :
    requalify f (variance.keyword ++ text) = variance.keyword ++ requalify f text := by
  rw [requalify, readTrimmed_of_projected (shape_keyword_append variance h.ne_nil hlast),
    trim_of_isSolid h, mapNames, render_projected, requalify]

/-- Type arguments are requalified one by one. -/
theorem requalify_generic {base : List Char} (hbase : IsSolid base) (hopen : '<' ∉ base)
    {inner : List Char} (hvariance : variance? (base ++ '<' :: (inner ++ ['>'])) = none)
    {entries : List (List Char)} (hentries : Lexis.splitTopLevel inner = entries) :
    requalify f (base ++ '<' :: (inner ++ ['>'])) =
      f base ++ '<' :: ([',', ' '].intercalate (entries.map (requalify f)) ++ ['>']) := by
  rw [requalify, readTrimmed_of_generic (shape_generic hopen hvariance), hentries,
    trim_of_isSolid hbase, mapNames, mapNamesAll_eq, render_generic, renderAll_eq,
    List.map_map, List.map_map]
  rfl

/-- The variances that stand in front of a type. -/
def keywords (variances : List Variance) : List Char := variances.flatMap Variance.keyword

theorem isSolid_keywords_append (variances : List Variance) {text : List Char}
    (h : IsSolid text) : IsSolid (keywords variances ++ text) := by
  refine ⟨?_, h.ends.append _⟩
  cases variances with
  | nil => exact h.starts
  | cons variance variances =>
    cases variance with
    | producer => exact startsSolid_cons _ (by decide)
    | consumer => exact startsSolid_cons _ (by decide)

theorem requalify_keywords_append (variances : List Variance) {text : List Char}
    (h : IsSolid text) (hlast : text.getLast? ≠ some '?') :
    requalify f (keywords variances ++ text) = keywords variances ++ requalify f text := by
  induction variances with
  | nil => rfl
  | cons variance variances ih =>
    have hsolid := isSolid_keywords_append variances h
    have hend : (keywords variances ++ text).getLast? ≠ some '?' := by
      rw [List.getLast?_append_of_ne_nil _ h.ne_nil]
      exact hlast
    have hkeywords : ∀ rest, keywords (variance :: variances) ++ rest =
        variance.keyword ++ (keywords variances ++ rest) := by
      intro rest
      rw [keywords, List.flatMap_cons, List.append_assoc, keywords]
    rw [hkeywords, requalify_keyword_append f variance hsolid hend, ih, hkeywords]

/-- Of a written tree, behind any variances, the canonical text remains with the names
replaced. -/
theorem requalify_written {type : TypeTree} {text : List Char} (h : type.Written text)
    (hwf : type.IsWellFormed) (variances : List Variance) :
    requalify f (keywords variances ++ text) = keywords variances ++ type.text f := by
  induction type generalizing text variances with
  | star =>
    have hsolid := h.isSolid hwf
    cases h
    rw [requalify_keywords_append f variances hsolid (by decide), requalify_star]
    rfl
  | named name =>
    cases h
    have hname := hwf.named
    have hlast : name.getLast? ≠ some '?' := fun hmark =>
      hname.notMem (by decide) (List.mem_of_getLast? hmark)
    rw [requalify_keywords_append f variances hname.isSolid hlast, requalify_name f hname]
    rfl
  | generic base first others ih =>
    have hsolid := h.isSolid hwf
    obtain _ | _ | ⟨harguments, hpadded⟩ := h
    rename_i texts padded
    have hentries : Lexis.splitTopLevel ([','].intercalate padded) = texts :=
      TypeTree.splitTopLevel_arguments harguments hpadded hwf.argument
    have hlast : (base ++ '<' :: ([','].intercalate padded ++ ['>'])).getLast? ≠ some '?' := by
      rw [← List.cons_append, ← List.append_assoc, List.getLast?_concat]
      decide
    have htexts : texts.map (requalify f) = (first :: others).map (TypeTree.text f) :=
      map_eq_map_of_forall₂ harguments fun type hmem text hw =>
        ih type hmem hw (hwf.argument type hmem) []
    have hvariance : variance? (base ++ '<' :: ([','].intercalate padded ++ ['>'])) = none :=
      variance?_eq_none (hwf.base.notMem (by decide)) (by simp)
    rw [requalify_keywords_append f variances hsolid hlast,
      requalify_generic f hwf.base.isSolid (hwf.base.notMem (by decide)) hvariance hentries,
      htexts, TypeTree.text, TypeTree.textAll_eq, List.map_cons]
  | nullable type ih =>
    obtain _ | _ | _ | h := h
    -- the mark is found first, behind all the variances
    have hsolid := isSolid_keywords_append variances (h.isSolid hwf.nullable)
    rw [← List.append_assoc, requalify_concat_question f hsolid, ih h hwf.nullable,
      List.append_assoc]
    rfl
  | projected variance type ih =>
    have hkeywords : ∀ rest, keywords variances ++ (variance.keyword ++ rest) =
        keywords (variances ++ [variance]) ++ rest := by
      intro rest
      simp [keywords]
    -- this variance is passed on together with those in front of it
    obtain ⟨rest, hw, rfl⟩ := h.exists_of_projected
    rw [hkeywords, ih hw hwf.projected, TypeTree.text_projected, hkeywords]

end TypeRef

namespace Resolver

/-- **Qualifying replaces every name of a type by what it resolves to, and nothing else**: no
type argument is lost, merged or moved, and question marks, variances and stars stay. -/
theorem qualify_of_written (resolver : Resolver) {type : TypeTree} {text : List Char}
    (h : type.Written text) (hwf : type.IsWellFormed) :
    resolver.qualify text =
      type.text fun name => (resolver.resolve (String.ofList name)).fqn.toList := by
  have hsolid : IsSolid text := h.isSolid hwf
  rw [qualify, TypeRef.read, trim_of_isSolid hsolid]
  exact TypeRef.requalify_written resolver.qualifyName h hwf []

theorem qualify_of_written_map :
    let resolver : Resolver :=
      ⟨{ package := "com.x.api", explicit := ["com.x.model.User"] },
        TypeIndex.empty.seed Markers.kotlin⟩
    let type : TypeTree :=
      .nullable (.generic "Map".toList (.named "String".toList)
        [.projected .producer (.generic "List".toList (.nullable (.named "User".toList)) [.star])])
    let text : List Char := "Map< String ,\tout List<User?,*>\n>?".toList
    type.Written text ∧ type.IsWellFormed ∧
      resolver.qualify text =
        ("kotlin.collections.Map<kotlin.String, " ++
          "out kotlin.collections.List<com.x.model.User?, *>>?").toList := by
  intro resolver type text
  have hlist : TypeTree.Written
      (.generic "List".toList (.nullable (.named "User".toList)) [.star]) "List<User?,*>".toList :=
    TypeTree.Written.generic (.cons (.nullable (.named _)) (.cons .star .nil))
      (.cons (isPadded_refl _) (.cons (isPadded_refl _) .nil))
  have hwritten : type.Written text :=
    TypeTree.Written.nullable (TypeTree.Written.generic
      (.cons (.named _) (.cons (.producer hlist) .nil))
      (.cons ⟨[' '], [' '], rfl, rfl, rfl⟩ (.cons ⟨['\t'], ['\n'], rfl, rfl, rfl⟩ .nil)))
  have hwf : type.IsWellFormed := by decide
  refine ⟨hwritten, hwf, ?_⟩
  rw [qualify_of_written resolver hwritten hwf]
  decide +kernel

end Resolver

end RpcBinder
