import RpcBinder.Proofs.Name
import RpcBinder.Proofs.Scope.Names
import RpcBinder.Proofs.TypeRef.Names
import RpcBinder.Proofs.TypeRef.Requalification
import RpcBinder.Proofs.TypeRef.Spacing

/-!
# Function types

The reader knows names, type arguments, question marks and variances, but no function types.  It
reads one from its first `<` to its last `>`, and the last one may be that of an arrow.  Without type
arguments the arrow has the only bracket, and the text is kept as one whose brackets do not fit.
With type arguments it is taken apart at places that mean nothing, and it depends on what is found
there whether a name is replaced.

## Main definitions

* `functionText` — the text of a function type.
* `IsWrittenType` — the texts of types, function types among them.

## Main results

* `Resolver.qualify_eq_self_iff` — the texts that stay as they are, whatever is declared.
* `TypeRef.requalify_open` — function types without type arguments are kept.
* `Resolver.qualify_functionText_generic` — type arguments of the result are qualified, and nothing
  else is.
* `Resolver.qualify_functionText` — **which function types are kept as written.**
-/

namespace RpcBinder

/-! ### The texts of function types -/

/-- The front of a function type: its parameters between parentheses, and an arrow. -/
def paramsText (params : List (List Char)) : List Char :=
  '(' :: ([',', ' '].intercalate params ++ [')', ' ', '-', '>', ' '])

/-- The text of a function type. -/
def functionText (params : List (List Char)) (result : List Char) : List Char :=
  paramsText params ++ result

/-- The text of a type: the types that trees stand for, types in parentheses and function types,
with any white space around type arguments. -/
inductive IsWrittenType : List Char → Prop
  | star : IsWrittenType ['*']
  | named {name : List Char} (h : IsTypeName name) : IsWrittenType name
  | generic {base : List Char} {texts padded : List (List Char)} (hbase : IsTypeName base)
      (harguments : ∀ text ∈ texts, IsWrittenType text) (hne : texts ≠ [])
      (hpadded : List.Forall₂ IsPadded texts padded) :
      IsWrittenType (base ++ '<' :: ([','].intercalate padded ++ ['>']))
  | nullable {text : List Char} (h : IsWrittenType text) : IsWrittenType (text ++ ['?'])
  | projected {text : List Char} (variance : Variance) (h : IsWrittenType text) :
      IsWrittenType (variance.keyword ++ text)
  | enclosed {text : List Char} (h : IsWrittenType text) : IsWrittenType ('(' :: (text ++ [')']))
  | function {params : List (List Char)} {result : List Char}
      (hparams : ∀ param ∈ params, IsWrittenType param) (hresult : IsWrittenType result) :
      IsWrittenType (functionText params result)

/-- The text of a tree is the text of a type. -/
theorem TypeTree.Written.isWrittenType {type : TypeTree} {text : List Char} (h : type.Written text)
    (hwf : type.IsWellFormed) : IsWrittenType text := by
  induction type generalizing text with
  | star =>
    cases h
    exact .star
  | named name =>
    cases h
    exact .named hwf.named
  | generic base first others ih =>
    obtain _ | _ | ⟨harguments, hpadded⟩ := h
    refine .generic hwf.base (fun text htext => ?_) ?_ hpadded
    · obtain ⟨type, htype, hw⟩ := exists_related_of_mem harguments htext
      exact ih type htype hw (hwf.argument type htype)
    · rintro rfl
      cases harguments
  | nullable type ih =>
    obtain _ | _ | _ | h := h
    exact .nullable (ih h hwf.nullable)
  | projected variance type ih =>
    obtain ⟨rest, hw, rfl⟩ := h.exists_of_projected
    exact .projected variance (ih hw hwf.projected)

/-- The text of a type ends with a character that is no white space. -/
theorem IsWrittenType.endsSolid {text : List Char} (h : IsWrittenType text) : EndsSolid text := by
  induction h with
  | star => exact endsSolid_concat [] (by decide)
  | named h => exact h.isSolid.ends
  | @generic base texts padded hbase harguments hne hpadded ih =>
    have hlast : EndsSolid (base ++ '<' :: [','].intercalate padded ++ ['>']) :=
      endsSolid_concat _ (by decide)
    rwa [List.append_assoc, List.cons_append] at hlast
  | nullable h ih => exact endsSolid_concat _ (by decide)
  | projected variance h ih => exact ih.append _
  | @enclosed text h ih =>
    have hlast : EndsSolid ('(' :: text ++ [')']) := endsSolid_concat _ (by decide)
    exact hlast
  | function hparams hresult ihparams ihresult => exact ihresult.append (paramsText _)

theorem isSolid_functionText (params : List (List Char)) {result : List Char}
    (h : EndsSolid result) : IsSolid (functionText params result) :=
  ⟨startsSolid_cons _ (by decide), h.append (paramsText params)⟩

/-- Even entries make up an even entry. -/
theorem isEvenEntry_functionText {params : List (List Char)} {result : List Char}
    (hparams : ∀ param ∈ params, IsEvenEntry param) (hresult : IsEvenEntry result) :
    IsEvenEntry (functionText params result) := by
  have hspace : (' ' :: (result ++ [])).IsChain MayFollow :=
    hresult.isChain_cons_append (by decide) List.isChain_nil
  rw [List.append_nil] at hspace
  have harrow : ([')', ' ', '-', '>'] ++ ' ' :: result).IsChain MayFollow :=
    List.isChain_append.2 ⟨by decide, hspace, fun c hc d _ =>
      mayFollow_of_isBack (by rw [← Option.some.inj hc]; decide) d⟩
  have hchain : (functionText params result).IsChain MayFollow := by
    rw [functionText, paramsText, List.cons_append, List.append_assoc]
    exact isChain_intercalate hparams (by decide) (by decide) harrow
  exact ⟨hchain, ⟨'(', rfl, by decide⟩, hresult.back_append (paramsText params)⟩

/-! ### Function types without type arguments -/

namespace TypeRef

theorem variance?_open (rest : List Char) : variance? ('(' :: rest) = none := rfl

/-- A text that is not nullable and whose only bracket is a closing one is kept. -/
theorem shape_open {rest : List Char} (hopen : '<' ∉ rest) (hclose : '>' ∈ rest)
    (hlast : ('(' :: rest).getLast? ≠ some '?') : shape ('(' :: rest) = .verbatim := by
  have hmark : (('(' :: rest).getLast? == some '?') = false := beq_eq_false_iff_ne.2 hlast
  have hfirst : splitFirst? '<' ('(' :: rest) = none := by
    apply splitFirst?_eq_none
    rw [List.mem_cons, not_or]
    exact ⟨by decide, hopen⟩
  have hany : ('(' :: rest).contains '>' = true := by
    rw [List.contains_eq_mem, decide_eq_true_iff]
    exact List.mem_cons_of_mem _ hclose
  rw [shape, hmark, variance?_open]
  simp only [Bool.false_eq_true, if_false, hfirst, hany, if_true, ite_self]

theorem requalify_open_of_getLast? (f : List Char → List Char) {rest : List Char}
    (hopen : '<' ∉ rest) (hclose : '>' ∈ rest) (hlast : ('(' :: rest).getLast? ≠ some '?') :
    requalify f ('(' :: rest) = '(' :: rest := by
  rw [requalify, readTrimmed_of_verbatim (shape_open hopen hclose hlast), mapNames, render_verbatim]

/-- A text that begins with a parenthesis and ends with a type stays as it is if it has an arrow and
no type arguments.  The induction takes off the question marks at the end. -/
theorem requalify_open (f : List Char → List Char) {s text : List Char} (h : IsWrittenType text)
    (hopen : '<' ∉ s ++ text) (hclose : '>' ∈ s) :
    requalify f ('(' :: (s ++ text)) = '(' :: (s ++ text) := by
  induction h generalizing s with
  | star =>
    refine requalify_open_of_getLast? f hopen (List.mem_append_left _ hclose) ?_
    rw [← List.cons_append, List.getLast?_concat]
    decide
  | named h =>
    refine requalify_open_of_getLast? f hopen (List.mem_append_left _ hclose) fun hlast => ?_
    rw [← List.cons_append, List.getLast?_append_of_ne_nil _ h.ne_nil] at hlast
    exact h.notMem (by decide) (List.mem_of_getLast? hlast)
  | generic hbase harguments hne hpadded ih => exact absurd (by simp) hopen
  | @nullable text h ih =>
    -- only the question mark is read off, and what stands in front of it is kept
    have hsolid : IsSolid ('(' :: (s ++ text)) :=
      ⟨startsSolid_cons _ (by decide), h.endsSolid.append ('(' :: s)⟩
    rw [← List.append_assoc] at hopen ⊢
    rw [← List.cons_append, requalify_concat_question f hsolid,
      ih (fun hmem => hopen (List.mem_append_left _ hmem)) hclose]
  | projected variance h ih =>
    rw [← List.append_assoc] at hopen ⊢
    exact ih hopen (List.mem_append_left _ hclose)
  | @enclosed text h ih =>
    refine requalify_open_of_getLast? f hopen (List.mem_append_left _ hclose) ?_
    have hlast : ('(' :: (s ++ '(' :: text) ++ [')']).getLast? = some ')' := List.getLast?_concat
    rw [List.cons_append, List.append_assoc, List.cons_append] at hlast
    rw [hlast]
    decide
  | function hparams hresult ihparams ihresult =>
    rw [functionText, ← List.append_assoc] at hopen ⊢
    exact ihresult hopen (List.mem_append_left _ hclose)

/-- A function type without type arguments stays as it is. -/
theorem requalify_functionText (f : List Char → List Char) {params : List (List Char)}
    {result : List Char} (hresult : IsWrittenType result) (hopen : '<' ∉ functionText params result) :
    requalify f (functionText params result) = functionText params result := by
  refine requalify_open f hresult (fun hmem => hopen (List.mem_cons_of_mem _ hmem)) ?_
  simp

end TypeRef

namespace Resolver

/-! ### Texts that stay as they are -/

/-- A type that is declared once, in a package, is found in a file without imports. -/
theorem resolve_of_declared {simple package : String} (h : IsSimpleName simple.toList)
    (hpackage : IsDottedPath package) :
    resolve ⟨{ package := "" }, .build [.declare package simple]⟩ simple =
      ⟨qualifiedName package simple, .globallyUnique⟩ := by
  have hcontains : ∀ fqn, (TypeIndex.build [.declare package simple]).contains simple fqn = true ↔
      fqn = qualifiedName package simple := by
    intro fqn
    rw [TypeIndex.contains_build]
    constructor
    · intro hpair
      exact (Prod.mk.inj (List.mem_singleton.1 hpair)).2
    · rintro rfl
      exact List.mem_singleton_self _
  have hsame : samePackage? ⟨{ package := "" }, .build [.declare package simple]⟩ simple = none := by
    rw [Option.eq_none_iff_forall_ne_some]
    intro found hfound
    obtain ⟨hname, hfound⟩ := samePackage?_eq_some_iff.1 hfound
    -- the name in the default package has no dot
    have hqualified : qualifiedName "" simple = qualifiedName package simple :=
      hname.symm.trans ((hcontains found).1 hfound)
    exact hpackage.ne_empty ((qualifiedName_eq_iff h.dot_notMem h.dot_notMem).1 hqualified).1.symm
  have hunique : (TypeIndex.build [.declare package simple]).unique? simple =
      some (qualifiedName package simple) :=
    (TypeIndex.unique?_eq_some_iff (TypeIndex.isTidy_build _) _ _).2
      ⟨(hcontains _).2 rfl, fun other => (hcontains other).1⟩
  have hresolves : Resolves ⟨{ package := "" }, .build [.declare package simple]⟩ simple _ :=
    .globallyUnique h.dot_notMem ⟨rfl, rfl⟩ rfl hsame hunique
  exact hresolves.resolve_eq

theorem isRegular_of_declared {steps : List IndexStep} (h : ∀ step ∈ steps, step.IsRegular) :
    IsRegular ⟨{ package := "" }, .build steps⟩ where
  paths := ⟨Or.inl rfl, nofun, nofun, nofun⟩
  aliases := nofun
  index := ⟨steps, h, rfl⟩

/-- If a simple name is read in a text, there is a project in which it is replaced: one that declares
it in a package whose own name is longer than the text. -/
theorem exists_qualify_ne {text name : List Char} (hname : name ∈ (TypeRef.read text).names)
    (hsimple : IsSimpleName name) :
    ∃ resolver : Resolver, resolver.IsRegular ∧ resolver.qualify text ≠ text := by
  -- a package with a name longer than the text, so that no text with a name in it stays
  let package := String.ofList (List.replicate (text.length + 1) 'p')
  let simple := String.ofList name
  have hsimple : IsSimpleName simple.toList := by rwa [String.toList_ofList]
  have hpackage : IsSimpleName package.toList := by
    rw [String.toList_ofList]
    refine ⟨by simp, fun c hc => ?_⟩
    rw [List.eq_of_mem_replicate hc]
    decide
  have hstep : ∀ step ∈ [IndexStep.declare package simple], step.IsRegular := by
    intro step hstep
    rw [List.mem_singleton.1 hstep]
    exact ⟨Or.inr hpackage.isDottedPath, hsimple⟩
  refine ⟨_, isRegular_of_declared hstep, fun hkept => ?_⟩
  have hinfix := TypeRef.infix_render_mapNames hname
    (qualifyName ⟨{ package := "" }, .build [.declare package simple]⟩)
  have hlength := hinfix.length_le
  rw [← qualify, hkept, qualifyName, resolve_of_declared hsimple hpackage.isDottedPath,
    toList_qualifiedName hpackage.isDottedPath.ne_empty, List.length_append, String.toList_ofList,
    List.length_replicate] at hlength
  omega

/-- **The texts that stay as they are, whatever is declared**: they are rendered as they are read,
and no simple name is read in them. -/
theorem qualify_eq_self_iff {text : List Char} :
    (∀ resolver : Resolver, resolver.IsRegular → resolver.qualify text = text) ↔
      (TypeRef.read text).render = text ∧
        ∀ name ∈ (TypeRef.read text).names, ¬ IsSimpleName name := by
  -- names that are not simple are left alone, so only the spelling counts
  have hqualify : (∀ name ∈ (TypeRef.read text).names, ¬ IsSimpleName name) →
      ∀ resolver : Resolver, resolver.IsRegular →
        resolver.qualify text = (TypeRef.read text).render := by
    intro hnames resolver hregular
    rw [qualify, TypeRef.mapNames_eq_self fun name hname =>
      hregular.qualifyName_eq (hnames name hname)]
  constructor
  · intro hkept
    have hnames : ∀ name ∈ (TypeRef.read text).names, ¬ IsSimpleName name := by
      intro name hname hsimple
      obtain ⟨resolver, hregular, hne⟩ := exists_qualify_ne hname hsimple
      exact hne (hkept resolver hregular)
    have hregular : IsRegular ⟨{ package := "" }, .build []⟩ :=
      isRegular_of_declared fun step hstep => absurd hstep List.not_mem_nil
    exact ⟨(hqualify hnames _ hregular).symm.trans (hkept _ hregular), hnames⟩
  · rintro ⟨hrender, hnames⟩ resolver hregular
    rw [hqualify hnames resolver hregular, hrender]

/-! ### Which function types are kept -/

theorem notMem_paramsText {params : List (List Char)} (h : ∀ param ∈ params, '<' ∉ param) :
    '<' ∉ paramsText params := by
  have hjoin : ∀ c ∈ [',', ' '].intercalate params, (c != '<') = true :=
    forall_char_intercalate (by decide) fun param hparam c hc =>
      bne_iff_ne.2 fun heq => h param hparam (heq ▸ hc)
  rw [paramsText, List.mem_cons, List.mem_append, not_or, not_or]
  exact ⟨by decide, fun hmem => absurd (hjoin '<' hmem) (by decide), by decide⟩

/-- What begins with a parenthesis is no simple name. -/
theorem not_isSimpleName_open (rest : List Char) : ¬ IsSimpleName ('(' :: rest) := fun h =>
  h.notMem (by decide) List.mem_cons_self

/-- **Type arguments of the result are qualified, and nothing else is**, if the parameters have no
type arguments: the name in front of them is taken for a part of what the arrow stands in. -/
theorem qualify_functionText_generic {resolver : Resolver} (h : resolver.IsRegular)
    {params : List (List Char)} (hparams : ∀ param ∈ params, '<' ∉ param) {base : List Char}
    {first : TypeTree} {others : List TypeTree} {text : List Char}
    (hwritten : (TypeTree.generic base first others).Written text)
    (hwf : (TypeTree.generic base first others).IsWellFormed) :
    resolver.qualify (functionText params text) =
      functionText params (base ++ '<' :: ([',', ' '].intercalate
        ((first :: others).map (TypeTree.text resolver.qualifyName)) ++ ['>'])) := by
  have htext : IsSolid (functionText params text) :=
    isSolid_functionText params (hwritten.isSolid hwf).ends
  obtain _ | _ | ⟨harguments, hpadded⟩ := hwritten
  rename_i texts padded
  have hentries : Lexis.splitTopLevel ([','].intercalate padded) = texts :=
    TypeTree.splitTopLevel_arguments harguments hpadded hwf.argument
  have htexts : texts.map (TypeRef.requalify resolver.qualifyName) =
      (first :: others).map (TypeTree.text resolver.qualifyName) :=
    map_eq_map_of_forall₂ harguments fun type hmem text hw =>
      TypeRef.requalify_written resolver.qualifyName hw (hwf.argument type hmem) []
  -- the name is read together with everything in front of it
  have hsolid : IsSolid (paramsText params ++ base) :=
    ⟨startsSolid_cons _ (by decide), hwf.base.isSolid.ends.append _⟩
  have hopen : '<' ∉ paramsText params ++ base := by
    rw [List.mem_append, not_or]
    exact ⟨notMem_paramsText hparams, hwf.base.notMem (by decide)⟩
  have hfront : resolver.qualifyName (paramsText params ++ base) = paramsText params ++ base :=
    h.qualifyName_eq (not_isSimpleName_open _)
  have hsplit : ∀ rest, functionText params (base ++ rest) = (paramsText params ++ base) ++ rest :=
    fun rest => (List.append_assoc _ _ _).symm
  rw [qualify_of_isSolid resolver htext, hsplit, hsplit,
    TypeRef.requalify_generic _ hsolid hopen (TypeRef.variance?_open _) hentries, hfront, htexts]

/-- **Which function types are kept as written.**  Without type arguments they are kept whatever is
declared or imported.  With type arguments this is so if and only if the text is rendered as it is
read and no simple name is read in it; and if parameters and result are spaced evenly, it is always
rendered as it is read.  If the result is the only one with type arguments, these are qualified and
nothing else is. -/
theorem qualify_functionText (params : List (List Char)) {result : List Char}
    (hresult : IsWrittenType result) :
    let text := functionText params result
    ('<' ∉ text → ∀ resolver : Resolver, resolver.qualify text = text) ∧
      ((∀ resolver : Resolver, resolver.IsRegular → resolver.qualify text = text) ↔
        (TypeRef.read text).render = text ∧
          ∀ name ∈ (TypeRef.read text).names, ¬ IsSimpleName name) ∧
      ((∀ param ∈ params, IsEvenEntry param) → IsEvenEntry result →
        (TypeRef.read text).render = text) ∧
      ((∀ param ∈ params, '<' ∉ param) → ∀ (base : List Char) (first : TypeTree)
        (others : List TypeTree), (TypeTree.generic base first others).Written result →
        (TypeTree.generic base first others).IsWellFormed →
        ∀ resolver : Resolver, resolver.IsRegular →
          resolver.qualify text = functionText params (base ++ '<' :: ([',', ' '].intercalate
            ((first :: others).map (TypeTree.text resolver.qualifyName)) ++ ['>']))) := by
  intro text
  have hsolid : IsSolid text := isSolid_functionText params hresult.endsSolid
  refine ⟨fun hopen resolver => ?_, qualify_eq_self_iff, fun hparams hresult => ?_,
    fun hparams base first others hwritten hwf resolver hregular => ?_⟩
  · rw [qualify_of_isSolid resolver hsolid]
    exact TypeRef.requalify_functionText _ hresult hopen
  · have heven : IsEven text := (isEvenEntry_functionText hparams hresult).isEven
    rw [TypeRef.read, heven.trim_eq]
    exact TypeRef.render_readTrimmed heven
  · exact qualify_functionText_generic hregular hparams hwritten hwf

/-- A function type without type arguments, and one that is kept although its parameter has one. -/
theorem qualify_functionText_example :
    let plain := functionText ["A".toList, functionText ["B".toList] "C?".toList] "Unit?".toList
    let generic := functionText ["List<A>".toList] "B".toList
    plain = "(A, (B) -> C?) -> Unit?".toList ∧ generic = "(List<A>) -> B".toList ∧
      (∀ resolver : Resolver, resolver.qualify plain = plain) ∧
      ∀ resolver : Resolver, resolver.IsRegular → resolver.qualify generic = generic := by
  intro plain generic
  have hunit : IsTypeName "Unit".toList := by decide
  have hb : IsTypeName "B".toList := by decide
  have hresult : IsWrittenType "Unit?".toList := IsWrittenType.nullable (.named hunit)
  let list : TypeTree := .generic "List".toList (.named "A".toList) []
  have hlist : IsEvenEntry list.canonical := TypeTree.isEvenEntry_canonical (by decide)
  -- the reader takes the arrow for a part of the argument, and keeps it as it stands
  have hread : TypeRef.read generic =
      .generic "(List".toList [.verbatim "A>) -".toList] " B".toList := by
    have hinner : TypeRef.readTrimmed "A>) -".toList = .verbatim "A>) -".toList :=
      TypeRef.readTrimmed_of_verbatim rfl
    have hentries : Lexis.splitTopLevel "A>) -".toList = ["A>) -".toList] := by decide
    have hshape : TypeRef.shape (trim generic) =
        .generic "(List".toList "A>) -".toList " B".toList := rfl
    rw [TypeRef.read, TypeRef.readTrimmed_of_generic hshape, hentries, List.map_singleton, hinner]
    rfl
  refine ⟨rfl, rfl, (qualify_functionText _ hresult).1 (by decide), ?_⟩
  obtain ⟨-, hkept, hrender, -⟩ := qualify_functionText [list.canonical] (.named hb)
  refine hkept.2 ⟨hrender (List.forall_mem_singleton.2 hlist) hb.isEvenEntry, ?_⟩
  intro name hname
  have hname : name ∈ (TypeRef.read generic).names := hname
  rw [hread] at hname
  obtain rfl : name = "(List".toList := List.mem_singleton.1 hname
  exact not_isSimpleName_open _

/-- A function type whose result has a type argument: the argument is qualified, and the type of the
parameter, which is declared next to it, is not. -/
theorem qualify_functionText_list :
    let resolver : Resolver :=
      ⟨{ package := "" }, .build [.declare "p" "A", .declare "p" "B"]⟩
    let text := functionText ["A".toList] "List<B>".toList
    text = "(A) -> List<B>".toList ∧ IsWrittenType "A".toList ∧ IsWrittenType "List<B>".toList ∧
      resolver.qualify "A".toList = "p.A".toList ∧
      resolver.qualify text = "(A) -> List<p.B>".toList ∧ resolver.qualify text ≠ text := by
  intro resolver text
  let list : TypeTree := .generic "List".toList (.named "B".toList) []
  have hname : IsTypeName "A".toList := by decide
  have hwf : list.IsWellFormed := by decide
  have hlist : list.Written "List<B>".toList := TypeTree.written_text list
  have hregular : resolver.IsRegular := isRegular_of_declared (by decide)
  have hqualified : resolver.qualify text = "(A) -> List<p.B>".toList := by
    have hparams : ∀ param ∈ ["A".toList], '<' ∉ param := by decide
    rw [qualify_functionText_generic hregular hparams hlist hwf]
    decide
  refine ⟨rfl, .named hname, hlist.isWrittenType hwf, ?_, hqualified, ?_⟩
  · rw [qualify_name resolver hname]
    decide
  · rw [hqualified]
    decide

end Resolver

end RpcBinder
