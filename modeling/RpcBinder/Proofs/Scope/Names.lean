import RpcBinder.Proofs.Name
import RpcBinder.Proofs.Scope.Resolution
import RpcBinder.Proofs.Scope.TypeIndex
import RpcBinder.Proofs.TypeRef.Tree

/-!
# Names resolve to names

The scopes and indexes that come from sources hold simple names and paths of them.  Then a name of a
type resolves to a name of a type, and a candidate is its simple name, alone or behind a dot.  So
what a name resolves to is the name itself or holds a dot, and in both cases it resolves to itself.

## Main definitions

* `IsSimpleName`, `IsDottedPath` — simple names, and simple names with dots between them.
* `Scope.HasDottedPaths`, `IndexStep.IsRegular` — what scopes and indexes hold.
* `lastPart` — a name without what qualifies it.
* `IsCandidate` — what an index holds of a simple name.
* `Resolver.IsRegular` — a scope and an index as they come from sources.

## Main results

* `isCandidate_of_contains` — the candidates of an index that is built by regular steps.
* `Resolver.Resolves.isNameOf` — what a name of a type resolves to.
* `Resolver.IsRegular.qualifyName_eq` — what is no simple name stays as it is.
* `Resolver.qualifyName_qualifyName`, `Resolver.lastPart_qualifyName` — it resolves to itself, and
  it has the last part of the name.
-/

namespace RpcBinder

/-! ### Simple names and paths -/

/-- A character of a simple name: one of a name in a type, and no dot. -/
def isSimpleNameChar (c : Char) : Bool := isTypeNameChar c && c != '.'

/-- A simple name, of whatever alphabet. -/
abbrev IsSimpleName (name : List Char) : Prop := IsRun isSimpleNameChar name

/-- Simple names with a dot between any two of them, at least one. -/
def IsDottedPath (path : String) : Prop := ∀ part ∈ path.toList.splitOn '.', IsSimpleName part

instance (path : String) : Decidable (IsDottedPath path) :=
  inferInstanceAs (Decidable (∀ part ∈ path.toList.splitOn '.', IsSimpleName part))

theorem IsSimpleName.isTypeName {name : List Char} (h : IsSimpleName name) : IsTypeName name :=
  h.mono fun c hc => by
    rw [isSimpleNameChar, Bool.and_eq_true] at hc
    exact hc.1

theorem IsSimpleName.dot_notMem {name : List Char} (h : IsSimpleName name) : '.' ∉ name :=
  h.notMem (by decide)

/-- A path of simple names may be the name of a type. -/
theorem IsDottedPath.isTypeName {path : String} (h : IsDottedPath path) :
    IsTypeName path.toList := by
  have hjoin : ['.'].intercalate (path.toList.splitOn '.') = path.toList :=
    List.intercalate_splitOn '.'
  refine ⟨?_, ?_⟩
  · intro hnil
    have hempty : IsSimpleName [] := h [] (by rw [hnil]; exact List.mem_singleton_self [])
    exact hempty.ne_nil rfl
  · rw [← hjoin]
    exact forall_char_intercalate (by decide) fun part hpart c hc =>
      (h part hpart).isTypeName.forall_char c hc

theorem IsDottedPath.ne_empty {path : String} (h : IsDottedPath path) : path ≠ "" := by
  rintro rfl
  exact h.isTypeName.ne_nil rfl

theorem IsSimpleName.isDottedPath {name : String} (h : IsSimpleName name.toList) :
    IsDottedPath name := by
  intro part hpart
  rw [List.splitOn_eq_singleton h.dot_notMem, List.mem_singleton] at hpart
  rwa [hpart]

/-- What stands behind the last dot of a path is a simple name. -/
theorem IsDottedPath.isSimpleName_of_suffix {path : String} (h : IsDottedPath path)
    {name : List Char} (hdot : '.' ∉ name) (hsuffix : ('.' :: name) <:+ path.toList) :
    IsSimpleName name := by
  obtain ⟨front, hfront⟩ := hsuffix
  have hsplit : (front ++ '.' :: name).splitOn '.' = front.splitOn '.' ++ name.splitOn '.' := by
    rw [List.splitOn_eq_splitOnP, List.splitOn_eq_splitOnP, List.splitOn_eq_splitOnP]
    exact List.splitOnP_append_cons front name (beq_self_eq_true '.')
  refine h name ?_
  rw [← hfront, hsplit, List.splitOn_eq_singleton hdot]
  exact List.mem_append_right _ (List.mem_singleton_self name)

/-! ### What scopes and indexes hold -/

/-- The package and all imports of a scope are paths of simple names, and an alias stands for a
path of at least two. -/
structure Scope.HasDottedPaths (scope : Scope) : Prop where
  package : scope.package = "" ∨ IsDottedPath scope.package
  explicit : ∀ path ∈ scope.explicit, IsDottedPath path
  wildcards : ∀ package ∈ scope.wildcards, IsDottedPath package
  aliases : ∀ name path, scope.aliases.get? name = some path →
    IsDottedPath path ∧ '.' ∈ path.toList

/-- The explicit import of a name is a path that ends with the name. -/
theorem Scope.HasDottedPaths.of_explicitImport? {scope : Scope} (h : scope.HasDottedPaths)
    {name path : String} (hpath : scope.explicitImport? name = some path) :
    IsDottedPath path ∧ ('.' :: name.toList) <:+ path.toList := by
  have hends := List.find?_some hpath
  exact ⟨h.explicit path (List.mem_of_find?_eq_some hpath), List.isSuffixOf_iff_suffix.1 hends⟩

/-- The step declares a simple name in a package, or it seeds the built-in types. -/
def IndexStep.IsRegular : IndexStep → Prop
  | .insert _ _ => False
  | .declare package simple =>
      (package = "" ∨ IsDottedPath package) ∧ IsSimpleName simple.toList
  | .seed markers => markers = Markers.kotlin

instance : (step : IndexStep) → Decidable step.IsRegular
  | .insert _ _ => .isFalse id
  | .declare package simple =>
      inferInstanceAs (Decidable
        ((package = "" ∨ IsDottedPath package) ∧ IsSimpleName simple.toList))
  | .seed markers => inferInstanceAs (Decidable (markers = Markers.kotlin))

/-- The qualified name is the simple name, alone or behind a dot. -/
def IsNameOf (name fqn : String) : Prop :=
  fqn = name ∨ ('.' :: name.toList) <:+ fqn.toList

/-- What an index holds: a simple name, and a name of a type that ends with it. -/
structure IsCandidate (name fqn : String) : Prop where
  simple : IsSimpleName name.toList
  typeName : IsTypeName fqn.toList
  named : IsNameOf name fqn

theorem isCandidate_qualifiedName {package simple : String}
    (hpackage : package = "" ∨ IsDottedPath package) (hsimple : IsSimpleName simple.toList) :
    IsCandidate simple (qualifiedName package simple) := by
  rcases hpackage with rfl | hpackage
  · exact ⟨hsimple, hsimple.isTypeName, Or.inl rfl⟩
  · have htext := toList_qualifiedName hpackage.ne_empty simple
    refine ⟨hsimple, ⟨by rw [htext]; simp, ?_⟩, Or.inr ⟨package.toList, htext.symm⟩⟩
    rw [htext]
    intro c hc
    rcases List.mem_append.1 hc with hc | hc
    · exact hpackage.isTypeName.forall_char c hc
    · rcases List.mem_cons.1 hc with rfl | hc
      · decide
      · exact hsimple.isTypeName.forall_char c hc

/-- The built-in types are declared in packages. -/
theorem isCandidate_of_mem_kotlin {marker : Marker} (h : marker ∈ Markers.kotlin) :
    IsCandidate marker.simpleName marker.fqn := by
  have hpackages : ∀ marker ∈ Markers.kotlin,
      ∃ package ∈ ["kotlin", "kotlin.collections", "kotlinx.coroutines.flow"],
        marker.fqn = qualifiedName package marker.simpleName ∧
          IsSimpleName marker.simpleName.toList := by
    decide
  have hdotted : ∀ package ∈ ["kotlin", "kotlin.collections", "kotlinx.coroutines.flow"],
      IsDottedPath package := by
    decide
  obtain ⟨package, hpackage, hfqn, hsimple⟩ := hpackages marker h
  rw [hfqn]
  exact isCandidate_qualifiedName (Or.inr (hdotted package hpackage)) hsimple

theorem isCandidate_of_mem_pairs {step : IndexStep} (hstep : step.IsRegular) {name fqn : String}
    (h : (name, fqn) ∈ step.pairs) : IsCandidate name fqn := by
  cases step with
  | insert simple fqn => exact absurd hstep id
  | declare package simple =>
    obtain ⟨rfl, rfl⟩ := Prod.mk.inj (List.mem_singleton.1 h)
    exact isCandidate_qualifiedName hstep.1 hstep.2
  | seed markers =>
    obtain rfl : markers = Markers.kotlin := hstep
    obtain ⟨marker, hmarker, heq⟩ := List.mem_map.1 h
    obtain ⟨rfl, rfl⟩ := Prod.mk.inj heq
    exact isCandidate_of_mem_kotlin hmarker

/-- What an index holds that is built by regular steps. -/
theorem isCandidate_of_contains {steps : List IndexStep} (hsteps : ∀ step ∈ steps, step.IsRegular)
    {name fqn : String} (h : (TypeIndex.build steps).contains name fqn = true) :
    IsCandidate name fqn := by
  rw [TypeIndex.contains_build] at h
  obtain ⟨step, hstep, hpair⟩ := List.mem_flatMap.1 h
  exact isCandidate_of_mem_pairs (hsteps step hstep) hpair

/-! ### The last part of a name -/

/-- What stands behind the last dot of a name, or all of a name without a dot. -/
def lastPart : List Char → List Char
  | [] => []
  | c :: rest => if '.' ∈ c :: rest then lastPart rest else c :: rest

theorem lastPart_of_notMem {name : List Char} (h : '.' ∉ name) : lastPart name = name := by
  cases name with
  | nil => rfl
  | cons c rest => rw [lastPart, if_neg h]

theorem lastPart_append_dot (package : List Char) {name : List Char} (h : '.' ∉ name) :
    lastPart (package ++ '.' :: name) = name := by
  induction package with
  | nil => rw [List.nil_append, lastPart, if_pos List.mem_cons_self, lastPart_of_notMem h]
  | cons c package ih =>
    have hdot : '.' ∈ c :: (package ++ '.' :: name) := by simp
    rw [List.cons_append, lastPart, if_pos hdot, ih]

/-- The last part of a qualified name is the simple one. -/
theorem IsNameOf.lastPart_eq {name fqn : String} (h : IsNameOf name fqn)
    (hdot : '.' ∉ name.toList) : lastPart fqn.toList = name.toList := by
  rcases h with rfl | ⟨package, hpackage⟩
  · exact lastPart_of_notMem hdot
  · rw [← hpackage]
    exact lastPart_append_dot package hdot

theorem IsNameOf.eq_or_dot_mem {name fqn : String} (h : IsNameOf name fqn) :
    fqn = name ∨ '.' ∈ fqn.toList :=
  h.imp_right fun hsuffix => hsuffix.subset List.mem_cons_self

/-! ### What names resolve to -/

namespace Resolver

variable {scope : Scope} {steps : List IndexStep} {name : String}

/-- A name stays as it is, unless it has no dot and its scope or the index knows it. -/
theorem Resolves.eq_or_known {resolver : Resolver} {resolution : Resolution}
    (h : resolver.Resolves name resolution) :
    resolution.fqn = name ∨ '.' ∉ name.toList ∧
      (resolver.scope.aliases.get? name = some resolution.fqn ∨
        resolver.scope.explicitImport? name = some resolution.fqn ∨
        resolver.index.contains name resolution.fqn = true) := by
  cases h with
  | alreadyQualified hdot => exact Or.inl rfl
  | aliased hdot h => exact Or.inr ⟨hdot, Or.inl h⟩
  | explicitImport hdot halias h => exact Or.inr ⟨hdot, Or.inr (Or.inl h)⟩
  | wildcardImport hdot hopen h => exact Or.inr ⟨hdot, Or.inr (Or.inr (List.find?_some h))⟩
  | samePackage hdot hopen hwildcard h =>
    exact Or.inr ⟨hdot, Or.inr (Or.inr (samePackage?_eq_some_iff.1 h).2)⟩
  | globallyUnique hdot hopen hwildcard hsame h =>
    exact Or.inr ⟨hdot, Or.inr (Or.inr (TypeIndex.contains_of_unique? h))⟩
  | unresolved hdot hopen hwildcard hsame hunique => exact Or.inl rfl

/-- What a name that a scope and an index decide resolves to: a name of a type, which is the name
itself or holds a dot, and which ends with the name unless that is an alias. -/
theorem Resolves.isNameOf (hscope : scope.HasDottedPaths)
    (hsteps : ∀ step ∈ steps, step.IsRegular) {resolution : Resolution}
    (h : Resolves ⟨scope, .build steps⟩ name resolution) (hname : IsTypeName name.toList) :
    IsTypeName resolution.fqn.toList ∧
      (resolution.fqn = name ∨ '.' ∈ resolution.fqn.toList) ∧
      (scope.aliases.get? name = none → IsNameOf name resolution.fqn) := by
  rcases h.eq_or_known with heq | ⟨-, halias | hexplicit | hcontains⟩
  · rw [heq]
    exact ⟨hname, Or.inl rfl, fun _ => Or.inl rfl⟩
  · obtain ⟨hpath, hin⟩ := hscope.aliases _ _ halias
    refine ⟨hpath.isTypeName, Or.inr hin, fun hnone => ?_⟩
    cases halias.symm.trans hnone
  · obtain ⟨hpath, hends⟩ := hscope.of_explicitImport? hexplicit
    have hnamed : IsNameOf name resolution.fqn := Or.inr hends
    exact ⟨hpath.isTypeName, hnamed.eq_or_dot_mem, fun _ => hnamed⟩
  · have hfound := isCandidate_of_contains hsteps hcontains
    exact ⟨hfound.typeName, hfound.named.eq_or_dot_mem, fun _ => hfound.named⟩

/-- A resolver as it comes from sources: of a scope of simple names and paths, and of an index
that is built by regular steps. -/
structure IsRegular (resolver : Resolver) : Prop where
  paths : resolver.scope.HasDottedPaths
  aliases : ∀ name path, resolver.scope.aliases.get? name = some path → IsSimpleName name.toList
  index : ∃ steps : List IndexStep,
    (∀ step ∈ steps, step.IsRegular) ∧ resolver.index = .build steps

/-- What is no simple name is none that a source can declare or import. -/
theorem IsRegular.qualifyName_eq {resolver : Resolver} (h : resolver.IsRegular)
    {name : List Char} (hname : ¬ IsSimpleName name) : resolver.qualifyName name = name := by
  -- an alias, an imported name and a declared one are simple, and this one is not
  rcases (resolves_resolve resolver (String.ofList name)).eq_or_known with
    heq | ⟨hdot, halias | hexplicit | hcontains⟩
  · rw [qualifyName, heq, String.toList_ofList]
  · have hsimple := h.aliases _ _ halias
    rw [String.toList_ofList] at hsimple
    exact absurd hsimple hname
  · obtain ⟨hpath, hends⟩ := h.paths.of_explicitImport? hexplicit
    rw [String.toList_ofList] at hdot hends
    exact absurd (hpath.isSimpleName_of_suffix hdot hends) hname
  · obtain ⟨steps, hsteps, hindex⟩ := h.index
    rw [hindex] at hcontains
    have hsimple := (isCandidate_of_contains hsteps hcontains).simple
    rw [String.toList_ofList] at hsimple
    exact absurd hsimple hname

/-- A name with a dot stays as it is. -/
theorem qualifyName_of_dot_mem (resolver : Resolver) {name : List Char} (hdot : '.' ∈ name) :
    resolver.qualifyName name = name := by
  have hresolves : resolver.Resolves (String.ofList name) _ :=
    .alreadyQualified (by rwa [String.toList_ofList])
  rw [qualifyName, hresolves.resolve_eq, String.toList_ofList]

variable (hscope : scope.HasDottedPaths) (hsteps : ∀ step ∈ steps, step.IsRegular)
include hscope hsteps

/-- What a name of a type resolves to, as a text. -/
theorem isNameOf_qualifyName {name : List Char} (hname : IsTypeName name) :
    let resolved := qualifyName ⟨scope, .build steps⟩ name
    IsTypeName resolved ∧ (resolved = name ∨ '.' ∈ resolved) ∧
      (scope.aliases.get? (String.ofList name) = none →
        IsNameOf (String.ofList name) (String.ofList resolved)) := by
  intro resolved
  have htype : IsTypeName (String.ofList name).toList := by
    rw [String.toList_ofList]
    exact hname
  obtain ⟨hresolved, hsame, hnamed⟩ :=
    (resolves_resolve ⟨scope, .build steps⟩ (String.ofList name)).isNameOf hscope hsteps htype
  refine ⟨hresolved, hsame.imp_left fun heq => ?_, fun halias => ?_⟩
  · show (resolve ⟨scope, .build steps⟩ (String.ofList name)).fqn.toList = name
    rw [heq, String.toList_ofList]
  · rw [show String.ofList resolved = _ from String.ofList_toList]
    exact hnamed halias

/-- What a name resolves to resolves to itself. -/
theorem qualifyName_qualifyName {name : List Char} (hname : IsTypeName name) :
    let resolver : Resolver := ⟨scope, .build steps⟩
    resolver.qualifyName (resolver.qualifyName name) = resolver.qualifyName name := by
  intro resolver
  obtain ⟨-, hsame | hdot, -⟩ := isNameOf_qualifyName hscope hsteps hname
  · rw [hsame, hsame]
  · exact qualifyName_of_dot_mem resolver hdot

/-- A name that is no alias keeps its last part. -/
theorem lastPart_qualifyName {name : List Char} (hname : IsTypeName name)
    (halias : scope.aliases.get? (String.ofList name) = none) :
    lastPart (qualifyName ⟨scope, .build steps⟩ name) = lastPart name := by
  by_cases hdot : '.' ∈ name
  · rw [qualifyName_of_dot_mem _ hdot]
  · have hnamed := (isNameOf_qualifyName hscope hsteps hname).2.2 halias
    have hlast := hnamed.lastPart_eq (by rwa [String.toList_ofList])
    rw [String.toList_ofList, String.toList_ofList] at hlast
    rw [hlast, lastPart_of_notMem hdot]

end Resolver

end RpcBinder
