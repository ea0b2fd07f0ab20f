import RpcBinder.Proofs.Name
import RpcBinder.Proofs.TypeRef.Requalification

/-!
# Streams among the types

Whether a method streams is asked of a text, that of its return type with the names qualified: does
it begin with a name of a stream, and does a bracket follow?  Such a name holds neither white space
nor a bracket, so it has to be all of the text up to the first character of that kind.  In the text
of a tree this is the name in front of the type arguments, and where there are none, no bracket
follows.

## Main definitions

* `IsBare`, `bareFront` — texts without white space and brackets, and what a text begins with.
* `OpensArguments` — a bracket follows there.
* `TypeTree.withoutMarks` — a type without the question marks behind it.
* `Markers.NameStream` — the names of streams, and `Marker.Resembles` — names that look like one.
* `Resolver.HasBareNames` — what scopes and indexes hold has no white space and no bracket.

## Main results

* `Markers.isStreaming_iff` — what is asked of a text.
* `TypeTree.bareFront_text`, `TypeTree.not_opensArguments_text` — the answer for a tree.
* `Resolver.isStreaming_qualify_iff` — **the types that count as streams.**
-/

namespace RpcBinder

/-! ### Bare texts -/

/-- A character that is neither white space nor the bracket in front of type arguments. -/
def isBareChar (c : Char) : Bool := !isSpace c && c != '<'

/-- A text of such characters. -/
def IsBare (text : List Char) : Prop := ∀ c ∈ text, isBareChar c = true

instance (text : List Char) : Decidable (IsBare text) :=
  decidable_of_iff (text.all isBareChar = true) List.all_eq_true

/-- What a text begins with, up to white space or a bracket. -/
def bareFront (text : List Char) : List Char := text.takeWhile isBareChar

/-- A text that begins with a bare character. -/
def StartsBare (text : List Char) : Prop := ∃ c, text.head? = some c ∧ isBareChar c = true

/-- Behind what the text begins with there is a bracket, perhaps after white space. -/
def OpensArguments (text : List Char) : Prop :=
  (trimStart (text.dropWhile isBareChar)).head? = some '<'

theorem isBareChar_of_isTypeNameChar {c : Char} (h : isTypeNameChar c = true) :
    isBareChar c = true := by
  have hopen : c ≠ '<' := ne_of_class h (by decide)
  rw [isBareChar, isSpace_of_isTypeNameChar h]
  simpa using hopen

theorem IsTypeName.isBare {name : List Char} (h : IsTypeName name) : IsBare name :=
  fun c hc => isBareChar_of_isTypeNameChar (h.forall_char c hc)

theorem startsBare_cons {c : Char} (text : List Char) (hc : isBareChar c = true) :
    StartsBare (c :: text) :=
  ⟨c, rfl, hc⟩

theorem StartsBare.append {text : List Char} (h : StartsBare text) (rest : List Char) :
    StartsBare (text ++ rest) := by
  obtain ⟨c, hhead, hc⟩ := h
  obtain ⟨more, rfl⟩ := List.head?_eq_some_iff.1 hhead
  exact startsBare_cons (more ++ rest) hc

theorem IsBare.startsBare {text : List Char} (h : IsBare text) (hne : text ≠ []) :
    StartsBare text := by
  obtain ⟨c, more, rfl⟩ := List.exists_cons_of_ne_nil hne
  exact startsBare_cons more (h c List.mem_cons_self)

/-- White space and a bracket end what a text begins with. -/
theorem isBareChar_of_trimStart {rest : List Char} (h : (trimStart rest).head? = some '<') :
    ∀ c ∈ rest.head?, isBareChar c = false := by
  intro c hc
  obtain ⟨more, rfl⟩ := List.head?_eq_some_iff.1 hc
  by_cases hspace : isSpace c = true
  · rw [isBareChar, hspace]
    rfl
  · rw [trimStart, List.dropWhile_cons_of_neg hspace] at h
    obtain rfl : c = '<' := Option.some.inj h
    decide

theorem not_opensArguments_of_isBare {text : List Char} (h : IsBare text) :
    ¬ OpensArguments text := by
  rw [OpensArguments, List.dropWhile_eq_nil_iff.2 h, trimStart_nil]
  nofun

/-- Behind a keyword of a variance there is no bracket if something else is there. -/
theorem not_opensArguments_keyword_append (variance : Variance) {text : List Char}
    (h : StartsBare text) : ¬ OpensArguments (variance.keyword ++ text) := by
  obtain ⟨c, hhead, hc⟩ := h
  obtain ⟨more, rfl⟩ := List.head?_eq_some_iff.1 hhead
  rw [isBareChar, Bool.and_eq_true, Bool.not_eq_true', bne_iff_ne] at hc
  have hdrop : (variance.keyword ++ c :: more).dropWhile isBareChar = ' ' :: c :: more := by
    cases variance <;> rfl
  have htrim : trimStart (' ' :: c :: more) = c :: more := by
    rw [trimStart, List.dropWhile_cons_of_pos (by decide),
      List.dropWhile_cons_of_neg (by simp [hc.1])]
  rw [OpensArguments, hdrop, htrim]
  exact fun h => hc.2 (Option.some.inj h)

/-! ### What is asked of a text -/

namespace Markers

/-- The name is one of a stream, its qualified one or its simple one. -/
def NameStream (markers : Markers) (fqn : String) : Prop :=
  ∃ marker ∈ markers, marker.streaming = true ∧ (fqn = marker.fqn ∨ fqn = marker.simpleName)

instance (markers : Markers) (fqn : String) : Decidable (markers.NameStream fqn) :=
  inferInstanceAs (Decidable (∃ marker ∈ markers, _ ∧ _))

/-- The names of all markers are bare. -/
def AreBare (markers : Markers) : Prop :=
  ∀ marker ∈ markers, IsBare marker.fqn.toList ∧ IsBare marker.simpleName.toList

instance (markers : Markers) : Decidable markers.AreBare :=
  inferInstanceAs (Decidable (∀ marker ∈ markers, _ ∧ _))

/-- A text is a generic type of a bare name if that is what it begins with. -/
theorem isGenericOf_iff {base : String} (hbase : IsBare base.toList) (type : String) :
    isGenericOf base type = true ↔
      base.toList = bareFront type.toList ∧ OpensArguments type.toList := by
  unfold isGenericOf
  constructor
  · intro h
    split at h
    · next rest hrest =>
      have htype := List.isPrefixOf?_eq_some_iff_append_eq.1 hrest
      have hopen : (trimStart rest).head? = some '<' := by simpa using h
      -- what follows the base is no character of a name, so the front ends there
      have hstop := isBareChar_of_trimStart hopen
      rw [bareFront, OpensArguments, ← htype, takeWhile_append_eq hbase hstop,
        dropWhile_append_eq hbase hstop]
      exact ⟨rfl, hopen⟩
    · cases h
  · rintro ⟨hfront, hopen⟩
    have htype : base.toList ++ type.toList.dropWhile isBareChar = type.toList := by
      rw [hfront, bareFront, List.takeWhile_append_dropWhile]
    rw [List.isPrefixOf?_eq_some_iff_append_eq.2 htype]
    exact beq_iff_eq.2 hopen

/-- Among bare names, a text counts as a stream by what it begins with. -/
theorem isStreaming_iff {markers : Markers} (h : markers.AreBare) (type : String) :
    markers.isStreaming type = true ↔
      markers.NameStream (String.ofList (bareFront type.toList)) ∧ OpensArguments type.toList := by
  have hname : ∀ {name : String}, IsBare name.toList → (isGenericOf name type = true ↔
      String.ofList (bareFront type.toList) = name ∧ OpensArguments type.toList) := by
    intro name hbare
    rw [isGenericOf_iff hbare, ← String.toList_inj, String.toList_ofList, eq_comm]
  rw [isStreaming, List.any_eq_true]
  constructor
  · rintro ⟨marker, hmarker, hboth⟩
    rw [Bool.and_eq_true, Bool.or_eq_true, hname (h marker hmarker).1,
      hname (h marker hmarker).2, ← or_and_right] at hboth
    exact ⟨⟨marker, hmarker, hboth.1, hboth.2.1⟩, hboth.2.2⟩
  · rintro ⟨⟨marker, hmarker, hstream, hfqn⟩, hopen⟩
    refine ⟨marker, hmarker, ?_⟩
    rw [Bool.and_eq_true, Bool.or_eq_true, hname (h marker hmarker).1,
      hname (h marker hmarker).2, ← or_and_right]
    exact ⟨hstream, hfqn, hopen⟩

end Markers

/-- The qualified name is none of the marker's but looks like one: it goes on behind one, or it is
the simple name in a package that has a name. -/
def Marker.Resembles (marker : Marker) (fqn : String) : Prop :=
  fqn ≠ marker.fqn ∧
    (fqn ≠ marker.simpleName ∧
        (∃ more, fqn = marker.fqn ++ more ∨ fqn = marker.simpleName ++ more) ∨
      ∃ package, package ≠ "" ∧ fqn = qualifiedName package marker.simpleName)

theorem qualifiedName_ne {package : String} (h : package ≠ "") (simple : String) :
    qualifiedName package simple ≠ simple := by
  intro heq
  have hlength := congrArg (fun name => name.toList.length) heq
  simp only [toList_qualifiedName h, List.length_append, List.length_cons] at hlength
  omega

theorem Marker.Resembles.ne {marker : Marker} {fqn : String} (h : marker.Resembles fqn) :
    fqn ≠ marker.fqn ∧ fqn ≠ marker.simpleName := by
  obtain ⟨hfqn, ⟨hsimple, -⟩ | ⟨package, hpackage, rfl⟩⟩ := h
  · exact ⟨hfqn, hsimple⟩
  · exact ⟨hfqn, qualifiedName_ne hpackage marker.simpleName⟩

/-- Taking a marker out that a name is not one of changes nothing for the name. -/
theorem Markers.nameStream_filter_ne {markers : Markers} {marker : Marker} {fqn : String}
    (h : fqn ≠ marker.fqn ∧ fqn ≠ marker.simpleName) :
    markers.NameStream fqn ↔ NameStream (markers.filter (· ≠ marker)) fqn := by
  have hother : ∀ other : Marker, (fqn = other.fqn ∨ fqn = other.simpleName) → other ≠ marker := by
    rintro other hfqn rfl
    exact hfqn.elim h.1 h.2
  constructor
  · rintro ⟨other, hmem, hstream, hfqn⟩
    exact ⟨other, List.mem_filter.2 ⟨hmem, decide_eq_true (hother other hfqn)⟩, hstream, hfqn⟩
  · rintro ⟨other, hmem, hstream, hfqn⟩
    exact ⟨other, (List.mem_filter.1 hmem).1, hstream, hfqn⟩

/-! ### The answer for a tree -/

namespace TypeTree

/-- The type without the question marks behind it. -/
def withoutMarks : TypeTree → TypeTree
  | .nullable type => withoutMarks type
  | type => type

variable {f : List Char → List Char} {type : TypeTree}

theorem withoutMarks_ne_nullable (type inner : TypeTree) : type.withoutMarks ≠ .nullable inner := by
  induction type with
  | nullable type ih => exact ih
  | _ => simp [withoutMarks]

/-- Question marks stand behind everything else. -/
theorem exists_marks (f : List Char → List Char) (type : TypeTree) :
    ∃ marks, type.text f = type.withoutMarks.text f ++ marks ∧ ∀ c ∈ marks, c = '?' := by
  induction type with
  | nullable type ih =>
    obtain ⟨marks, htext, hmarks⟩ := ih
    refine ⟨marks ++ ['?'], ?_, ?_⟩
    · rw [text, withoutMarks, htext, List.append_assoc]
    · intro c hc
      rcases List.mem_append.1 hc with hc | hc
      · exact hmarks c hc
      · exact List.mem_singleton.1 hc
  | _ => exact ⟨[], by simp [withoutMarks], by simp⟩

theorem names_withoutMarks (type : TypeTree) : type.withoutMarks.names = type.names := by
  induction type with
  | nullable type ih => rw [withoutMarks, ih, names]
  | _ => rfl

theorem isBare_of_marks {marks : List Char} (h : ∀ c ∈ marks, c = '?') : IsBare marks := by
  intro c hc
  rw [h c hc]
  decide

/-- The text of a type begins with a name, a star or a keyword. -/
theorem startsBare_text (hbare : ∀ name ∈ type.names, IsBare (f name))
    (hne : ∀ name ∈ type.names, f name ≠ []) : StartsBare (type.text f) := by
  induction type with
  | star => exact startsBare_cons [] (by decide)
  | named name =>
    have hname : name ∈ (TypeTree.named name).names := by
      rw [names]
      exact List.mem_singleton_self name
    exact (hbare name hname).startsBare (hne name hname)
  | generic base first others ih =>
    have hbase : base ∈ (TypeTree.generic base first others).names := by
      rw [names]
      exact List.mem_cons_self
    rw [text]
    exact ((hbare base hbase).startsBare (hne base hbase)).append _
  | nullable type ih => exact (ih hbare hne).append ['?']
  | projected variance type ih =>
    cases variance with
    | producer => exact startsBare_cons _ (by decide : isBareChar 'o' = true)
    | consumer => exact startsBare_cons _ (by decide : isBareChar 'i' = true)

/-- The text of a generic type begins with its name, and then a bracket follows. -/
theorem bareFront_text {base : List Char} {first : TypeTree} {others : List TypeTree}
    (heq : type.withoutMarks = .generic base first others) (hbase : IsBare (f base)) :
    bareFront (type.text f) = f base ∧ OpensArguments (type.text f) := by
  obtain ⟨marks, htext, -⟩ := exists_marks f type
  rw [heq, text, List.append_assoc, List.cons_append] at htext
  rw [htext, bareFront, OpensArguments, takeWhile_append_eq hbase (by simp; decide),
    dropWhile_append_eq hbase (by simp; decide)]
  exact ⟨rfl, rfl⟩

/-- No bracket follows what the text of any other type begins with. -/
theorem not_opensArguments_text (hbare : ∀ name ∈ type.names, IsBare (f name))
    (hvariance : ∀ variance inner, type.withoutMarks = .projected variance inner →
      ∀ name ∈ inner.names, f name ≠ [])
    (hother : ∀ base first others, type.withoutMarks ≠ .generic base first others) :
    ¬ OpensArguments (type.text f) := by
  -- the marks at the end open no arguments, so the form without them decides
  obtain ⟨marks, htext, hmarks⟩ := exists_marks f type
  rw [← names_withoutMarks type] at hbare
  rw [htext]
  cases hform : type.withoutMarks with
  | star =>
    have hstar : IsBare ['*'] := by decide
    exact not_opensArguments_of_isBare
      (List.forall_mem_append.2 ⟨hstar, isBare_of_marks hmarks⟩)
  | named name =>
    have hname : IsBare (f name) :=
      hbare name (by rw [hform, names]; exact List.mem_singleton_self name)
    exact not_opensArguments_of_isBare
      (List.forall_mem_append.2 ⟨hname, isBare_of_marks hmarks⟩)
  | generic base first others => exact absurd hform (hother base first others)
  | nullable inner => exact absurd hform (withoutMarks_ne_nullable type inner)
  | projected variance inner =>
    have hinner : StartsBare (inner.text f) :=
      startsBare_text (fun name hname => hbare name (by rw [hform, names]; exact hname))
        (hvariance variance inner hform)
    rw [text_projected, List.append_assoc]
    exact not_opensArguments_keyword_append variance (hinner.append marks)

end TypeTree

/-! ### What scopes and indexes hold -/

namespace Resolver

/-- Whatever a name may resolve to is bare. -/
structure HasBareNames (resolver : Resolver) : Prop where
  explicit : ∀ path ∈ resolver.scope.explicit, IsBare path.toList
  aliases : ∀ name path, resolver.scope.aliases.get? name = some path → IsBare path.toList
  index : ∀ name fqn, resolver.index.contains name fqn = true → IsBare fqn.toList

/-- What sources declare and import is bare. -/
theorem IsRegular.hasBareNames {resolver : Resolver} (h : resolver.IsRegular) :
    resolver.HasBareNames where
  explicit path hpath := (h.paths.explicit path hpath).isTypeName.isBare
  aliases name path hpath := (h.paths.aliases name path hpath).1.isTypeName.isBare
  index name fqn hcontains := by
    obtain ⟨steps, hsteps, hindex⟩ := h.index
    rw [hindex] at hcontains
    exact (isCandidate_of_contains hsteps hcontains).typeName.isBare

variable {resolver : Resolver} {markers : Markers} {type : TypeTree} {text : List Char}

theorem HasBareNames.isBare_fqn (h : resolver.HasBareNames) {name : String}
    (hname : IsBare name.toList) : IsBare (resolver.resolve name).fqn.toList := by
  rcases (resolves_resolve resolver name).eq_or_known with heq | ⟨-, halias | hexplicit | hcontains⟩
  · rwa [heq]
  · exact h.aliases _ _ halias
  · exact h.explicit _ (List.mem_of_find?_eq_some hexplicit)
  · exact h.index _ _ hcontains

theorem HasBareNames.isBare_qualifyName (h : resolver.HasBareNames) (hwf : type.IsWellFormed) :
    ∀ name ∈ type.names, IsBare (resolver.qualifyName name) := by
  intro name hname
  refine h.isBare_fqn ?_
  rw [String.toList_ofList]
  exact (hwf name hname).isBare

/-- A type with type arguments counts as a stream by what its name resolves to. -/
theorem isStreaming_qualify_generic (hnames : resolver.HasBareNames) (hmarkers : markers.AreBare)
    (h : type.Written text) (hwf : type.IsWellFormed) {base : List Char} {first : TypeTree}
    {others : List TypeTree} (hform : type.withoutMarks = .generic base first others) :
    markers.isStreaming (String.ofList (resolver.qualify text)) = true ↔
      markers.NameStream (resolver.resolve (String.ofList base)).fqn := by
  have hbase : base ∈ type.names := by
    rw [← type.names_withoutMarks, hform, TypeTree.names]
    exact List.mem_cons_self
  obtain ⟨hfront, hopen⟩ :=
    TypeTree.bareFront_text hform (hnames.isBare_qualifyName hwf base hbase)
  rw [Markers.isStreaming_iff hmarkers, String.toList_ofList, qualify_eq_text resolver h hwf,
    hfront, qualifyName, String.ofList_toList]
  exact and_iff_left hopen

/-- **The types that count as streams** are, apart from question marks, those with type arguments
whose name resolves to the qualified or the simple name of a stream.  A type with a name that only
looks like one of a marker does not count on its account.  A variance in front of the whole type is
no matter as long as the names behind it are not resolved to nothing. -/
theorem isStreaming_qualify_iff (hnames : resolver.HasBareNames) (hmarkers : markers.AreBare)
    (h : type.Written text) (hwf : type.IsWellFormed)
    (hvariance : ∀ variance inner, type.withoutMarks = .projected variance inner →
      ∀ name ∈ inner.names, (resolver.resolve (String.ofList name)).fqn ≠ "") :
    (markers.isStreaming (String.ofList (resolver.qualify text)) = true ↔
      ∃ base first others, type.withoutMarks = .generic base first others ∧
        markers.NameStream (resolver.resolve (String.ofList base)).fqn) ∧
    ∀ base first others, type.withoutMarks = .generic base first others →
      ∀ marker : Marker, marker.Resembles (resolver.resolve (String.ofList base)).fqn →
        (markers.isStreaming (String.ofList (resolver.qualify text)) = true ↔
          Markers.NameStream (markers.filter (· ≠ marker))
            (resolver.resolve (String.ofList base)).fqn) := by
  constructor
  · constructor
    · intro hstream
      by_cases hgeneric : ∃ base first others, type.withoutMarks = .generic base first others
      · obtain ⟨base, first, others, hform⟩ := hgeneric
        exact ⟨base, first, others, hform,
          (isStreaming_qualify_generic hnames hmarkers h hwf hform).1 hstream⟩
      · -- without type arguments there is no bracket behind what the text begins with
        have hsolid : ∀ variance inner, type.withoutMarks = .projected variance inner →
            ∀ name ∈ inner.names, resolver.qualifyName name ≠ [] := by
          intro variance inner hform name hname hnil
          exact hvariance variance inner hform name hname (String.toList_eq_nil_iff.1 hnil)
        have hopen := TypeTree.not_opensArguments_text (hnames.isBare_qualifyName hwf) hsolid
          fun base first others hform => hgeneric ⟨base, first, others, hform⟩
        rw [Markers.isStreaming_iff hmarkers, String.toList_ofList,
          qualify_eq_text resolver h hwf] at hstream
        exact absurd hstream.2 hopen
    · rintro ⟨base, first, others, hform, hstream⟩
      exact (isStreaming_qualify_generic hnames hmarkers h hwf hform).2 hstream
  · intro base first others hform marker hresembles
    rw [isStreaming_qualify_generic hnames hmarkers h hwf hform]
    exact Markers.nameStream_filter_ne hresembles.ne

theorem isStreaming_qualify_iff_example :
    let scope : Scope :=
      { package := "com.x", explicit := ["kotlinx.coroutines.flow.FlowCollector"]
        aliases := .ofList [("Ticks", "kotlinx.coroutines.flow.Flow")] }
    let steps : List IndexStep := [.declare "com.x" "Flow", .seed Markers.kotlin]
    let resolver : Resolver := ⟨scope, .build steps⟩
    let flow : TypeTree := .generic "Flow".toList (.named "Int".toList) []
    let ticks : TypeTree := .nullable (.generic "Ticks".toList flow [.star])
    let collector : TypeTree := .generic "FlowCollector".toList ticks []
    (resolver.HasBareNames ∧ Markers.kotlin.AreBare ∧ ticks.IsWellFormed ∧ flow.IsWellFormed ∧
        collector.IsWellFormed) ∧
      Markers.kotlin.isStreaming
        (String.ofList (resolver.qualify "Ticks< Flow<Int> ,*>?".toList)) = true ∧
      ∀ type ∈ [flow, collector],
        Markers.kotlin.isStreaming (String.ofList (resolver.qualify type.canonical)) = false := by
  intro scope steps resolver flow ticks collector
  have haliases : ∀ name path, scope.aliases.get? name = some path →
      name = "Ticks" ∧ path = "kotlinx.coroutines.flow.Flow" := by
    intro name path h
    have hlookup : scope.aliases.get? name =
        if name == "Ticks" then some "kotlinx.coroutines.flow.Flow" else none :=
      Table.get?_alter _ _ _ _
    rw [hlookup] at h
    split at h
    · next hname => exact ⟨beq_iff_eq.1 hname, (Option.some.inj h).symm⟩
    · cases h
  have hregular : resolver.IsRegular := by
    refine ⟨⟨Or.inr (by decide), by decide, by decide, ?_⟩, ?_, ⟨steps, by decide, rfl⟩⟩
    · intro name path h
      obtain ⟨-, rfl⟩ := haliases name path h
      decide
    · intro name path h
      obtain ⟨rfl, -⟩ := haliases name path h
      decide
  have hnames := hregular.hasBareNames
  have hmarkers : Markers.kotlin.AreBare := by decide +kernel
  have hwf : ticks.IsWellFormed ∧ flow.IsWellFormed ∧ collector.IsWellFormed := by decide
  have hwritten : ticks.Written "Ticks< Flow<Int> ,*>?".toList :=
    .nullable (.generic (.cons (TypeTree.written_text flow) (.cons .star .nil))
      (.cons ⟨[' '], [' '], rfl, rfl, rfl⟩ (.cons (isPadded_refl _) .nil)))
  refine ⟨⟨hnames, hmarkers, hwf⟩, ?_, List.forall_mem_cons.2 ⟨?_, List.forall_mem_singleton.2 ?_⟩⟩
  · have hiff := (isStreaming_qualify_iff hnames hmarkers hwritten hwf.1 nofun).1
    exact hiff.2 ⟨"Ticks".toList, flow, [.star], rfl, by decide +kernel⟩
  · -- a type of the project with the simple name of the stream
    have hiff := (isStreaming_qualify_iff hnames hmarkers (TypeTree.written_text flow)
      hwf.2.1 nofun).2 "Flow".toList (.named "Int".toList) [] rfl
      ⟨"Flow", "kotlinx.coroutines.flow.Flow", true⟩
      ⟨by decide +kernel, Or.inr ⟨"com.x", by decide +kernel⟩⟩
    rw [Bool.eq_false_iff, ne_eq, hiff]
    decide +kernel
  · -- a type whose name begins with that of the stream
    have hiff := (isStreaming_qualify_iff hnames hmarkers (TypeTree.written_text collector)
      hwf.2.2 nofun).2 "FlowCollector".toList ticks [] rfl
      ⟨"Flow", "kotlinx.coroutines.flow.Flow", true⟩
      ⟨by decide +kernel, Or.inl ⟨by decide +kernel, "Collector", Or.inl (by decide +kernel)⟩⟩
    rw [Bool.eq_false_iff, ne_eq, hiff]
    decide +kernel

/-- A type of the package without a name has its simple name for a qualified one.  So it counts as a
stream if it has the simple name of one, although it is another type, and no name was left as it
is for want of a type. -/
theorem isStreaming_default_package :
    let resolver : Resolver :=
      ⟨{ package := "" }, .build [.declare "" "Flow", .seed Markers.kotlin]⟩
    let flow : TypeTree := .generic "Flow".toList (.named "Long".toList) []
    resolver.HasBareNames ∧ Markers.kotlin.AreBare ∧ flow.IsWellFormed ∧
      resolver.resolve "Flow" = ⟨qualifiedName "" "Flow", .samePackage⟩ ∧
      (∀ marker ∈ Markers.kotlin, marker.streaming = true →
        marker.simpleName = "Flow" ∧ marker.fqn = qualifiedName "kotlinx.coroutines.flow" "Flow" ∧
          marker.fqn ≠ qualifiedName "" "Flow") ∧
      resolver.qualify flow.canonical = "Flow<kotlin.Long>".toList ∧
      Markers.kotlin.isStreaming (String.ofList (resolver.qualify flow.canonical)) = true := by
  intro resolver flow
  have hpaths : resolver.scope.HasDottedPaths :=
    ⟨Or.inl rfl, List.forall_mem_nil _, List.forall_mem_nil _, nofun⟩
  have hregular : resolver.IsRegular := ⟨hpaths, nofun, _, by decide, rfl⟩
  have hwf : flow.IsWellFormed := by decide
  have hqualified : resolver.qualify flow.canonical = "Flow<kotlin.Long>".toList := by
    rw [qualify_eq_text resolver (TypeTree.written_text flow) hwf]
    decide +kernel
  refine ⟨hregular.hasBareNames, by decide +kernel, hwf, by decide +kernel, by decide +kernel,
    hqualified, ?_⟩
  rw [hqualified]
  decide +kernel

end Resolver

end RpcBinder
