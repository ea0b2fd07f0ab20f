import RpcBinder.Proofs.Declaration.Params
import RpcBinder.Proofs.Declaration.Tag

/-!
# Decorated parameters

Modifiers and tags may stand in front of the name of a parameter.  An entry is cut at its first
colon, and the name is the last word in front of it.  So decorations leave no trace as long as none
of them holds a colon and white space sets the name apart; otherwise the colon of a decoration takes
the place of that of the parameter, or the last decoration becomes a part of the name.

## Main definitions

* `Decoration` — a modifier, or a tag with its target and its arguments.
* `DecoratedParam`, `IsDecoratedBlock` — parameters with decorations, and their texts.
* `DecoratedParam.IsReadable` — no decoration holds a colon, and the name is set apart.

## Main results

* `DecoratedParam.parseParam_of_isReadable`, `DecoratedParam.isReadable_of_parseParam` — the
  parameter that is read off a decorated entry.
* `parseParams_decorated` — **decorations do not influence what is read** if all are readable.
-/

namespace RpcBinder.Declaration

open Shape

/-! ### Decorations -/

/-- What may stand in front of the name of a parameter. -/
inductive Decoration
  /-- A modifier, and the white space behind it. -/
  | modifier (word gap : List Char)
  /-- A tag, with the target that may be named in front of it. -/
  | tagged (target? : Option (List Char)) (tag : Tag)

namespace Decoration

/-- The target of a tag with its colon. -/
def targetText : Option (List Char) → List Char
  | none => []
  | some target => target ++ [':']

/-- The text of a decoration without the white space behind it. -/
def bare : Decoration → List Char
  | modifier word _ => word
  | tagged target? tag => '@' :: (targetText target? ++ (tag.name ++ tag.argumentList))

/-- The white space behind a decoration. -/
def gap : Decoration → List Char
  | modifier _ gap => gap
  | tagged _ tag => tag.gap

/-- The text of a decoration. -/
def text (decoration : Decoration) : List Char :=
  decoration.bare ++ decoration.gap

/-- The brackets of the arguments are balanced as the splitter counts them. -/
def IsBalanced (arguments : List Char) : Prop :=
  ∃ dash, Lexis.walk (1, false) arguments = some (1, dash)

/-- Modifiers and targets are identifiers, tags have dotted names and balanced arguments, and only
behind a parenthesis there may be no white space. -/
def IsWellFormed : Decoration → Prop
  | modifier word gap => IsIdentifier word ∧ isBlank gap = true ∧ gap ≠ []
  | tagged target? tag => (∀ target ∈ target?, IsIdentifier target) ∧
      tag.IsWellFormed (fun _ => true) isSpace ∧ ∀ arguments ∈ tag.arguments?, IsBalanced arguments

/-- There is no colon in the decoration: neither a target nor a colon in the arguments. -/
def IsMute : Decoration → Prop
  | modifier _ _ => True
  | tagged target? tag => target? = none ∧ ∀ arguments ∈ tag.arguments?, ':' ∉ arguments

variable {decoration : Decoration}

theorem isBlank_gap (hwf : decoration.IsWellFormed) : isBlank decoration.gap = true := by
  cases decoration with
  | modifier word gap => exact hwf.2.1
  | tagged target? tag => exact List.all_eq_true.2 hwf.2.1.gap

/-- The colons of a decoration are that of its target and those of its arguments. -/
theorem colon_mem_text_iff (hwf : decoration.IsWellFormed) :
    ':' ∈ decoration.text ↔ ¬ decoration.IsMute := by
  have hgap : ':' ∉ decoration.gap := notMem_of_isBlank (isBlank_gap hwf) (by decide)
  rw [text, List.mem_append, or_iff_left hgap]
  cases decoration with
  | modifier word gap => simpa [bare, IsMute] using hwf.1.notMem (c := ':') (by decide)
  | tagged target? tag =>
    have hname : ':' ∉ tag.name := hwf.2.1.name.notMem (by decide)
    cases target? with
    | some target => simp [bare, targetText, IsMute]
    | none =>
      cases harguments : tag.arguments? with
      | none => simp [bare, targetText, IsMute, Tag.argumentList, harguments, hname]
      | some arguments =>
        simp [bare, targetText, IsMute, Tag.argumentList, harguments, hname]

theorem walk_argumentList {tag : Tag} (h : ∀ arguments ∈ tag.arguments?, IsBalanced arguments) :
    Lexis.walk (0, false) tag.argumentList = some (0, false) := by
  unfold Tag.argumentList
  cases harguments : tag.arguments? with
  | none => rfl
  | some arguments =>
    obtain ⟨dash, hwalk⟩ := h arguments harguments
    show Lexis.walk (1, false) (arguments ++ [')']) = some (0, false)
    rw [Lexis.walk_append, hwalk]
    rfl

/-- No comma of a decoration is a cut, and all brackets are closed behind it. -/
theorem walk_text (hwf : decoration.IsWellFormed) :
    Lexis.walk (0, false) decoration.text = some (0, false) := by
  have hgap := Lexis.walk_of_isBlank 0 (isBlank_gap hwf)
  suffices hbare : Lexis.walk (0, false) decoration.bare = some (0, false) by
    rw [text, Lexis.walk_append, hbare, Option.bind_some, hgap]
  have hidentifier {name : List Char} (h : IsIdentifier name) :
      Lexis.walk (0, false) name = some (0, false) :=
    (isTypeName_of_isDottedName (isDottedName_of_isIdentifier h)).walk 0
  cases decoration with
  | modifier word gap => exact hidentifier hwf.1
  | tagged target? tag =>
    have hname : Lexis.walk (0, false) tag.name = some (0, false) :=
      (isTypeName_of_isDottedName hwf.2.1.name).walk 0
    have htarget : Lexis.walk (0, false) ('@' :: targetText target?) = some (0, false) := by
      cases target? with
      | none => rfl
      | some target =>
        show Lexis.walk (0, false) (target ++ [':']) = some (0, false)
        rw [Lexis.walk_append, hidentifier (hwf.1 target rfl)]
        rfl
    rw [bare, ← List.cons_append, Lexis.walk_append, htarget, Option.bind_some, Lexis.walk_append,
      hname, Option.bind_some]
    exact walk_argumentList hwf.2.2

theorem walk_flatMap_text {decorations : List Decoration}
    (hwf : ∀ decoration ∈ decorations, decoration.IsWellFormed) :
    Lexis.walk (0, false) (decorations.flatMap text) = some (0, false) := by
  induction decorations with
  | nil => rfl
  | cons decoration others ih =>
    obtain ⟨hfirst, hothers⟩ := List.forall_mem_cons.1 hwf
    rw [List.flatMap_cons, Lexis.walk_append, walk_text hfirst, Option.bind_some, ih hothers]

/-- Without white space behind it a decoration ends with a parenthesis. -/
theorem exists_bare_eq (hwf : decoration.IsWellFormed) (hgap : decoration.gap = []) :
    ∃ s, decoration.bare = s ++ [')'] := by
  cases decoration with
  | modifier word gap => exact absurd hgap hwf.2.2
  | tagged target? tag =>
    cases harguments : tag.arguments? with
    | none => exact absurd hgap (hwf.2.1.gap_ne_nil harguments)
    | some arguments =>
      refine ⟨'@' :: (targetText target? ++ (tag.name ++ '(' :: arguments)), ?_⟩
      simp [bare, Tag.argumentList, harguments]

end Decoration

/-! ### Decorated parameters -/

/-- A parameter with decorations in front of it. -/
structure DecoratedParam where
  /-- What stands in front of its name. -/
  decorations : List Decoration
  /-- The parameter without them. -/
  param : ParamText

namespace DecoratedParam

/-- The text in front of the name. -/
def front (decorated : DecoratedParam) : List Char :=
  decorated.decorations.flatMap Decoration.text

structure IsWellFormed (decorated : DecoratedParam) : Prop where
  decorations : ∀ decoration ∈ decorated.decorations, decoration.IsWellFormed
  param : decorated.param.IsWellFormed

/-- A text of the parameter with its decorations, with any white space in front of them, behind the
name and around the type. -/
def IsEntry (decorated : DecoratedParam) (entry : List Char) : Prop :=
  ∃ lead after type, isBlank lead = true ∧ isBlank after = true ∧
    IsPadded decorated.param.type type ∧
      entry = lead ++ (decorated.front ++ (decorated.param.name ++ after ++
        ':' :: (type ++ decorated.param.suffix)))

/-- No decoration holds a colon, and white space sets the name apart from the last one. -/
def IsReadable (decorated : DecoratedParam) : Prop :=
  (∀ decoration ∈ decorated.decorations, decoration.IsMute) ∧
    ∀ last ∈ decorated.decorations.getLast?, last.gap ≠ []

/-- The word in front of the first colon of the decorations, if there is one, is not by chance the
name of the parameter. -/
def IsTold (decorated : DecoratedParam) : Prop :=
  ∀ before after, decorated.front = before ++ ':' :: after → ':' ∉ before →
    parameterName before ≠ decorated.param.name

variable {decorated : DecoratedParam} {entry : List Char}

theorem colon_notMem_front_iff (hwf : decorated.IsWellFormed) :
    ':' ∉ decorated.front ↔ ∀ decoration ∈ decorated.decorations, decoration.IsMute := by
  unfold front
  rw [List.mem_flatMap, not_exists]
  refine forall_congr' fun decoration => ?_
  rw [not_and]
  refine forall_congr' fun hmem => ?_
  rw [Decoration.colon_mem_text_iff (hwf.decorations decoration hmem), not_not]

/-- The last word in front of the colon is the name if and only if it is set apart. -/
theorem parameterName_front_iff (hwf : decorated.IsWellFormed) :
    parameterName (decorated.front ++ decorated.param.name) = decorated.param.name ↔
      ∀ last ∈ decorated.decorations.getLast?, last.gap ≠ [] := by
  have hword : IsWord decorated.param.name := isWord_of_isIdentifier hwf.param.name
  cases hlast : decorated.decorations.getLast? with
  | none =>
    rw [front, List.getLast?_eq_none_iff.1 hlast, List.flatMap_nil, List.nil_append, parameterName,
      words_of_isWord hword]
    simp
  | some last =>
    obtain ⟨init, hinit⟩ := List.getLast?_eq_some_iff.1 hlast
    have hlastwf := hwf.decorations last (by simp [hinit])
    have hfront : decorated.front = init.flatMap Decoration.text ++ (last.bare ++ last.gap) := by
      simp [front, hinit, Decoration.text]
    rw [hfront]
    by_cases hgap : last.gap = []
    · -- the name goes on from a parenthesis, which no name holds
      obtain ⟨s, hs⟩ := Decoration.exists_bare_eq hlastwf hgap
      obtain ⟨w, hw⟩ := exists_getLast?_words (init.flatMap Decoration.text ++ s)
        ((isWord_singleton (c := ')') (by decide)).append hword)
      refine iff_of_false (fun hname => ?_) fun h => h last rfl hgap
      have hclose : ')' ∈ decorated.param.name := by
        rw [← hname, hs, hgap, List.append_nil, ← List.append_assoc, List.append_assoc _ [')'],
          parameterName, hw]
        simp
      exact hwf.param.name.notMem (by decide) hclose
    · refine iff_of_true ?_ fun other hother => ?_
      · rw [← List.dropLast_append_getLast hgap]
        have hspace : isSpace (last.gap.getLast hgap) = true :=
          forall_isSpace_of_isBlank (Decoration.isBlank_gap hlastwf) _ (List.getLast_mem hgap)
        have hsplit := words_append_cons hspace
          (init.flatMap Decoration.text ++ (last.bare ++ last.gap.dropLast)) decorated.param.name
        rw [words_of_isWord hword] at hsplit
        simp only [List.append_assoc, List.singleton_append] at hsplit ⊢
        rw [parameterName, hsplit, ← List.append_assoc, List.getLast?_concat]
        rfl
      · rwa [← Option.some.inj hother]

/-! ### A decorated parameter -/

theorem trim_append_colon (lead before rest : List Char) :
    trim (lead ++ (before ++ ':' :: rest)) =
      trimStart (lead ++ before) ++ ':' :: trimEndBy isSpace rest := by
  rw [← List.append_assoc, trim_append_cons (by decide)]

theorem colon_notMem_trimStart {lead before : List Char} (hlead : isBlank lead = true)
    (hcolon : ':' ∉ before) : ':' ∉ trimStart (lead ++ before) := fun hmem =>
  (List.mem_append.1 ((List.dropWhile_suffix isSpace).subset hmem)).elim
    (notMem_of_isBlank hlead (by decide)) hcolon

theorem parameterName_trimStart {lead : List Char} (hlead : isBlank lead = true)
    (before : List Char) : parameterName (trimStart (lead ++ before)) = parameterName before := by
  rw [parameterName, words_trimStart, words_append_of_isBlank hlead, parameterName]

/-- What is read off an entry is named by the last word in front of its first colon. -/
theorem name_of_parseParam {resolver : Resolver} {lead before rest : List Char} {param : Param}
    (hlead : isBlank lead = true) (hcolon : ':' ∉ before)
    (h : parseParam resolver (trim (lead ++ (before ++ ':' :: rest))) = .ok param) :
    param.name = String.ofList (parameterName before) := by
  rw [trim_append_colon, parseParam, splitFirst?_append (colon_notMem_trimStart hlead hcolon)] at h
  dsimp only at h
  split at h
  · cases h
  · obtain rfl := Except.ok.inj h
    rw [parameterName_trimStart hlead]

/-- White space behind the name does not matter. -/
theorem parameterName_append_iff (hwf : decorated.IsWellFormed) {after : List Char}
    (hafter : isBlank after = true) :
    parameterName (decorated.front ++ (decorated.param.name ++ after)) = decorated.param.name ↔
      ∀ last ∈ decorated.decorations.getLast?, last.gap ≠ [] := by
  rw [← parameterName_front_iff hwf, ← List.append_assoc, parameterName,
    words_append_isBlank _ hafter, parameterName]

theorem colon_notMem_append (hwf : decorated.IsWellFormed)
    (hmute : ∀ decoration ∈ decorated.decorations, decoration.IsMute) {after : List Char}
    (hafter : isBlank after = true) :
    ':' ∉ decorated.front ++ (decorated.param.name ++ after) := by
  rw [List.mem_append, List.mem_append, not_or, not_or]
  exact ⟨(colon_notMem_front_iff hwf).2 hmute, hwf.param.name.notMem (by decide),
    notMem_of_isBlank hafter (by decide)⟩

/-- **A readable parameter is read off its text** as if it had no decorations. -/
theorem parseParam_of_isReadable (resolver : Resolver) (hwf : decorated.IsWellFormed)
    (h : decorated.IsEntry entry) (hreadable : decorated.IsReadable) :
    parseParam resolver (trim entry) = .ok (decorated.param.parsed resolver) := by
  obtain ⟨lead, after, type, hlead, hafter, htype, rfl⟩ := h
  have hcolon := colon_notMem_append hwf hreadable.1 hafter
  have hname := (parameterName_append_iff hwf hafter).2 hreadable.2
  have hclean := ParamText.cleanType_stripDefault hwf.param htype
  have hne : cleanType decorated.param.type ≠ [] := hwf.param.type.cleanType_ne_nil
  rw [← List.append_assoc decorated.front, trim_append_colon]
  simp only [parseParam, splitFirst?_append (colon_notMem_trimStart hlead hcolon),
    parameterName_trimStart hlead, hname, hclean]
  simp [hwf.param.name.ne_nil, hne, ParamText.parsed]

/-- A parameter that is told apart is only read off its text if it is readable. -/
theorem isReadable_of_parseParam {resolver : Resolver} (hwf : decorated.IsWellFormed)
    (h : decorated.IsEntry entry) (htold : decorated.IsTold)
    (hread : parseParam resolver (trim entry) = .ok (decorated.param.parsed resolver)) :
    decorated.IsReadable := by
  obtain ⟨lead, after, type, hlead, hafter, -, rfl⟩ := h
  by_cases hfront : ':' ∈ decorated.front
  · -- the entry is cut at the first colon of the decorations
    obtain ⟨before, rest, hsplit, hbefore⟩ := List.eq_append_cons_of_mem hfront
    rw [hsplit, List.append_assoc, List.cons_append] at hread
    have hname := name_of_parseParam hlead hbefore hread
    exact absurd (String.ofList_inj.1 hname).symm (htold before rest hsplit hbefore)
  · have hmute := (colon_notMem_front_iff hwf).1 hfront
    rw [← List.append_assoc decorated.front] at hread
    have hname := name_of_parseParam hlead (colon_notMem_append hwf hmute hafter) hread
    exact ⟨hmute, (parameterName_append_iff hwf hafter).1 (String.ofList_inj.1 hname).symm⟩

/-- The word in front of the colon of a target holds an at sign, so no name is taken for it. -/
theorem isTold_of_target (hwf : decorated.IsWellFormed) {before after : List Decoration}
    {target : List Char} {tag : Tag}
    (hdecorations : decorated.decorations = before ++ .tagged (some target) tag :: after)
    (hmute : ∀ decoration ∈ before, decoration.IsMute) : decorated.IsTold := by
  have hall := hwf.decorations
  rw [hdecorations, List.forall_mem_append, List.forall_mem_cons] at hall
  obtain ⟨hbefore, ⟨htarget, -⟩, -⟩ := hall
  have hidentifier : IsIdentifier target := htarget target rfl
  have hcolon : ':' ∉ before.flatMap Decoration.text ++ '@' :: target := by
    have hwell : IsWellFormed ⟨before, decorated.param⟩ := ⟨hbefore, hwf.param⟩
    rw [List.mem_append, List.mem_cons, not_or, not_or]
    exact ⟨(colon_notMem_front_iff hwell).2 hmute, by decide, hidentifier.notMem (by decide)⟩
  have hfront : decorated.front = (before.flatMap Decoration.text ++ '@' :: target) ++ ':' ::
      (tag.name ++ tag.argumentList ++ tag.gap ++ after.flatMap Decoration.text) := by
    simp [front, hdecorations, Decoration.text, Decoration.bare, Decoration.targetText,
      Decoration.gap]
  have hword : IsWord ('@' :: target) :=
    (isWord_singleton (by decide)).append (isWord_of_isIdentifier hidentifier)
  intro first rest hsplit hfirst hname
  -- there is only one first colon
  have hsame := splitFirst?_append hfirst rest
  rw [← hsplit, hfront, splitFirst?_append hcolon] at hsame
  obtain ⟨rfl, -⟩ := Prod.mk.inj (Option.some.inj hsame)
  obtain ⟨w, hw⟩ := exists_getLast?_words (before.flatMap Decoration.text) hword
  rw [parameterName, hw] at hname
  have hat : '@' ∈ decorated.param.name := by
    rw [← hname]
    simp
  exact hwf.param.name.notMem (by decide) hat

/-! ### Brackets and commas -/

/-- Decorations do not change how far an entry is walked. -/
theorem walk_of_isEntry (hwf : decorated.IsWellFormed) (h : decorated.IsEntry entry) :
    Lexis.walk (0, false) entry = Lexis.walk (0, false) (decorated.param.default?.getD []) := by
  obtain ⟨lead, after, type, hlead, hafter, htype, rfl⟩ := h
  have hentry : decorated.param.IsEntry (decorated.param.name ++ after ++
      ':' :: (type ++ decorated.param.suffix)) :=
    ⟨decorated.param.name ++ after, type, ⟨[], after, rfl, hafter, rfl⟩, htype, rfl⟩
  rw [Lexis.walk_append, Lexis.walk_of_isBlank 0 hlead, Option.bind_some, Lexis.walk_append,
    front, Decoration.walk_flatMap_text hwf.decorations, Option.bind_some,
    ParamText.walk_of_isEntry hwf.param hentry]

theorem trim_ne_nil_of_isEntry (h : decorated.IsEntry entry) : trim entry ≠ [] := by
  obtain ⟨lead, after, type, -, -, -, rfl⟩ := h
  rw [← List.append_assoc decorated.front, trim_append_colon]
  simp

end DecoratedParam

/-! ### Lists of decorated parameters -/

/-- A text of a list of decorated parameters, as `IsBlock` is one of parameters without
decorations. -/
inductive IsDecoratedBlock : List DecoratedParam → List Char → Prop
  /-- White space. -/
  | nil {blank : List Char} (h : isBlank blank = true) : IsDecoratedBlock [] blank
  /-- A parameter without a comma behind it. -/
  | last {decorated : DecoratedParam} {entry : List Char} (h : decorated.IsEntry entry)
      (hdefault : ∀ default ∈ decorated.param.default?, Lexis.IsEnclosed default) :
      IsDecoratedBlock [decorated] entry
  /-- A parameter with a comma behind it. -/
  | cons {decorated : DecoratedParam} {others : List DecoratedParam} {entry rest : List Char}
      (h : decorated.IsEntry entry)
      (hdefault : ∀ default ∈ decorated.param.default?, Lexis.IsSealed default)
      (hrest : IsDecoratedBlock others rest) :
      IsDecoratedBlock (decorated :: others) (entry ++ ',' :: rest)

section

variable (resolver : Resolver) {params : List DecoratedParam} {block : List Char}

/-- The entries of a block are those of its parameters. -/
theorem exists_entries (hwf : ∀ decorated ∈ params, decorated.IsWellFormed)
    (h : IsDecoratedBlock params block) :
    ∃ entries, List.Forall₂ DecoratedParam.IsEntry params entries ∧
      parseParams resolver block = entries.mapM fun entry => parseParam resolver (trim entry) := by
  induction h with
  | nil hblank => exact ⟨[], .nil, parseParams_of_isBlank resolver hblank⟩
  | @last decorated entry hentry hdefault =>
    have hne := DecoratedParam.trim_ne_nil_of_isEntry hentry
    -- the last entry may leave a level open, as no comma follows
    have henclosed : Lexis.IsEnclosed entry := by
      unfold Lexis.IsEnclosed
      rw [DecoratedParam.walk_of_isEntry (hwf _ List.mem_cons_self) hentry]
      cases hd : decorated.param.default? with
      | none => exact ⟨(0, false), rfl⟩
      | some default => exact hdefault default hd
    refine ⟨[entry], .cons hentry .nil, ?_⟩
    rw [parseParams_of_isEnclosed resolver henclosed hne, List.mapM_cons, List.mapM_nil]
    cases parseParam resolver (trim entry) <;> rfl
  | @cons decorated others entry rest hentry hdefault hrest ih =>
    obtain ⟨hfirst, hothers⟩ := List.forall_mem_cons.1 hwf
    have hne := DecoratedParam.trim_ne_nil_of_isEntry hentry
    -- an entry in front of a comma has closed all that it opened
    have hsealed : Lexis.IsSealed entry := by
      unfold Lexis.IsSealed
      rw [DecoratedParam.walk_of_isEntry hfirst hentry]
      cases hd : decorated.param.default? with
      | none => exact ⟨false, rfl⟩
      | some default => exact hdefault default hd
    obtain ⟨entries, hentries, hparams⟩ := ih hothers
    refine ⟨entry :: entries, .cons hentry hentries, ?_⟩
    rw [parseParams_append_of_isSealed resolver hsealed hne, hparams, List.mapM_cons]

/-- Parameters that are told apart are only read off their entries if all are readable. -/
theorem forall_isReadable_of_forall₂ {entries : List (List Char)}
    (hwf : ∀ decorated ∈ params, decorated.IsWellFormed)
    (htold : ∀ decorated ∈ params, decorated.IsTold)
    (hentries : List.Forall₂ DecoratedParam.IsEntry params entries)
    (hread : List.Forall₂ (fun param entry => parseParam resolver (trim entry) = .ok param)
      (params.map (·.param.parsed resolver)) entries) :
    ∀ decorated ∈ params, decorated.IsReadable := by
  induction hentries with
  | nil => simp
  | cons hentry _ ih =>
    obtain ⟨hfirst, hothers⟩ := List.forall_mem_cons.1 hwf
    obtain ⟨htoldFirst, htoldOthers⟩ := List.forall_mem_cons.1 htold
    obtain ⟨hparam, hparams⟩ := List.forall₂_cons.1 hread
    exact List.forall_mem_cons.2
      ⟨DecoratedParam.isReadable_of_parseParam hfirst hentry htoldFirst hparam,
        ih hothers htoldOthers hparams⟩

/-- **Decorations do not influence what is read** if no colon stands in them and white space sets
each name apart.  And if no word in front of a colon in a decoration is by chance the name of its
parameter, they only do not if this is the case. -/
theorem parseParams_decorated {bareBlock : List Char}
    (hwf : ∀ decorated ∈ params, decorated.IsWellFormed) (hblock : IsDecoratedBlock params block)
    (hbare : IsBlock (params.map (·.param)) bareBlock) :
    parseParams resolver bareBlock = .ok (params.map (·.param.parsed resolver)) ∧
      ((∀ decorated ∈ params, decorated.IsReadable) →
        parseParams resolver block = parseParams resolver bareBlock) ∧
      ((∀ decorated ∈ params, decorated.IsTold) →
        parseParams resolver block = parseParams resolver bareBlock →
          ∀ decorated ∈ params, decorated.IsReadable) := by
  have hbareWf : ∀ param ∈ params.map (·.param), param.IsWellFormed := by
    intro param hmem
    obtain ⟨decorated, hdecorated, rfl⟩ := List.mem_map.1 hmem
    exact (hwf decorated hdecorated).param
  have hread := parseParams_of_isBlock resolver hbareWf hbare
  rw [List.map_map] at hread
  -- entry by entry, each with the parameter that is written there
  obtain ⟨entries, hentries, hparams⟩ := exists_entries resolver hwf hblock
  rw [hread, hparams]
  refine ⟨rfl, fun hreadable => mapM_eq_ok_of_forall₂ (List.forall₂_map_left_iff.2 ?_),
    fun htold heq =>
      forall_isReadable_of_forall₂ resolver hwf htold hentries (forall₂_of_mapM_eq_ok heq)⟩
  have hall := (List.forall₂_and_left params entries).2
    ⟨fun decorated hmem => And.intro (hwf decorated hmem) (hreadable decorated hmem), hentries⟩
  exact hall.imp fun decorated entry h =>
    DecoratedParam.parseParam_of_isReadable resolver h.1.1 h.2 h.1.2

end

/-- A tag with a comma in its argument leaves no trace, a tag with a target does. -/
theorem parseParams_decorated_example :
    let resolver : Resolver := ⟨{ package := "p" }, TypeIndex.empty⟩
    let named : DecoratedParam :=
      ⟨[.tagged none ⟨"Named".toList, some "\"a, b\"".toList, [' ']⟩,
        .modifier "noinline".toList [' ']], ⟨"f".toList, "Int".toList, some " g(1, 2)".toList⟩⟩
    let targeted : DecoratedParam :=
      ⟨[.tagged (some "field".toList) ⟨"Json".toList, none, [' ']⟩],
        ⟨"id".toList, "Long".toList, none⟩⟩
    let block := "@Named(\"a, b\") noinline f: Int = g(1, 2),".toList
    let bareBlock := "f: Int = g(1, 2),".toList
    let targetedBlock := "@field:Json id: Long".toList
    let bareTargetedBlock := "id: Long".toList
    (named.IsWellFormed ∧ IsDecoratedBlock [named] block ∧ IsBlock [named.param] bareBlock ∧
        named.IsReadable ∧ parseParams resolver block = .ok [⟨"f", "Int"⟩]) ∧
      (targeted.IsWellFormed ∧ IsDecoratedBlock [targeted] targetedBlock ∧
        IsBlock [targeted.param] bareTargetedBlock ∧ targeted.IsTold ∧
        parseParams resolver targetedBlock ≠ parseParams resolver bareTargetedBlock) := by
  intro resolver named targeted block bareBlock targetedBlock bareTargetedBlock
  have hint : IsTypeText "Int".toList :=
    (TypeTree.Written.named "Int".toList).isTypeText (by decide +kernel)
  have hlong : IsTypeText "Long".toList :=
    (TypeTree.Written.named "Long".toList).isTypeText (by decide +kernel)
  have hsealed : ∀ default ∈ named.param.default?, Lexis.IsSealed default := by
    rintro _ ⟨⟩
    exact ⟨false, by decide +kernel⟩
  have hbalanced : ∀ arguments ∈ some "\"a, b\"".toList, Decoration.IsBalanced arguments := by
    rintro _ ⟨⟩
    exact ⟨false, by decide +kernel⟩
  constructor
  · -- readable decorations: both blocks give the one parameter
    have hwf : named.IsWellFormed := by
      refine ⟨?_, by decide +kernel, hint⟩
      simp only [named, List.forall_mem_cons]
      exact ⟨⟨nofun, by decide +kernel, hbalanced⟩, ⟨by decide +kernel, rfl, by decide⟩, nofun⟩
    have hentry : named.IsEntry "@Named(\"a, b\") noinline f: Int = g(1, 2)".toList :=
      ⟨[], [], " Int ".toList, rfl, rfl, ⟨[' '], [' '], rfl, rfl, rfl⟩, rfl⟩
    have hbareEntry : named.param.IsEntry "f: Int = g(1, 2)".toList :=
      ⟨"f".toList, " Int ".toList, isPadded_refl _, ⟨[' '], [' '], rfl, rfl, rfl⟩, rfl⟩
    have hblock : IsDecoratedBlock [named] block := .cons hentry hsealed (.nil rfl)
    have hbare : IsBlock [named.param] bareBlock := .cons hbareEntry hsealed (.nil rfl)
    have hreadable : named.IsReadable := by
      refine ⟨?_, by rintro _ ⟨⟩; decide⟩
      simp only [named, List.forall_mem_cons]
      exact ⟨⟨rfl, by rintro _ ⟨⟩; decide⟩, trivial, nofun⟩
    refine ⟨hwf, hblock, hbare, hreadable, ?_⟩
    obtain ⟨hread, heq, -⟩ := parseParams_decorated resolver (by simpa using hwf) hblock hbare
    rw [heq (by simpa using hreadable), hread]
    decide +kernel
  · -- a target, at whose colon the entry is cut
    have hwf : targeted.IsWellFormed := by
      refine ⟨?_, by decide +kernel, hlong⟩
      simp only [targeted, List.forall_mem_cons]
      exact ⟨⟨by rintro _ ⟨⟩; decide +kernel, by decide +kernel, nofun⟩, nofun⟩
    have hblock : IsDecoratedBlock [targeted] targetedBlock :=
      .last ⟨[], [], " Long".toList, rfl, rfl, isPadded_cons_space _, rfl⟩ nofun
    have hbare : IsBlock [targeted.param] bareTargetedBlock :=
      .last ⟨"id".toList, " Long".toList, isPadded_refl _, isPadded_cons_space _, rfl⟩ nofun
    have hfirst : targeted.decorations = [] ++ targeted.decorations := rfl
    have htold : targeted.IsTold := DecoratedParam.isTold_of_target hwf hfirst nofun
    refine ⟨hwf, hblock, hbare, htold, fun heq => ?_⟩
    obtain ⟨-, -, hreadable⟩ :=
      parseParams_decorated resolver (by simpa using hwf) hblock hbare
    have hmute := (hreadable (by simpa using htold) heq targeted List.mem_cons_self).1 _
      List.mem_cons_self
    cases hmute.1

/-- The colon of a target is taken for that of the parameter. -/
theorem parseParams_target :
    let resolver : Resolver := ⟨{ package := "p" }, TypeIndex.empty⟩
    parseParams resolver "@field:Json a: Int".toList = .ok [⟨"@field", "Json a: Int"⟩] ∧
      parseParams resolver "a: Int".toList = .ok [⟨"a", "Int"⟩] := by
  decide +kernel

end RpcBinder.Declaration
