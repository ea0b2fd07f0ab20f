import RpcBinder.Declaration.Service
import RpcBinder.Proofs.Declaration.TypeText

/-!
# Parameters with default values

The commas between parameters are found without reading the default values: a comma that
lies within `<…>` or `(…)` is passed over, and every other one is a cut, be it in braces,
square brackets or quotes.  So a default value has no influence on its list as long as its own
commas lie within such brackets, and as long as it closes them if a comma follows.

## Main definitions

* `ParamText` — a parameter as it is written, with its default value.
* `ParamText.IsEntry`, `IsBlock` — the texts of a parameter and of a list of parameters.

## Main results

* `parseParam_trim_of_isEntry` — a parameter is read off its text, whatever its default value.
* `parseParams_of_isBlock` — a list of parameters is read off its text.
* `parseParams_bare_eq` — **default values do not influence what is read.**
-/

namespace RpcBinder.Declaration

open Shape

/-! ### Parameters as they are written -/

/-- A parameter as it is written. -/
structure ParamText where
  /-- Its name. -/
  name : List Char
  /-- Its type. -/
  type : List Char
  /-- What stands behind the equals sign, if there is one. -/
  default? : Option (List Char) := none

namespace ParamText

/-- The name is an identifier and the type can stand in a declaration. -/
structure IsWellFormed (param : ParamText) : Prop where
  name : IsIdentifier param.name
  type : IsTypeText param.type

/-- The parameter without its default value. -/
def bare (param : ParamText) : ParamText :=
  { param with default? := none }

/-- What follows the type. -/
def suffix (param : ParamText) : List Char :=
  match param.default? with
  | none => []
  | some default => '=' :: default

/-- A text of the parameter, with any white space around its name and its type. -/
def IsEntry (param : ParamText) (entry : List Char) : Prop :=
  ∃ name type, IsPadded param.name name ∧ IsPadded param.type type ∧
    entry = name ++ ':' :: (type ++ param.suffix)

/-- What is read off the parameter: its type is cleaned and qualified. -/
def parsed (resolver : Resolver) (param : ParamText) : Param :=
  ⟨String.ofList param.name, String.ofList (resolver.qualify (cleanType param.type))⟩

@[simp] theorem default?_bare (param : ParamText) : param.bare.default? = none := rfl

theorem IsWellFormed.bare {param : ParamText} (h : param.IsWellFormed) : param.bare.IsWellFormed :=
  ⟨h.name, h.type⟩

theorem map_parsed_bare (resolver : Resolver) (params : List ParamText) :
    (params.map bare).map (·.parsed resolver) = params.map (·.parsed resolver) := by
  rw [List.map_map]
  rfl

end ParamText

/-- A text of a list of parameters; a comma may follow the last one.  The commas of a default
value lie within its brackets, which it closes again if a comma follows. -/
inductive IsBlock : List ParamText → List Char → Prop
  /-- White space. -/
  | nil {blank : List Char} (h : isBlank blank = true) : IsBlock [] blank
  /-- A parameter without a comma behind it. -/
  | last {param : ParamText} {entry : List Char} (h : param.IsEntry entry)
      (hdefault : ∀ default ∈ param.default?, Lexis.IsEnclosed default) : IsBlock [param] entry
  /-- A parameter with a comma behind it. -/
  | cons {param : ParamText} {params : List ParamText} {entry rest : List Char}
      (h : param.IsEntry entry) (hdefault : ∀ default ∈ param.default?, Lexis.IsSealed default)
      (hrest : IsBlock params rest) : IsBlock (param :: params) (entry ++ ',' :: rest)

/-! ### A parameter -/

section

variable {name type : List Char}

/-- The name is the only word in front of the colon. -/
theorem parameterName_of_isPadded (h : IsIdentifier name) {before : List Char}
    (hp : IsPadded name before) : parameterName (trimStart before) = name := by
  obtain ⟨blank, after, hblank, hafter, rfl⟩ := hp
  have hword : IsWord name := isWord_of_isIdentifier h
  have hstart : StartsSolid (name ++ after) := hword.isSolid.starts.append after
  unfold parameterName
  rw [List.append_assoc, trimStart_append_of_startsSolid hblank hstart,
    words_append_isBlank name hafter, words_of_isWord hword]
  rfl

theorem colon_notMem_of_isPadded (h : IsIdentifier name) {before : List Char}
    (hp : IsPadded name before) : ':' ∉ before := by
  intro hmem
  rcases hp.isSpace_or_mem hmem with hspace | hname
  · exact absurd hspace (by decide)
  · exact h.notMem (by decide) hname

/-- Nothing in a type, or around it, is cut off together with a default value. -/
theorem stripDefault_append (h : IsTypeText type) {padded : List Char} (hp : IsPadded type padded)
    (default : List Char) : stripDefault (padded ++ '=' :: default) = padded ∧
      stripDefault padded = padded := by
  have hwalk : Lexis.walk (0, false) padded = some (0, false) := Lexis.walk_of_isPadded hp h.walk
  have hequals : '=' ∉ padded := fun hmem =>
    ne_of_class (h.forall_char_padded hp _ hmem) (by decide : isTypeTextChar '=' = false) rfl
  unfold stripDefault Lexis.cutTopLevel
  constructor
  · rw [Lexis.cutFrom_append_of_walk hwalk hequals]
    simp [Lexis.cutFrom, Lexis.isBracket]
  · have := Lexis.cutFrom_append_of_walk hwalk hequals []
    rwa [List.append_nil, Lexis.cutFrom, List.append_nil] at this

end

namespace ParamText

variable {param : ParamText} {entry : List Char}

/-- What follows the colon in a trimmed entry is cleaned to the type. -/
theorem cleanType_stripDefault (hwf : param.IsWellFormed) {padded : List Char}
    (hp : IsPadded param.type padded) :
    cleanType (stripDefault (trimEndBy isSpace (padded ++ param.suffix))) =
      cleanType param.type := by
  unfold suffix
  cases param.default? with
  | none =>
    -- the entry ends with its type, and is trimmed there
    have hp' : IsPadded param.type (trimEndBy isSpace padded) := hp.trimEnd hwf.type.isSolid.ends
    show cleanType (stripDefault (trimEndBy isSpace (padded ++ []))) = cleanType param.type
    rw [List.append_nil, (stripDefault_append hwf.type hp' []).2, hwf.type.cleanType_padded hp',
      hwf.type.cleanType_eq]
  | some default =>
    -- the equals sign keeps what is trimmed away from the type
    have htrim : trimEndBy isSpace (padded ++ '=' :: default) =
        padded ++ '=' :: trimEndBy isSpace default := by
      have := trimEndBy_append (endsSolid_concat padded (by decide : isSpace '=' = false)) default
      simpa using this
    show cleanType (stripDefault (trimEndBy isSpace (padded ++ '=' :: default))) =
      cleanType param.type
    rw [htrim, (stripDefault_append hwf.type hp _).1, hwf.type.cleanType_padded hp,
      hwf.type.cleanType_eq]

/-- **A parameter is read off its text**, whatever its default value is. -/
theorem parseParam_trim_of_isEntry (resolver : Resolver) (hwf : param.IsWellFormed)
    (h : param.IsEntry entry) :
    parseParam resolver (trim entry) = .ok (param.parsed resolver) := by
  obtain ⟨before, padded, hbefore, hpadded, rfl⟩ := h
  have hcolon : ':' ∉ trimStart before := fun hmem =>
    colon_notMem_of_isPadded hwf.name hbefore ((List.dropWhile_suffix isSpace).subset hmem)
  have hname : parameterName (trimStart before) = param.name :=
    parameterName_of_isPadded hwf.name hbefore
  have htype := cleanType_stripDefault hwf hpadded
  have hne : cleanType param.type ≠ [] := hwf.type.cleanType_ne_nil
  rw [trim_append_cons (by decide)]
  simp only [parseParam, splitFirst?_append hcolon, hname, htype]
  simp [hwf.name.ne_nil, hne, parsed]

/-- Behind its type an entry has only its default value to read. -/
theorem walk_of_isEntry (hwf : param.IsWellFormed) (h : param.IsEntry entry) :
    Lexis.walk (0, false) entry = Lexis.walk (0, false) (param.default?.getD []) := by
  obtain ⟨before, padded, hbefore, hpadded, rfl⟩ := h
  have hname : Lexis.walk (0, false) param.name = some (0, false) :=
    (isTypeName_of_isDottedName (isDottedName_of_isIdentifier hwf.name)).walk 0
  rw [Lexis.walk_append, Lexis.walk_of_isPadded hbefore hname, Option.bind_some]
  show Lexis.walk (0, false) (padded ++ param.suffix) = _
  rw [Lexis.walk_append, Lexis.walk_of_isPadded hpadded hwf.type.walk, Option.bind_some]
  unfold suffix
  cases param.default? with
  | none => rfl
  | some default => rfl

theorem isEnclosed_of_isEntry (hwf : param.IsWellFormed) (h : param.IsEntry entry)
    (hdefault : ∀ default ∈ param.default?, Lexis.IsEnclosed default) :
    Lexis.IsEnclosed entry := by
  unfold Lexis.IsEnclosed
  rw [walk_of_isEntry hwf h]
  cases hd : param.default? with
  | none => exact ⟨(0, false), rfl⟩
  | some default => exact hdefault default hd

theorem isSealed_of_isEntry (hwf : param.IsWellFormed) (h : param.IsEntry entry)
    (hdefault : ∀ default ∈ param.default?, Lexis.IsSealed default) : Lexis.IsSealed entry := by
  unfold Lexis.IsSealed
  rw [walk_of_isEntry hwf h]
  cases hd : param.default? with
  | none => exact ⟨false, rfl⟩
  | some default => exact hdefault default hd

/-- No entry is blank, since it holds a colon. -/
theorem trim_ne_nil_of_isEntry (h : param.IsEntry entry) : trim entry ≠ [] := by
  obtain ⟨before, padded, -, -, rfl⟩ := h
  rw [trim_append_cons (by decide)]
  simp

end ParamText

/-! ### Lists of parameters -/

section

variable (resolver : Resolver)

/-- The parameters are those of the pieces that are not blank. -/
theorem parseParams_eq (block : List Char) :
    parseParams resolver block =
      (((Lexis.pieces 0 false block).map trim).filter (!·.isEmpty)).mapM (parseParam resolver) := by
  have hfilter : (Lexis.splitTopLevel block).filter (!·.isEmpty) =
      ((Lexis.pieces 0 false block).map trim).filter (!·.isEmpty) := by
    unfold Lexis.splitTopLevel
    generalize (Lexis.pieces 0 false block).map trim = entries
    dsimp only
    split
    · next hlast =>
      -- the entry left out is the empty one at the end
      rw [beq_iff_eq] at hlast
      obtain ⟨entries, rfl⟩ := List.getLast?_eq_some_iff.1 hlast
      simp
    · rfl
  rw [parseParams, hfilter]

theorem parseParams_of_isBlank {block : List Char} (h : isBlank block = true) :
    parseParams resolver block = .ok [] := by
  rw [parseParams_eq, Lexis.pieces_of_walk (Lexis.walk_of_isBlank 0 h), List.map_singleton,
    (trim_eq_nil_iff block).2 h]
  rfl

/-- A text without outer commas is one entry. -/
theorem parseParams_of_isEnclosed {entry : List Char} (henclosed : Lexis.IsEnclosed entry)
    (hne : trim entry ≠ []) :
    parseParams resolver entry = (parseParam resolver (trim entry)).map ([·]) := by
  obtain ⟨state, hwalk⟩ := henclosed
  rw [parseParams_eq, Lexis.pieces_of_walk hwalk]
  simp only [List.map_cons, List.map_nil, List.filter_cons_of_pos (p := (!·.isEmpty))
    (a := trim entry) (by simp [hne]), List.filter_nil, List.mapM_cons, List.mapM_nil]
  cases parseParam resolver (trim entry) <;> rfl

/-- One more entry in front of a block. -/
theorem parseParams_append_of_isSealed {entry : List Char} (hsealed : Lexis.IsSealed entry)
    (hne : trim entry ≠ []) (rest : List Char) :
    parseParams resolver (entry ++ ',' :: rest) = do
      let param ← parseParam resolver (trim entry)
      let params ← parseParams resolver rest
      return param :: params := by
  rw [parseParams_eq, parseParams_eq, Lexis.pieces_append_comma hsealed, List.map_cons,
    List.filter_cons_of_pos (by simp [hne]), List.mapM_cons]

/-- **A list of parameters is read off its text**: every parameter in order, with its name and
its qualified type. -/
theorem parseParams_of_isBlock {params : List ParamText} {block : List Char}
    (hwf : ∀ param ∈ params, param.IsWellFormed) (h : IsBlock params block) :
    parseParams resolver block = .ok (params.map (·.parsed resolver)) := by
  induction h with
  | nil hblank => exact parseParams_of_isBlank resolver hblank
  | last hentry hdefault =>
    have hparam := hwf _ List.mem_cons_self
    rw [parseParams_of_isEnclosed resolver (ParamText.isEnclosed_of_isEntry hparam hentry hdefault)
      (ParamText.trim_ne_nil_of_isEntry hentry),
      ParamText.parseParam_trim_of_isEntry resolver hparam hentry]
    rfl
  | cons hentry hdefault hrest ih =>
    have hparam := hwf _ List.mem_cons_self
    rw [parseParams_append_of_isSealed resolver
      (ParamText.isSealed_of_isEntry hparam hentry hdefault)
      (ParamText.trim_ne_nil_of_isEntry hentry),
      ParamText.parseParam_trim_of_isEntry resolver hparam hentry,
      ih fun param hmem => hwf param (List.mem_cons_of_mem _ hmem)]
    rfl

/-- **Default values do not influence what is read**: with them and without them a block gives
the same parameters, each with its name and its qualified type. -/
theorem parseParams_bare_eq {params : List ParamText} {block bareBlock : List Char}
    (hwf : ∀ param ∈ params, param.IsWellFormed) (h : IsBlock params block)
    (hbare : IsBlock (params.map ParamText.bare) bareBlock) :
    parseParams resolver block = parseParams resolver bareBlock ∧
      parseParams resolver bareBlock = .ok (params.map (·.parsed resolver)) := by
  have hwfBare : ∀ param ∈ params.map ParamText.bare, param.IsWellFormed := by
    intro param hmem
    obtain ⟨param, hparam, rfl⟩ := List.mem_map.1 hmem
    exact (hwf param hparam).bare
  have hread := parseParams_of_isBlock resolver hwf h
  have hreadBare := parseParams_of_isBlock resolver hwfBare hbare
  rw [ParamText.map_parsed_bare] at hreadBare
  exact ⟨hread.trans hreadBare.symm, hreadBare⟩

end

/-- A call with two arguments is passed over, and an open parenthesis in the last default value
does no harm. -/
theorem parseParams_bare_eq_example :
    let resolver : Resolver := ⟨{ package := "p" }, TypeIndex.empty.seed Markers.kotlin⟩
    let params : List ParamText :=
      [⟨"byId".toList, "Map<String, Int?>".toList, some " mapOf(1 to a, 2 to b)".toList⟩,
        ⟨"tag".toList, "String".toList, some " \"(x\"".toList⟩]
    let block := "byId: Map<String, Int?> = mapOf(1 to a, 2 to b), tag: String = \"(x\"".toList
    let bareBlock := "byId: Map<String, Int?>,\n tag: String,\n".toList
    (∀ param ∈ params, param.IsWellFormed) ∧ IsBlock params block ∧
      IsBlock (params.map ParamText.bare) bareBlock ∧
      parseParams resolver block = .ok
        [⟨"byId", "kotlin.collections.Map<kotlin.String, kotlin.Int?>"⟩,
          ⟨"tag", "kotlin.String"⟩] := by
  intro resolver params block bareBlock
  have hmap : IsTypeText "Map<String, Int?>".toList :=
    (TypeTree.written_text (.generic "Map".toList (.named "String".toList)
      [.nullable (.named "Int".toList)])).isTypeText (by decide +kernel)
  have hstring : IsTypeText "String".toList :=
    (TypeTree.Written.named "String".toList).isTypeText (by decide +kernel)
  have hwf : ∀ param ∈ params, param.IsWellFormed := by
    simp only [params, List.forall_mem_cons]
    exact ⟨⟨by decide +kernel, hmap⟩, ⟨by decide +kernel, hstring⟩, by simp⟩
  have hblock : IsBlock params block := by
    have hfirst : params[0].IsEntry "byId: Map<String, Int?> = mapOf(1 to a, 2 to b)".toList :=
      ⟨"byId".toList, " Map<String, Int?> ".toList, isPadded_refl _,
        ⟨[' '], [' '], rfl, rfl, by decide +kernel⟩, by decide +kernel⟩
    have hlast : params[1].IsEntry " tag: String = \"(x\"".toList :=
      ⟨" tag".toList, " String ".toList, isPadded_cons_space _,
        ⟨[' '], [' '], rfl, rfl, by decide +kernel⟩, by decide +kernel⟩
    have hcut : block = "byId: Map<String, Int?> = mapOf(1 to a, 2 to b)".toList ++
        ',' :: " tag: String = \"(x\"".toList := by decide +kernel
    rw [hcut]
    refine IsBlock.cons hfirst ?_ (IsBlock.last hlast ?_)
    · rintro _ ⟨⟩
      exact ⟨false, by decide +kernel⟩
    · rintro _ ⟨⟩
      exact ⟨(1, false), by decide +kernel⟩
  have hbare : IsBlock (params.map ParamText.bare) bareBlock := by
    have hfirst : params[0].bare.IsEntry "byId: Map<String, Int?>".toList :=
      ⟨"byId".toList, " Map<String, Int?>".toList, isPadded_refl _, isPadded_cons_space _,
        by decide +kernel⟩
    have hlast : params[1].bare.IsEntry "\n tag: String".toList :=
      ⟨"\n tag".toList, " String".toList, ⟨['\n', ' '], [], rfl, rfl, by decide +kernel⟩,
        isPadded_cons_space _, by decide +kernel⟩
    have hcut : bareBlock = "byId: Map<String, Int?>".toList ++
        ',' :: ("\n tag: String".toList ++ ',' :: ['\n']) := by decide +kernel
    rw [hcut]
    exact IsBlock.cons hfirst (by simp) (IsBlock.cons hlast (by simp) (IsBlock.nil rfl))
  refine ⟨hwf, hblock, hbare, ?_⟩
  obtain ⟨heq, hread⟩ := parseParams_bare_eq resolver hwf hblock hbare
  rw [heq, hread]
  decide +kernel

/-- Braces hide no comma, so a function of two arguments as a default value is cut in two. -/
theorem parseParams_lambda_default :
    let resolver : Resolver := ⟨{ package := "p" }, TypeIndex.empty⟩
    parseParams resolver "f: Op = \x7b a, b -> a \x7d".toList = .error ⟨"b -> a \x7d"⟩ ∧
      parseParams resolver "f: Op".toList = .ok [⟨"f", "Op"⟩] := by
  decide +kernel

end RpcBinder.Declaration
