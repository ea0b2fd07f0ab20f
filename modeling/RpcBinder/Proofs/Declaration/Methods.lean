import RpcBinder.Proofs.Declaration.Params
import RpcBinder.Proofs.Declaration.Shapes
import RpcBinder.Proofs.Pattern.Finds

/-!
# A method is read off its text

From the parenthesis that its head ends with, a method is read in three steps: the closing
parenthesis is found, the parameters are read off the text in between, and the return type off
the text behind.

## Main results

* `splitClosing_append` — the end of a list of parameters.
* `parseParams_block` — the parameters of a printed method.
* `returnTypeOf_append` — its return type.
* `methodAt_of_describes` — **the method behind its head.**
-/

namespace RpcBinder.Declaration

/-! ### The closing parenthesis -/

/-- A character that neither opens nor closes a list or a literal. -/
def isListChar (c : Char) : Bool :=
  !(['(', ')', '"', '\''].contains c)

theorem splitClosing_append {block : List Char} (h : ∀ c ∈ block, isListChar c = true)
    (after : List Char) : Lexis.splitClosing (block ++ ')' :: after) = some (block, after) := by
  unfold Lexis.splitClosing
  induction block with
  | nil => simp [Lexis.splitClosingFrom]
  | cons c block ih =>
    have hrest := ih fun d hd => h d (List.mem_cons_of_mem _ hd)
    have hc : isListChar c = true := h c List.mem_cons_self
    have hopen : c ≠ '(' := ne_of_class hc (by decide)
    have hclose : c ≠ ')' := ne_of_class hc (by decide)
    have hdouble : c ≠ '"' := ne_of_class hc (by decide)
    have hsingle : c ≠ '\'' := ne_of_class hc (by decide)
    rw [List.cons_append, Lexis.splitClosingFrom]
    -- the character is no closing parenthesis, so only the last equation is left
    · simp [hopen, hdouble, hsingle, hrest]
    · exact fun _ => hclose
    · exact fun _ _ => hclose

/-! ### Parameters -/

namespace ParamDecl

/-- The parameter as it is written. -/
def text (param : ParamDecl) : ParamText :=
  ⟨param.name, param.type.canonical, none⟩

variable {param : ParamDecl}

theorem IsWellFormed.text (h : param.IsWellFormed) : param.text.IsWellFormed :=
  ⟨h.name, (TypeTree.written_text param.type).isTypeText h.type.isDeclared⟩

theorem parsed_text (resolver : Resolver) (h : param.IsWellFormed) :
    param.text.parsed resolver = param.param resolver := by
  show (⟨_, String.ofList (resolver.qualify (cleanType param.type.canonical))⟩ : Param) = _
  rw [TypeTree.cleanType_text h.type.isDeclared]
  rfl

theorem isEntry_source {lead : List Char} (hlead : isBlank lead = true) :
    param.text.IsEntry (lead ++ param.source) := by
  refine ⟨lead ++ param.name, ' ' :: param.type.canonical, ⟨lead, [], hlead, rfl, ?_⟩,
    isPadded_cons_space _, ?_⟩
  · exact (List.append_nil _).symm
  · show lead ++ (param.name ++ ':' :: ' ' :: param.type.canonical) = _
    simp [ParamText.suffix, text]

end ParamDecl

/-- Printed parameters are a block. -/
theorem isBlock_intercalate (params : List ParamDecl) (lead : List Char)
    (hlead : isBlank lead = true) :
    IsBlock (params.map (·.text)) (lead ++ [',', ' '].intercalate (params.map (·.source))) := by
  induction params generalizing lead with
  | nil =>
    rw [List.map_nil, List.map_nil, List.intercalate_nil, List.append_nil]
    exact IsBlock.nil hlead
  | cons param params ih =>
    cases params with
    | nil =>
      rw [List.map_singleton, List.map_singleton, List.intercalate_singleton]
      exact IsBlock.last (ParamDecl.isEntry_source hlead) (by simp [ParamDecl.text])
    | cons next params =>
      -- the space behind the comma leads in the next parameter
      have hrest := ih [' '] rfl
      have hsplit : lead ++ [',', ' '].intercalate ((param :: next :: params).map (·.source)) =
          (lead ++ param.source) ++ ',' ::
            ([' '] ++ [',', ' '].intercalate ((next :: params).map (·.source))) := by
        simp only [List.map_cons, List.intercalate_cons_cons, List.append_assoc]
        rfl
      rw [List.map_cons, hsplit]
      exact IsBlock.cons (ParamDecl.isEntry_source hlead) (by simp [ParamDecl.text]) hrest

namespace MethodDecl

variable {method : MethodDecl} (resolver : Resolver)

theorem parseParams_block (hwf : method.IsWellFormed) :
    parseParams resolver method.block = .ok (method.params.map (·.param resolver)) := by
  have htexts : ∀ param ∈ method.params.map (·.text), param.IsWellFormed := by
    intro text hmem
    obtain ⟨param, hparam, rfl⟩ := List.mem_map.1 hmem
    exact (hwf.params param hparam).text
  have hblock : IsBlock (method.params.map (·.text)) method.block :=
    isBlock_intercalate method.params [] rfl
  rw [parseParams_of_isBlock resolver htexts hblock, List.map_map]
  congr 1
  exact List.map_congr_left fun param hparam =>
    ParamDecl.parsed_text resolver (hwf.params param hparam)

/-- Nothing in the parameters closes their list. -/
theorem isListChar_of_mem_block (hwf : method.IsWellFormed) :
    ∀ c ∈ method.block, isListChar c = true := by
  intro c hc
  have hchar : isBlockChar c = true := forall_char_block hwf c hc
  have hmarks : ['(', ')', '"', '\''].contains c = false :=
    contains_eq_false_of_class (by decide) hchar
  rw [isListChar, hmarks]
  rfl

end MethodDecl

/-! ### Return types -/

/-- The text goes on with a tag or a closing brace. -/
def IsNext (tail : List Char) : Prop :=
  ∃ blank c rest, isBlank blank = true ∧ (c = '@' ∨ c = '}') ∧ tail = blank ++ c :: rest

namespace MethodDecl

variable {method : MethodDecl} (resolver : Resolver)

theorem returnTypeOf_append (hwf : method.IsWellFormed) {tail : List Char} (htail : IsNext tail) :
    returnTypeOf resolver (method.ending ++ tail) = method.returnType resolver := by
  unfold returnTypeOf writtenReturnType ending returnType
  cases hreturns : method.returns? with
  | none =>
    obtain ⟨blank, c, rest, hblank, hc, rfl⟩ := htail
    have hmiss : Shape.returnType.Misses ('\n' :: (blank ++ c :: rest)) :=
      @Shape.misses_returnType rest ('\n' :: blank) hblank c hc
    -- the line ends here, and what follows is no return type
    simp only [List.singleton_append]
    rw [hmiss.matchAt?_eq rfl]
    rfl
  | some type =>
    have htype : HasDottedNames type := hwf.returns type hreturns
    have hreads : Shape.returnType.Reads (':' :: ' ' :: type.canonical) ('\n' :: tail)
        [(.returnType, type.canonical)] := Shape.reads_returnType htype
    have hplace : (Cursor.ofText ((':' :: ' ' :: type.canonical) ++ '\n' :: tail)).rest =
        (':' :: ' ' :: type.canonical) ++ '\n' :: tail := rfl
    obtain ⟨found, hmatch, -, -, hpart⟩ := hreads.matchAt?_eq hplace
    have hsplit : ':' :: ' ' :: (type.canonical ++ ['\n']) ++ tail =
        (':' :: ' ' :: type.canonical) ++ '\n' :: tail := by simp
    have hwritten : found.part .returnType = type.canonical := by
      unfold Match.part
      rw [hpart]
      rfl
    have hne : type.canonical ≠ [] := (isSolid_canonical htype).ne_nil
    simp only [hsplit, hmatch, hwritten, TypeTree.cleanType_text htype.isDeclared]
    simp [hne]

/-- **The method behind its head**: its parameters are found up to the closing parenthesis and
its return type behind it. -/
theorem methodAt_of_describes (markers : Markers) (hwf : method.IsWellFormed)
    {start tail : List Char} (htail : IsNext tail) {actual : Match Part}
    (h : Found.Describes ⟨start, method.block ++ ')' :: (method.ending ++ tail),
      [(.id, method.id), (.name, method.name)]⟩ actual) :
    methodAt resolver markers actual = .ok (method.method resolver markers) := by
  have hid : actual.part .id = method.id := by
    unfold Match.part
    rw [h.part?]
    rfl
  have hname : actual.part .name = method.name := by
    unfold Match.part
    rw [h.part?]
    rfl
  have hclosing : Lexis.splitClosing actual.stop.rest =
      some (method.block, method.ending ++ tail) := by
    rw [h.stop]
    exact splitClosing_append (isListChar_of_mem_block hwf) _
  unfold methodAt
  dsimp only
  rw [hclosing]
  simp only [hid, hname, parseParams_block resolver hwf, returnTypeOf_append resolver hwf htail]
  rfl

end MethodDecl

end RpcBinder.Declaration
