import RpcBinder.Proofs.Declaration.Methods

/-!
# Where a return type ends

A return type is taken up to the end of its line, an opening brace or an equals sign, and then cut
down: a line comment, a closing brace and what stands behind them are dropped, and so are semicolons
at the very end.  So each of these ends the type, whatever follows, but for a semicolon: if the rest
of the line is not run out behind it, all of that is taken for a part of the type.

## Main definitions

* `takenBehind` — what a return type takes of the text behind it.
* `isRunOut` — behind a semicolon there is nothing to take but semicolons and white space.
* `signature`, `returning` — a method on one line.

## Main results

* `writtenReturnType_of_stop`, `writtenReturnType_semicolon_iff` — the return type in front of each
  mark that ends a declaration.
* `methodAt_line` — **a method on one line** has its return type unless a semicolon with more
  behind it ends its declaration.
-/

namespace RpcBinder.Declaration

open Pattern

/-! ### What is taken of the text behind -/

/-- A character that a return type goes on with. -/
def isReturnTypeChar (c : Char) : Bool :=
  c != '\n' && c != '\x7b' && c != '='

/-- What a return type takes of the text behind it: it ends with the line, an opening brace or an
equals sign, and of this what stands in front of a comment and of a closing brace is left. -/
def takenBehind (tail : List Char) : List Char :=
  (beforeLineComment (tail.takeWhile isReturnTypeChar)).takeWhile (· != '}')

/-- There is nothing to take but semicolons and then white space. -/
def isRunOut (tail : List Char) : Bool :=
  isBlank ((takenBehind tail).dropWhile (· == ';'))

/-- A text that holds no mark that ends a type is taken as a whole. -/
theorem takenBehind_append {s : List Char} (h : ∀ c ∈ s, isReturnTypeChar c = true)
    (hslash : '/' ∉ s) (hbrace : '}' ∉ s) (t : List Char) :
    takenBehind (s ++ t) = s ++ takenBehind t := by
  unfold takenBehind
  rw [List.takeWhile_append_of_pos h, beforeLineComment_append hslash,
    List.takeWhile_append_of_pos]
  intro c hc
  rw [bne_iff_ne]
  exact ne_of_mem_of_not_mem hc hbrace

theorem takenBehind_of_isBlank {blank : List Char} (hblank : isBlank blank = true)
    (hline : '\n' ∉ blank) (t : List Char) : takenBehind (blank ++ t) = blank ++ takenBehind t := by
  refine takenBehind_append (fun c hc => ?_) (notMem_of_isBlank hblank (by decide))
    (notMem_of_isBlank hblank (by decide)) t
  have hspace := forall_isSpace_of_isBlank hblank c hc
  have hbreak : c ≠ '\n' := ne_of_mem_of_not_mem hc hline
  have hbrace : c ≠ '\x7b' := ne_of_class hspace (by decide)
  have hequals : c ≠ '=' := ne_of_class hspace (by decide)
  simp [isReturnTypeChar, hbreak, hbrace, hequals]

theorem takenBehind_semicolon (after : List Char) :
    takenBehind (';' :: after) = ';' :: takenBehind after :=
  takenBehind_append (List.forall_mem_singleton.2 rfl) (by decide) (by decide) after

/-- All other marks end the type at once. -/
theorem takenBehind_of_stop {rest : List Char}
    (h : ∀ c ∈ rest.head?, c ∈ ['\n', '}', '\x7b', '=']) : takenBehind rest = [] := by
  cases rest with
  | nil => rfl
  | cons c rest =>
    have hc : c = '\n' ∨ c = '}' ∨ c = '\x7b' ∨ c = '=' := by simpa using h c rfl
    unfold takenBehind
    rcases hc with rfl | rfl | rfl | rfl
    · rfl
    · -- the pattern takes the brace, and then it is cut off
      rw [List.takeWhile_cons_of_pos (by decide), beforeLineComment,
        List.takeWhile_cons_of_neg (by decide)]
      intro _ heq
      cases heq
    · rfl
    · rfl

/-! ### The return type as it is written -/

/-- A return type with what stands behind it. -/
def returning (type : TypeTree) (tail : List Char) : List Char :=
  ':' :: ' ' :: (type.canonical ++ tail)

section Written

variable {type : TypeTree}

theorem isReturnTypeChar_of_mem_canonical (htype : HasDottedNames type) :
    ∀ c ∈ type.canonical, isReturnTypeChar c = true := by
  intro c hc
  have hchar := forall_char_canonical htype c hc
  have hbreak : c ≠ '\n' := ne_of_class hchar (by decide)
  have hbrace : c ≠ '\x7b' := ne_of_class hchar (by decide)
  have hequals : c ≠ '=' := ne_of_class hchar (by decide)
  simp [isReturnTypeChar, hbreak, hbrace, hequals]

theorem notMem_canonical (htype : HasDottedNames type) {c : Char} (hc : isTypeLineChar c = false) :
    c ∉ type.canonical :=
  fun hmem => ne_of_class (forall_char_canonical htype c hmem) hc rfl

/-- The return type as it is written, with some text behind it. -/
theorem writtenReturnType_returning (htype : HasDottedNames type) (tail : List Char) :
    writtenReturnType (returning type tail) = [' '].intercalate
      (words (trimEndBy (· == ';') (trim (type.canonical ++ takenBehind tail)))) := by
  have hchars := isReturnTypeChar_of_mem_canonical htype
  have hsolid := isSolid_canonical htype
  -- the pattern takes all that its class allows, of which the type is a front
  have hrun : IsRun isReturnTypeChar (type.canonical ++ tail.takeWhile isReturnTypeChar) := by
    refine ⟨by simp [hsolid.ne_nil], fun c hc => ?_⟩
    rcases List.mem_append.1 hc with hc | hc
    · exact hchars c hc
    · exact List.mem_takeWhile_imp hc
  have hrest : ∀ c ∈ (tail.dropWhile isReturnTypeChar).head?, isReturnTypeChar c = false := by
    simpa using @head?_dropWhile_append _ isReturnTypeChar tail [] nofun
  have hreads := Shape.reads_returnType_of_isRun hrun (hsolid.starts.append _) hrest
  have hplace : (Cursor.ofText (returning type tail)).rest =
      (':' :: ' ' :: (type.canonical ++ tail.takeWhile isReturnTypeChar)) ++
        tail.dropWhile isReturnTypeChar := by
    show returning type tail = _
    simp [returning, List.append_assoc, List.takeWhile_append_dropWhile]
  obtain ⟨found, hmatch, -, -, hpart⟩ := hreads.matchAt?_eq hplace
  have hwritten : found.part .returnType =
      (type.canonical ++ tail).takeWhile isReturnTypeChar := by
    rw [List.takeWhile_append_of_pos hchars, Match.part, hpart]
    rfl
  rw [← takenBehind_append hchars (notMem_canonical htype (by decide))
    (notMem_canonical htype (by decide)), writtenReturnType, hmatch]
  show cleanType (found.part .returnType) = _
  rw [hwritten]
  rfl

/-- In front of any mark but a semicolon the return type is read. -/
theorem writtenReturnType_of_stop (htype : HasDottedNames type) {blank rest : List Char}
    (hblank : isBlank blank = true) (hline : '\n' ∉ blank)
    (hrest : ∀ c ∈ rest.head?, c ∈ ['\n', '}', '\x7b', '=']) :
    writtenReturnType (returning type (blank ++ rest)) = type.canonical := by
  have hpadded : IsPadded type.canonical (type.canonical ++ blank) := ⟨[], blank, rfl, hblank, rfl⟩
  rw [writtenReturnType_returning htype, takenBehind_of_isBlank hblank hline,
    takenBehind_of_stop hrest, List.append_nil, trim_of_isPadded hpadded (isSolid_canonical htype),
    trimEndBy_of_notMem (notMem_canonical htype (by decide)),
    (TypeTree.isLine_text htype.isDeclared.isWellFormed).intercalate_words]

/-- What is run out is dropped with the semicolon in front of it. -/
theorem writtenReturnType_of_isRunOut (htype : HasDottedNames type) {blank after : List Char}
    (hblank : isBlank blank = true) (hline : '\n' ∉ blank) (hafter : isRunOut after = true) :
    writtenReturnType (returning type (blank ++ ';' :: after)) = type.canonical := by
  -- the type, and behind it white space, semicolons and white space again
  obtain ⟨semicolons, more, htaken, hsemicolons, hmore⟩ : ∃ semicolons more,
      takenBehind after = semicolons ++ more ∧ (∀ c ∈ semicolons, c = ';') ∧
        isBlank more = true :=
    ⟨_, _, List.takeWhile_append_dropWhile.symm,
      fun c hc => eq_of_beq (List.mem_takeWhile_imp (p := (· == ';')) hc), hafter⟩
  have hends : EndsSolid (';' :: semicolons) := by
    refine (isSolid_of_forall (by simp) fun c hc => ?_).ends
    rcases List.mem_cons.1 hc with rfl | hc
    · decide
    · rw [hsemicolons c hc]
      decide
  have hsolid : IsSolid ((type.canonical ++ blank) ++ ';' :: semicolons) :=
    ⟨((isSolid_canonical htype).starts.append _).append _, hends.append _⟩
  have hpadded : IsPadded ((type.canonical ++ blank) ++ ';' :: semicolons)
      (type.canonical ++ takenBehind (blank ++ ';' :: after)) := by
    refine ⟨[], more, rfl, hmore, ?_⟩
    rw [takenBehind_of_isBlank hblank hline, takenBehind_semicolon, htaken]
    simp
  have hkept : ';' ∉ type.canonical ++ blank := by
    rw [List.mem_append, not_or]
    exact ⟨notMem_canonical htype (by decide), notMem_of_isBlank hblank (by decide)⟩
  rw [writtenReturnType_returning htype, trim_of_isPadded hpadded hsolid,
    trimEndBy_append_of_forall _ (by simpa using hsemicolons), trimEndBy_of_notMem hkept,
    words_append_isBlank _ hblank,
    (TypeTree.isLine_text htype.isDeclared.isWellFormed).intercalate_words]

theorem exists_of_not_isRunOut {after : List Char} (h : isRunOut after = false) :
    ∃ semicolons d more, takenBehind after = semicolons ++ d :: more ∧ (d == ';') = false ∧
      isBlank (d :: more) = false := by
  have hsplit : takenBehind after = (takenBehind after).takeWhile (· == ';') ++
      (takenBehind after).dropWhile (· == ';') := List.takeWhile_append_dropWhile.symm
  have hnot := List.head?_dropWhile_not (· == ';') (takenBehind after)
  unfold isRunOut at h
  cases hmore : (takenBehind after).dropWhile (· == ';') with
  | nil =>
    rw [hmore] at h
    cases h
  | cons d more =>
    rw [hmore] at h hsplit hnot
    exact ⟨_, d, more, hsplit, by simpa using hnot, h⟩

/-- What is not run out keeps the semicolon in front of it in the type. -/
theorem semicolon_mem_writtenReturnType (htype : HasDottedNames type) {blank after : List Char}
    (hblank : isBlank blank = true) (hline : '\n' ∉ blank) (hafter : isRunOut after = false) :
    ';' ∈ writtenReturnType (returning type (blank ++ ';' :: after)) := by
  obtain ⟨semicolons, d, more, hsplit, hd, hmore⟩ := exists_of_not_isRunOut hafter
  have hstarts := (isSolid_canonical htype).starts.append (blank ++ ';' :: semicolons ++ d :: more)
  -- white space is trimmed behind the first character that is no semicolon, and this one
  -- keeps the semicolons in front of it
  obtain ⟨kept, hkept⟩ :=
    exists_trimEndBy_eq (type.canonical ++ (blank ++ ';' :: semicolons)) hmore
  have htrim : trim (type.canonical ++ takenBehind (blank ++ ';' :: after)) =
      (type.canonical ++ (blank ++ ';' :: semicolons)) ++ d :: kept := by
    rw [takenBehind_of_isBlank hblank hline, takenBehind_semicolon, hsplit, ← hkept, trim]
    congr 1
    simpa using trimStart_append_of_startsSolid (show isBlank [] = true from rfl) hstarts
  rw [writtenReturnType_returning htype, htrim, trimEndBy_append_cons (p := (· == ';')) hd]
  exact mem_intercalate_words (by decide) (by simp)

/-- In front of a semicolon the return type is read exactly if the line is run out behind it. -/
theorem writtenReturnType_semicolon_iff (htype : HasDottedNames type) {blank : List Char}
    (hblank : isBlank blank = true) (hline : '\n' ∉ blank) (after : List Char) :
    writtenReturnType (returning type (blank ++ ';' :: after)) = type.canonical ↔
      isRunOut after = true := by
  refine ⟨fun heq => ?_, writtenReturnType_of_isRunOut htype hblank hline⟩
  by_contra hafter
  have hmem := semicolon_mem_writtenReturnType htype hblank hline (by simpa using hafter)
  rw [heq] at hmem
  exact notMem_canonical htype (by decide) hmem

/-- Of all marks that end a declaration only a semicolon with more behind it does not end the
return type. -/
theorem writtenReturnType_iff (htype : HasDottedNames type) {blank rest : List Char}
    (hblank : isBlank blank = true) (hline : '\n' ∉ blank)
    (hrest : ∀ c ∈ rest.head?, c ∈ ['\n', ';', '}', '\x7b', '=']) :
    writtenReturnType (returning type (blank ++ rest)) = type.canonical ↔
      ∀ after, rest = ';' :: after → isRunOut after = true := by
  -- only a semicolon is taken along, with what stands behind it on the line
  by_cases hsemicolon : ∃ after, rest = ';' :: after
  · obtain ⟨after, rfl⟩ := hsemicolon
    rw [writtenReturnType_semicolon_iff htype hblank hline]
    refine ⟨fun hafter other heq => ?_, fun h => h after rfl⟩
    obtain ⟨-, rfl⟩ := List.cons.inj heq
    exact hafter
  · have hstop : ∀ c ∈ rest.head?, c ∈ ['\n', '}', '\x7b', '='] := by
      intro c hc
      obtain ⟨after, rfl⟩ := List.head?_eq_some_iff.1 hc
      have hne : c ≠ ';' := fun heq => hsemicolon ⟨after, by rw [heq]⟩
      simpa [hne] using hrest c hc
    exact iff_of_true (writtenReturnType_of_stop htype hblank hline hstop)
      fun after heq => absurd ⟨after, heq⟩ hsemicolon

theorem writtenReturnType_ne_nil (htype : HasDottedNames type) {blank rest : List Char}
    (hblank : isBlank blank = true) (hline : '\n' ∉ blank)
    (hrest : ∀ c ∈ rest.head?, c ∈ ['\n', ';', '}', '\x7b', '=']) :
    writtenReturnType (returning type (blank ++ rest)) ≠ [] := by
  by_cases hwritten : writtenReturnType (returning type (blank ++ rest)) = type.canonical
  · rw [hwritten]
    exact (isSolid_canonical htype).ne_nil
  · rw [writtenReturnType_iff htype hblank hline hrest] at hwritten
    push Not at hwritten
    obtain ⟨after, rfl, hafter⟩ := hwritten
    exact List.ne_nil_of_mem
      (semicolon_mem_writtenReturnType htype hblank hline (by simpa using hafter))

end Written

/-! ### Methods on one line -/

/-- A method on one line, from its tag up to the parenthesis of its parameters. -/
def signature (id : List Char) (suspending : Bool) (name : List Char) : List Char :=
  ("@RpcMethod".toList ++ '(' :: '"' :: (id ++ '"' :: ')' :: [' '])) ++
    ((if suspending then "suspend".toList ++ [' '] else []) ++ ("fun".toList ++ ' ' :: name)) ++
      ['(']

/-- A method with the parameters and the return type that are read. -/
def methodOf (resolver : Resolver) (markers : Markers) (id name : List Char)
    (parameters : List Param) (returns : List Char) : Method where
  id := String.ofList id
  name := String.ofList name
  parameters := parameters
  returnType := String.ofList (resolver.qualify returns)
  isStreaming := markers.isStreaming (String.ofList (resolver.qualify returns))

section Methods

variable {id name : List Char}

theorem reads_signature (hid : IsRun (· != '"') id) (hname : IsIdentifier name)
    (suspending : Bool) (rest : List Char) :
    Reads Shape.method (signature id suspending name) rest [(.id, id), (.name, name)] :=
  Shape.reads_method_of_tags (Shape.reads_methodTags hid rfl) hname suspending rest

/-- A match is read with what stands behind the parenthesis. -/
theorem methodAt_eq (resolver : Resolver) (markers : Markers) {found : Match Part}
    {block after : List Char} {parameters : List Param}
    (hclosing : Lexis.splitClosing found.stop.rest = some (block, after))
    (hparameters : parseParams resolver block = .ok parameters)
    (hwritten : writtenReturnType after ≠ []) :
    methodAt resolver markers found = .ok (methodOf resolver markers (found.part .id)
      (found.part .name) parameters (writtenReturnType after)) := by
  unfold methodAt
  dsimp only
  rw [hclosing]
  simp only [hparameters, returnTypeOf, List.isEmpty_eq_false_iff.2 hwritten]
  rfl

/-- **A method on one line** is read from its tag on, with its parameters and its return type, in
front of a line end, a semicolon, a brace, an equals sign or the end of the text, whatever follows,
exactly unless a semicolon is followed by more on the line. -/
theorem methodAt_line (resolver : Resolver) (markers : Markers) (hid : IsRun (· != '"') id)
    (hname : IsIdentifier name) (suspending : Bool) {block : List Char} {parameters : List Param}
    (hparameters : parseParams resolver block = .ok parameters) {type : TypeTree}
    (htype : HasDottedNames type) {blank rest : List Char} (hblank : isBlank blank = true)
    (hline : '\n' ∉ blank) (hrest : ∀ c ∈ rest.head?, c ∈ ['\n', ';', '}', '\x7b', '='])
    (hclosing : Lexis.splitClosing (block ++ ')' :: returning type (blank ++ rest)) =
      some (block, returning type (blank ++ rest)))
    {place : Cursor} (hplace : place.rest =
      signature id suspending name ++ (block ++ ')' :: returning type (blank ++ rest))) :
    ∃ found, Shape.method.matchAt? place = some found ∧
      methodAt resolver markers found = .ok (methodOf resolver markers id name parameters
        (writtenReturnType (returning type (blank ++ rest)))) ∧
      (writtenReturnType (returning type (blank ++ rest)) = type.canonical ↔
        ∀ after, rest = ';' :: after → isRunOut after = true) := by
  obtain ⟨found, hmatch, -, hstop, hpart⟩ :=
    (reads_signature hid hname suspending _).matchAt?_eq hplace
  have hfoundId : found.part .id = id := by
    rw [Match.part, hpart]
    rfl
  have hfoundName : found.part .name = name := by
    rw [Match.part, hpart]
    rfl
  -- the parameters begin where the match stops
  rw [← Cursor.rest_behind hplace, ← hstop] at hclosing
  have hmethod := methodAt_eq resolver markers hclosing hparameters
    (writtenReturnType_ne_nil htype hblank hline hrest)
  rw [hfoundId, hfoundName] at hmethod
  exact ⟨found, hmatch, hmethod, writtenReturnType_iff htype hblank hline hrest⟩

/-- Two semicolons and a space end the line, and what stands on the next one does not matter. -/
theorem methodAt_line_example :
    let resolver : Resolver := ⟨{ package := "p", explicit := ["q.User"] }, TypeIndex.empty⟩
    let markers : Markers := [⟨"Flow", "k.Flow", true⟩]
    let type : TypeTree := .generic "k.Flow".toList (.nullable (.named "User".toList)) []
    let rest : List Char := ";; \n; fun b() = 1".toList
    let source : List Char := signature "1".toList true "a".toList ++
      ("id: Int".toList ++ ')' :: returning type ([' '] ++ rest))
    source = "@RpcMethod(\"1\") suspend fun a(id: Int): k.Flow<User?> ;; \n; fun b() = 1".toList ∧
      HasDottedNames type ∧ (∀ after, rest = ';' :: after → isRunOut after = true) ∧
      ∃ found, Shape.method.matchAt? (Cursor.ofText source) = some found ∧
        methodAt resolver markers found =
          .ok ⟨"1", "a", [⟨"id", "Int"⟩], "k.Flow<q.User?>", true⟩ := by
  intro resolver markers type rest source
  have htype : HasDottedNames type := by decide +kernel
  -- only semicolons and blanks stand behind the type on its line
  have hrest : ∀ after, rest = ';' :: after → isRunOut after = true := by
    intro after heq
    obtain ⟨-, rfl⟩ := List.cons.inj heq
    decide +kernel
  have hid : IsRun (· != '"') "1".toList := by decide +kernel
  have hname : IsIdentifier "a".toList := by decide +kernel
  have hparameters : parseParams resolver "id: Int".toList = .ok [⟨"id", "Int"⟩] := by
    decide +kernel
  have hblank : isBlank [' '] = true := rfl
  have hend : ∀ c ∈ rest.head?, c ∈ ['\n', ';', '}', '\x7b', '='] := by
    rintro _ ⟨⟩
    decide
  have hlist : ∀ c ∈ "id: Int".toList, isListChar c = true := List.all_eq_true.1 rfl
  have hplace : (Cursor.ofText source).rest = source := rfl
  obtain ⟨found, hmatch, hmethod, hwritten⟩ := methodAt_line resolver markers hid hname true
    hparameters htype hblank (by decide) hend (splitClosing_append hlist _) hplace
  rw [hwritten.2 hrest] at hmethod
  refine ⟨by decide +kernel, htype, hrest, found, hmatch, hmethod.trans ?_⟩
  decide +kernel

/-- A method takes the next one on its line for a part of its return type. -/
theorem servicesOf_runs_on :
    let header : List Char := "@RpcService(\"s\") interface S ".toList
    let line : List Char := "@RpcMethod(\"1\") fun a(): Int; @RpcMethod(\"2\") fun b(): Int".toList
    servicesOf ⟨{ package := "p" }, TypeIndex.empty⟩ [] (header ++ line) =
      .ok [⟨"s", "p", "S",
        [⟨"1", "a", [], "Int; @RpcMethod(\"2\") fun b(): Int", false⟩,
          ⟨"2", "b", [], "Int", false⟩]⟩] := by
  decide +kernel

end Methods

end RpcBinder.Declaration
