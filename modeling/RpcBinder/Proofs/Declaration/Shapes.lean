import RpcBinder.Declaration.Shape
import RpcBinder.Proofs.Declaration.ServiceSource
import RpcBinder.Proofs.Pattern.Reads

/-!
# The shapes of a service read what is printed

## Main results

* `Shape.reads_service`, `Shape.reads_method` — the head of a service and that of a method.
* `Shape.reads_returnType`, `Shape.misses_returnType` — the return type, and its absence.
-/

namespace RpcBinder.Declaration.Shape

open Pattern

variable {rest : List Char}

/-! ### White space -/

theorem reads_spaces {blank : List Char} (hblank : isBlank blank = true)
    (hrest : ∀ c ∈ rest.head?, isSpace c = false) : Reads spaces blank rest [] :=
  reads_stretch hblank hrest

theorem reads_spaces_nil (hrest : ∀ c ∈ rest.head?, isSpace c = false) :
    Reads spaces [] rest [] := reads_spaces rfl hrest

theorem reads_spaces1 (hrest : ∀ c ∈ rest.head?, isSpace c = false) :
    Reads spaces1 [' '] rest [] :=
  reads_stretch1 (by decide) hrest

/-! ### Tags -/

/-- A tag with its argument, and the white space behind it. -/
theorem reads_quotedTag {name : String} {content : Part} {argument blank : List Char}
    (hargument : IsRun (· != '"') argument) (hblank : isBlank blank = true)
    (hrest : ∀ c ∈ rest.head?, isSpace c = false) :
    Reads (quotedTag name content)
      (name.toList ++ '(' :: '"' :: (argument ++ '"' :: ')' :: blank)) rest
      [(content, argument)] := by
  have hsplit : name.toList ++ '(' :: '"' :: (argument ++ '"' :: ')' :: blank) =
      name.toList ++ [] ++ ['('] ++ [] ++ ['"'] ++ argument ++ ['"'] ++ [] ++ [')'] ++ blank := by
    simp
  -- one stretch for each pattern of the tag, the empty ones for white space included
  rw [hsplit]
  have hpart : Reads (part content (stretch1 (· != '"'))) argument
      (['"'] ++ ([] ++ ([')'] ++ (blank ++ rest)))) [(content, argument)] :=
    (reads_stretch1 hargument (by simp)).part content
  exact (((((((((reads_literal _ _).seq (reads_spaces_nil (by simp; decide))).seq
    (reads_literal _ _)).seq (reads_spaces_nil (by simp; decide))).seq (reads_literal _ _)).seq
    hpart).seq (reads_literal _ _)).seq (reads_spaces_nil (by simp; decide))).seq
    (reads_literal _ _)).seq (reads_spaces hblank hrest)

theorem misses_quotedTag {name : String} {content : Part} {text : List Char}
    (h : ¬ name.toList <+: text) : Misses (quotedTag name content) text :=
  (((((((((misses_literal h).seq _).seq _).seq _).seq _).seq _).seq _).seq _).seq _).seq _

/-- There are no further tags in front of another word. -/
theorem reads_tags_nil {text : List Char} (h : clashes "@".toList text = true) :
    Reads tags [] (text ++ rest) [] :=
  reads_many_of_misses ((((misses_literal_of_clashes h rest).seq _).seq _).seq _)

/-- There are no modifiers in front of another word. -/
theorem reads_modifiers_nil {names : List String} {text : List Char}
    (h : ∀ name ∈ names, clashes name.toList text = true) :
    Reads (modifiers names) [] (text ++ rest) [] := by
  refine reads_many_of_misses ((misses_anyOf fun name hname => ?_).seq _)
  exact not_prefix_of_clashes (h name hname) rest

/-! ### Heads -/

theorem head?_append_of_isRun {p : Char → Bool} {text : List Char} (h : IsRun p text) {c : Char}
    (hc : c ∈ (text ++ rest).head?) : p c = true := by
  obtain ⟨d, text, rfl⟩ := List.exists_cons_of_ne_nil h.ne_nil
  obtain rfl : d = c := Option.some.inj hc
  exact h.forall_char d List.mem_cons_self

/-- A word in front of the name of what is declared, and the name. -/
theorem reads_named {name : List Char} (hname : IsIdentifier name)
    (hrest : ∀ c ∈ rest.head?, isWord c = false) {keyword : String} {before : Pattern Part}
    {s : List Char} {parts : List (Part × List Char)}
    (hbefore : Reads before s (keyword.toList ++ ([' '] ++ (name ++ rest))) parts) :
    Reads (before ++ word keyword ++ spaces1 ++ part .name (stretch1 isWord))
      (s ++ (keyword.toList ++ (' ' :: name))) rest (parts ++ [(.name, name)]) := by
  have hsplit : s ++ (keyword.toList ++ (' ' :: name)) =
      s ++ keyword.toList ++ [' '] ++ name := by simp
  have hparts : parts ++ [(Part.name, name)] = parts ++ [] ++ [] ++ [(Part.name, name)] := by simp
  have hspace : ∀ c ∈ (name ++ rest).head?, isSpace c = false := fun c hc =>
    isSpace_of_isWord (head?_append_of_isRun hname hc)
  rw [hsplit, hparts]
  have hkeyword : Reads (before ++ word keyword) (s ++ keyword.toList) ([' '] ++ (name ++ rest))
      (parts ++ []) := hbefore.seq (reads_literal _ _)
  exact (hkeyword.seq (reads_spaces1 hspace)).seq ((reads_stretch1 hname hrest).part Part.name)

/-- The head of a service behind its tags. -/
theorem reads_service_of_tags {s name : List Char} {parts : List (Part × List Char)}
    (htags : ∀ rest, Reads (quotedTag "@RpcService" .route ++ tags) s ("interface".toList ++ rest)
      parts)
    (hname : IsIdentifier name) (hrest : ∀ c ∈ rest.head?, isWord c = false) :
    Reads service (s ++ ("interface".toList ++ ' ' :: name)) rest (parts ++ [(.name, name)]) := by
  have hfun : Misses (word "fun" ++ spaces1)
      ("interface".toList ++ ([' '] ++ (name ++ rest))) :=
    (misses_literal_of_clashes (by decide) _).seq _
  exact reads_named hname hrest (((htags _).seq_nil (reads_modifiers_nil (by decide))).seq_nil
    (reads_maybe_of_misses hfun))

/-- The head of a service. -/
theorem reads_service {declared : ServiceDecl} (hwf : declared.IsWellFormed)
    (hrest : ∀ c ∈ rest.head?, isWord c = false) :
    Reads service declared.head rest [(.route, declared.route), (.name, declared.name)] := by
  have hroute : IsRun (· != '"') declared.route :=
    hwf.route.mono fun c hc => (Bool.and_eq_true_iff.1 hc).1
  have htags (rest : List Char) : Reads (quotedTag "@RpcService" .route ++ tags)
      (tagLine "@RpcService" declared.route []) ("interface".toList ++ rest)
        [(.route, declared.route)] :=
    (reads_quotedTag hroute rfl (by simp; decide)).seq_nil (reads_tags_nil (by decide))
  exact reads_service_of_tags htags hwf.name hrest

/-- The tags of a method, and the word that says that it may be suspended. -/
theorem reads_suspend {s : List Char} {parts : List (Part × List Char)}
    (htags : ∀ keyword ∈ ["suspend", "fun"], ∀ rest,
      Reads (quotedTag "@RpcMethod" .id ++ tags) s (keyword.toList ++ rest) parts)
    (suspending : Bool) (rest : List Char) :
    Reads (quotedTag "@RpcMethod" .id ++ tags ++
        modifiers ["public", "abstract", "open", "override"] ++
        maybe (word "suspend" ++ spaces1))
      (s ++ if suspending then "suspend".toList ++ [' '] else []) ("fun".toList ++ rest) parts := by
  cases suspending with
  | true =>
    have htag : Reads (quotedTag "@RpcMethod" .id ++ tags) s
        (("suspend".toList ++ [' ']) ++ ("fun".toList ++ rest)) parts :=
      htags "suspend" (by decide) _
    have hsuspend : Reads (word "suspend" ++ spaces1) ("suspend".toList ++ [' '])
        ("fun".toList ++ rest) [] :=
      (reads_literal _ _).seq (reads_spaces1 (by simp; decide))
    have hmodifiers : Reads (modifiers ["public", "abstract", "open", "override"]) []
        (("suspend".toList ++ [' ']) ++ ("fun".toList ++ rest)) [] :=
      reads_modifiers_nil (by decide)
    have hall := (htag.seq_nil hmodifiers).seq hsuspend.maybe
    rw [List.append_nil] at hall
    exact hall
  | false =>
    have hsuspend : Misses (word "suspend" ++ spaces1) ("fun".toList ++ rest) :=
      (misses_literal_of_clashes (by decide) _).seq _
    have hmodifiers : Reads (modifiers ["public", "abstract", "open", "override"]) []
        ("fun".toList ++ rest) [] := reads_modifiers_nil (by decide)
    have hall := ((htags "fun" (by decide) rest).seq_nil hmodifiers).seq_nil
      (reads_maybe_of_misses hsuspend)
    rw [← List.append_nil s] at hall
    exact hall

/-- The head of a method behind its tags. -/
theorem reads_method_of_tags {s name : List Char} {parts : List (Part × List Char)}
    (htags : ∀ keyword ∈ ["suspend", "fun"], ∀ rest,
      Reads (quotedTag "@RpcMethod" .id ++ tags) s (keyword.toList ++ rest) parts)
    (hname : IsIdentifier name) (suspending : Bool) (rest : List Char) :
    Reads method
      (s ++ ((if suspending then "suspend".toList ++ [' '] else []) ++
        ("fun".toList ++ ' ' :: name)) ++ ['(']) rest (parts ++ [(.name, name)]) := by
  have hbefore := reads_suspend htags suspending ([' '] ++ (name ++ (['('] ++ rest)))
  have hnamed := reads_named hname (by simp; decide) hbefore
  have hopen : Reads (word "(" : Pattern Part) ['('] rest [] := reads_literal _ _
  have hall := (hnamed.seq_nil (reads_spaces_nil (by simp; decide))).seq hopen
  rw [List.append_nil] at hall
  rwa [← List.append_assoc s]

/-- The tag of a method in front of the words that may follow it. -/
theorem reads_methodTags {id blank : List Char} (hid : IsRun (· != '"') id)
    (hblank : isBlank blank = true) : ∀ keyword ∈ ["suspend", "fun"], ∀ rest,
      Reads (quotedTag "@RpcMethod" .id ++ tags)
        ("@RpcMethod".toList ++ '(' :: '"' :: (id ++ '"' :: ')' :: blank))
        (keyword.toList ++ rest) [(.id, id)] := by
  intro keyword hkeyword rest
  have hsign : ∀ keyword ∈ ["suspend", "fun"],
      clashes "@".toList keyword.toList = true := by decide
  have hhead : ∀ c ∈ (keyword.toList ++ rest).head?, isSpace c = false := by
    revert hkeyword
    simp only [List.mem_cons, List.not_mem_nil, or_false]
    rintro (rfl | rfl) <;> simp <;> decide
  exact (reads_quotedTag hid hblank hhead).seq_nil
    (reads_tags_nil (hsign keyword hkeyword))

/-- The head of a method. -/
theorem reads_method {layout : Layout} (hlayout : layout.IsBlank) {declared : MethodDecl}
    (hwf : declared.IsWellFormed) :
    Reads method (declared.head layout) rest [(.id, declared.id), (.name, declared.name)] := by
  have hid : IsRun (· != '"') declared.id :=
    hwf.id.mono fun c hc => (Bool.and_eq_true_iff.1 hc).1
  have hblank : isBlank ('\n' :: layout.indent) = true := hlayout.indent
  exact reads_method_of_tags (reads_methodTags hid hblank) hwf.name declared.suspending rest

/-! ### Return types -/

theorem isSpace_of_isTabOrBreak {c : Char} (h : isTabOrBreak c = true) : isSpace c = true := by
  have hmem : c = ' ' ∨ c = '\t' ∨ c = '\r' ∨ c = '\n' := by
    simpa [isTabOrBreak, isTabOrSpace, or_assoc] using h
  rcases hmem with rfl | rfl | rfl | rfl <;> decide

/-- The return type ends with the first character that it cannot hold. -/
theorem reads_returnType_of_isRun {text : List Char}
    (hrun : IsRun (fun c => c != '\n' && c != '\x7b' && c != '=') text) (hstarts : StartsSolid text)
    (hrest : ∀ c ∈ rest.head?, (c != '\n' && c != '\x7b' && c != '=') = false) :
    Reads returnType (':' :: ' ' :: text) rest [(.returnType, text)] := by
  -- the text starts solid, so the blanks in front of it end there
  have hhead : ∀ c ∈ (text ++ rest).head?, isTabOrBreak c = false := by
    obtain ⟨d, hd, hspace⟩ := hstarts.append rest
    intro c hc
    obtain rfl : d = c := Option.some.inj (hd.symm.trans hc)
    by_contra htab
    rw [isSpace_of_isTabOrBreak (by simpa using htab)] at hspace
    exact absurd hspace (by decide)
  have hcolon : Reads (stretch isTabOrBreak ++ word ":" : Pattern Part) [':']
      ([' '] ++ (text ++ rest)) [] :=
    (reads_stretch (s := []) rfl (by simp; decide)).seq (reads_literal [':'] _)
  have hspace : Reads (stretch isTabOrBreak : Pattern Part) [' '] (text ++ rest) [] :=
    reads_stretch (by decide) hhead
  exact (hcolon.seq hspace).seq ((reads_stretch1 hrun hrest).part Part.returnType)

/-- The return type ends with its line. -/
theorem reads_returnType {type : TypeTree} (htype : HasDottedNames type) :
    Reads returnType (':' :: ' ' :: type.canonical) ('\n' :: rest)
      [(.returnType, type.canonical)] := by
  have hsolid := isSolid_canonical htype
  refine reads_returnType_of_isRun ⟨hsolid.ne_nil, fun c hc => ?_⟩ hsolid.starts (by simp)
  have hchar := forall_char_canonical htype c hc
  have hbreak : c ≠ '\n' := ne_of_class hchar (by decide)
  have hbrace : c ≠ '\x7b' := ne_of_class hchar (by decide)
  have hequals : c ≠ '=' := ne_of_class hchar (by decide)
  simp [hbreak, hbrace, hequals]

/-- No return type stands in front of a tag or of a closing brace. -/
theorem misses_returnType {blank : List Char} (hblank : isBlank blank = true) {c : Char}
    (hc : c = '@' ∨ c = '}') : Misses returnType (blank ++ c :: rest) := by
  have hcolon : ∀ {d : Char} {text : List Char}, d ≠ ':' →
      Misses (word ":" : Pattern Part) (d :: text) := fun hd => misses_literal_cons hd _ _
  have hmiss : Misses (stretch isTabOrBreak ++ word ":" : Pattern Part) (blank ++ c :: rest) := by
    -- at every place of the white space, and behind it, the colon is missing
    induction blank with
    | nil =>
      rcases hc with rfl | rfl
      · exact misses_stretch_cons (hcolon (by decide)) fun h => absurd h (by decide)
      · exact misses_stretch_cons (hcolon (by decide)) fun h => absurd h (by decide)
    | cons d blank ih =>
      unfold isBlank at hblank
      rw [List.all_cons, Bool.and_eq_true] at hblank
      have hd : d ≠ ':' := ne_of_class hblank.1 (by decide)
      exact misses_stretch_cons (hcolon hd) fun _ => ih hblank.2
  exact (hmiss.seq _).seq _

end RpcBinder.Declaration.Shape
