import RpcBinder.Proofs.Declaration.TypeText
import RpcBinder.Proofs.TypeRef.FunctionTypes

/-!
# Types by name

An anchor is bound to an interface by a type with a name: a dotted name, perhaps with type
arguments and a question mark.  The patterns cut such a type off at the first character that
their class lacks, which may lie within the type arguments.  The name in front of them is found
all the same.

## Main definitions

* `NamedType` — a name with type arguments and nullability.

## Main results

* `NamedType.isWrittenType_text` — such a type is a type as it is written.
* `NamedType.anchorBase_takeWhile` — **its name is found in what is left of it.**
-/

namespace RpcBinder

open Declaration Declaration.Shape

/-- A type with a name. -/
structure NamedType where
  /-- The name. -/
  base : List Char
  /-- The type arguments with the white space around them, if there are any. -/
  arguments? : Option (List (List Char))
  /-- It is followed by a question mark. -/
  nullable : Bool

namespace NamedType

/-- What stands behind the name: the type arguments between their brackets, and the mark. -/
def tail (type : NamedType) : List Char :=
  (match type.arguments? with
    | none => []
    | some arguments => '<' :: ([','].intercalate arguments ++ ['>'])) ++
  if type.nullable then ['?'] else []

/-- The text of a type. -/
def text (type : NamedType) : List Char :=
  type.base ++ type.tail

/-- The name has word characters and dots, and the arguments are types of any kind. -/
structure IsWellFormed (type : NamedType) : Prop where
  base : IsDottedName type.base
  arguments : ∀ arguments ∈ type.arguments?, ∃ texts ≠ [],
    (∀ text ∈ texts, IsWrittenType text) ∧ List.Forall₂ IsPadded texts arguments

variable {type : NamedType}

/-- Such a type is a type as it is written. -/
theorem isWrittenType_text (h : type.IsWellFormed) : IsWrittenType type.text := by
  obtain ⟨base, arguments?, nullable⟩ := type
  have hbase : IsTypeName base := isTypeName_of_isDottedName h.base
  have hplain : IsWrittenType (NamedType.mk base arguments? false).text := by
    cases arguments? with
    | none =>
      have htext : (NamedType.mk base none false).text = base := by simp [text, tail]
      rw [htext]
      exact .named hbase
    | some arguments =>
      obtain ⟨texts, hne, hwritten, hpadded⟩ := h.arguments arguments rfl
      have hgeneric := IsWrittenType.generic hbase hwritten hne hpadded
      simpa [text, tail] using hgeneric
  cases nullable with
  | false => exact hplain
  | true =>
    have htext : (NamedType.mk base arguments? true).text =
        (NamedType.mk base arguments? false).text ++ ['?'] := by simp [text, tail]
    rw [htext]
    exact .nullable hplain

theorem startsSolid_of_isDottedName {name : List Char} (h : IsDottedName name) :
    StartsSolid name := (isTypeName_of_isDottedName h).isSolid.starts

/-- A character of a name does not end it. -/
theorem endsBase_eq_false {c : Char} (h : isDottedWord c = true) :
    (!(c == '<' || c == '(' || isSpace c)) = true := by
  have hopen : c ≠ '<' := ne_of_class h (by decide +kernel)
  have hparen : c ≠ '(' := ne_of_class h (by decide +kernel)
  simp [hopen, hparen, isSpace_of_isDottedWord h]

/-- Type arguments are cut off, however much of them is left. -/
theorem anchorBase_append_open {base : List Char} (h : IsDottedName base) (rest : List Char) :
    anchorBase (base ++ '<' :: rest) = base := by
  have htrim : trim (base ++ '<' :: rest) = base ++ '<' :: trimEndBy isSpace rest := by
    have hstart := trimStart_append_of_startsSolid (show isBlank [] = true from rfl)
      (startsSolid_of_isDottedName h)
    rw [trim_append_cons (by decide), ← List.nil_append base, hstart, List.nil_append]
  have hcut : (base ++ '<' :: trimEndBy isSpace rest).takeWhile
      (fun c => !(c == '<' || c == '(' || isSpace c)) = base :=
    takeWhile_append_eq (fun c hc => endsBase_eq_false (h.forall_char c hc)) (by simp)
  rw [anchorBase, htrim, hcut, trimEndBy_of_notMem (h.notMem (by decide +kernel))]

/-- So is a question mark, and white space. -/
theorem anchorBase_append_blank {base : List Char} (h : IsDottedName base) (nullable : Bool)
    {blank : List Char} (hblank : isBlank blank = true) :
    anchorBase (base ++ ((if nullable then ['?'] else []) ++ blank)) = base := by
  have hbase : IsSolid base := (isTypeName_of_isDottedName h).isSolid
  -- the question mark behind the base is cut off at the end, if there is one
  cases nullable with
  | false =>
    have htrim : trim (base ++ blank) = base :=
      trim_of_isPadded ⟨[], blank, rfl, hblank, rfl⟩ hbase
    have hall : base.takeWhile (fun c => !(c == '<' || c == '(' || isSpace c)) = base :=
      List.takeWhile_eq_self_iff.2 fun c hc => endsBase_eq_false (h.forall_char c hc)
    simp only [Bool.false_eq_true, if_false, List.nil_append]
    rw [anchorBase, htrim, hall, trimEndBy_of_notMem (h.notMem (by decide +kernel))]
  | true =>
    have hsolid : IsSolid (base ++ ['?']) := ⟨hbase.starts.append _, endsSolid_concat _ (by decide)⟩
    have htrim : trim (base ++ ['?'] ++ blank) = base ++ ['?'] :=
      trim_of_isPadded ⟨[], blank, rfl, hblank, rfl⟩ hsolid
    have hall : (base ++ ['?']).takeWhile (fun c => !(c == '<' || c == '(' || isSpace c)) =
        base ++ ['?'] := by
      refine List.takeWhile_eq_self_iff.2 fun c hc => ?_
      rcases List.mem_append.1 hc with hc | hc
      · exact endsBase_eq_false (h.forall_char c hc)
      · rw [List.mem_singleton.1 hc]
        decide
    have hlast : base.reverse.dropWhile (· == '?') = base.reverse := by
      have hmark : '?' ∉ base.reverse := by simpa using h.notMem (c := '?') (by decide +kernel)
      refine dropWhile_append_eq (List.forall_mem_nil _) fun c hc => ?_
      rw [beq_eq_false_iff_ne]
      rintro rfl
      exact hmark (List.mem_of_mem_head? hc)
    simp only [if_true, ← List.append_assoc]
    rw [anchorBase, htrim, hall, trimEndBy_eq, List.reverse_concat,
      List.dropWhile_cons_of_pos (by decide), hlast, List.reverse_reverse]

/-- **The name of a type is found** in what a class of characters takes of the type, of white space
behind it and of what follows, where the class lacks the character behind the white space. -/
theorem anchorBase_takeWhile (h : IsDottedName type.base) {p : Char → Bool}
    (hp : ∀ c, isDottedWord c = true ∨ c = '<' ∨ c = '?' → p c = true) {blank : List Char}
    (hblank : ∀ c ∈ blank, isSpace c = true ∧ p c = true) {stop : Char} (hstop : p stop = false)
    (rest : List Char) :
    anchorBase ((type.text ++ (blank ++ stop :: rest)).takeWhile p) = type.base := by
  obtain ⟨base, arguments?, nullable⟩ := type
  have hbase : ∀ c ∈ base, p c = true := fun c hc => hp c (Or.inl (h.forall_char c hc))
  cases arguments? with
  | some arguments =>
    -- the base ends at its angle bracket, wherever the class stops behind it
    have hcut : ∀ more, (base ++ '<' :: more).takeWhile p = base ++ '<' :: more.takeWhile p := by
      intro more
      rw [List.takeWhile_append_of_pos hbase,
        List.takeWhile_cons_of_pos (hp '<' (Or.inr (Or.inl rfl)))]
    simp only [text, tail, List.append_assoc, List.cons_append]
    rw [hcut]
    exact anchorBase_append_open h _
  | none =>
    have hall : ∀ c ∈ base ++ ((if nullable then ['?'] else []) ++ blank), p c = true := by
      intro c hc
      rw [List.mem_append, List.mem_append] at hc
      rcases hc with hc | hc | hc
      · exact hbase c hc
      · refine hp c (Or.inr (Or.inr ?_))
        cases nullable with
        | false => cases hc
        | true => exact List.mem_singleton.1 hc
      · exact (hblank c hc).2
    have hcut := takeWhile_append_eq hall (show ∀ c ∈ (stop :: rest).head?, p c = false by simpa)
    have htext : (NamedType.mk base none nullable).text ++ (blank ++ stop :: rest) =
        base ++ ((if nullable then ['?'] else []) ++ blank) ++ stop :: rest := by
      simp [text, tail]
    rw [htext, hcut]
    exact anchorBase_append_blank h nullable
      (List.all_eq_true.2 fun c hc => (hblank c hc).1)

end NamedType

end RpcBinder
