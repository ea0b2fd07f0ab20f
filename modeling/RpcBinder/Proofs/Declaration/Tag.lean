import RpcBinder.Declaration.Shape
import RpcBinder.Proofs.Declaration.TypeText
import RpcBinder.Proofs.Pattern.Takes

/-!
# Tags

A tag has a dotted name and may have arguments in parentheses.  The shapes of declarations know
tags by a class of characters for the arguments, which lacks the closing parenthesis, so a tag
ends with the first one.

## Main definitions

* `Tag`, `Tag.text` — a tag with the white space behind it, and its text.
* `Tag.IsWellFormed` — what its parts are made of.

## Main results

* `Tag.reads`, `Tag.reads_many` — the shape of a tag reads a tag, and its repetition any tags.
* `Tag.exists_of_takes`, `Tag.exists_of_takes_many` — they take nothing else.
-/

namespace RpcBinder.Declaration

open Pattern

theorem isDottedWord_eq_false_of_isSpace {c : Char} (h : isSpace c = true) :
    Shape.isDottedWord c = false := by
  by_contra hdotted
  rw [isSpace_of_isDottedWord (by simpa using hdotted)] at h
  cases h

/-- A tag in front of a declaration. -/
structure Tag where
  /-- Its name. -/
  name : List Char
  /-- Its arguments, if it has parentheses. -/
  arguments? : Option (List Char)
  /-- The white space behind it. -/
  gap : List Char

namespace Tag

/-- The parentheses with the arguments. -/
def argumentList (tag : Tag) : List Char :=
  match tag.arguments? with
  | none => []
  | some arguments => '(' :: (arguments ++ [')'])

/-- The text of a tag without the white space. -/
def bare (tag : Tag) : List Char :=
  '@' :: (tag.name ++ tag.argumentList)

/-- The text of a tag. -/
def text (tag : Tag) : List Char :=
  tag.bare ++ tag.gap

/-- Tags are made of characters of these classes, and without parentheses the white space is what
ends the name. -/
structure IsWellFormed (isArgument isGap : Char → Bool) (tag : Tag) : Prop where
  name : IsRun Shape.isDottedWord tag.name
  arguments : ∀ arguments ∈ tag.arguments?, ∀ c ∈ arguments, isArgument c = true
  gap : ∀ c ∈ tag.gap, isGap c = true
  gap_ne_nil : tag.arguments? = none → tag.gap ≠ []

instance (isArgument isGap : Char → Bool) (tag : Tag) :
    Decidable (tag.IsWellFormed isArgument isGap) :=
  decidable_of_iff (IsRun Shape.isDottedWord tag.name ∧
      (∀ arguments ∈ tag.arguments?, arguments.all isArgument = true) ∧
      tag.gap.all isGap = true ∧ (tag.arguments? = none → tag.gap ≠ []))
    ⟨fun h => ⟨h.1, fun arguments hmem => List.all_eq_true.1 (h.2.1 arguments hmem),
        List.all_eq_true.1 h.2.2.1, h.2.2.2⟩,
      fun h => ⟨h.name, fun arguments hmem => List.all_eq_true.2 (h.arguments arguments hmem),
        List.all_eq_true.2 h.gap, h.gap_ne_nil⟩⟩

variable {isArgument isGap : Char → Bool} {tag : Tag} {rest : List Char}

theorem bare_ne_nil (tag : Tag) : tag.bare ≠ [] := List.cons_ne_nil _ _

theorem head?_text (tag : Tag) (rest : List Char) : (tag.text ++ rest).head? = some '@' := rfl

/-- The arguments are read up to the parenthesis that closes them, and none where white space
follows the name. -/
theorem reads_argumentList (h : tag.IsWellFormed isArgument isGap)
    (hclose : isArgument ')' = false) (hgap : ∀ c, isGap c = true → isSpace c = true) :
    Reads (maybe (Shape.word "(" ++ stretch isArgument ++ Shape.word ")")) tag.argumentList
      (tag.gap ++ rest) [] := by
  unfold argumentList
  cases harguments : tag.arguments? with
  | none =>
    -- without arguments there is a gap, which opens none
    obtain ⟨c, gap, heq⟩ := List.exists_cons_of_ne_nil (h.gap_ne_nil harguments)
    have hc : isSpace c = true := hgap c (h.gap c (by simp [heq]))
    have hopen : ¬ "(".toList <+: tag.gap ++ rest := by
      rw [heq, List.cons_append]
      intro hprefix
      obtain rfl : '(' = c := (List.cons_prefix_cons.1 hprefix).1
      exact absurd hc (by decide)
    exact reads_maybe_of_misses (((misses_literal hopen).seq _).seq _)
  | some arguments =>
    have hall : arguments.all isArgument = true :=
      List.all_eq_true.2 fun c hc => h.arguments arguments harguments c hc
    have hstretch : Reads (stretch isArgument : Pattern Part) arguments
        ([')'] ++ (tag.gap ++ rest)) [] := reads_stretch hall (by simp [hclose])
    exact (((reads_literal ['('] _).seq hstretch).seq (reads_literal [')'] _)).maybe

theorem head?_gap (h : tag.IsWellFormed isArgument isGap)
    (hgap : ∀ c, isGap c = true → isSpace c = true) :
    ∀ c ∈ (tag.argumentList ++ (tag.gap ++ rest)).head?, Shape.isDottedWord c = false := by
  unfold argumentList
  cases harguments : tag.arguments? with
  | none =>
    obtain ⟨c, gap, heq⟩ := List.exists_cons_of_ne_nil (h.gap_ne_nil harguments)
    have hc : isSpace c = true := hgap c (h.gap c (by simp [heq]))
    simpa [heq] using isDottedWord_eq_false_of_isSpace hc
  | some arguments =>
    have hopen : Shape.isDottedWord '(' = false := by decide
    simpa using hopen

/-- The shape of a tag reads a tag. -/
theorem reads (h : tag.IsWellFormed isArgument isGap) (hclose : isArgument ')' = false)
    (hgap : ∀ c, isGap c = true → isSpace c = true) :
    Reads (Shape.tag isArgument) tag.bare (tag.gap ++ rest) [] := by
  have hname : Reads (stretch1 Shape.isDottedWord : Pattern Part) tag.name
      (tag.argumentList ++ (tag.gap ++ rest)) [] := reads_stretch1 h.name (head?_gap h hgap)
  exact ((reads_literal ['@'] _).seq hname).seq (reads_argumentList h hclose hgap)

/-- Tags do not begin with white space. -/
theorem head?_tags (tags : List Tag) (hgap : ∀ c, isGap c = true → isSpace c = true)
    (hrest : ∀ c ∈ rest.head?, isGap c = false) :
    ∀ c ∈ (tags.flatMap text ++ rest).head?, isGap c = false := by
  cases tags with
  | nil => exact hrest
  | cons tag tags =>
    intro c hc
    rw [List.flatMap_cons, List.append_assoc, head?_text, Option.mem_some_iff] at hc
    subst hc
    by_contra hsign
    exact absurd (hgap '@' (by simpa using hsign)) (by decide)

/-- One tag after the other is read, up to something that is no tag. -/
theorem reads_many {space : Pattern Part} (hclose : isArgument ')' = false)
    (hgap : ∀ c, isGap c = true → isSpace c = true) {tags : List Tag}
    (h : ∀ tag ∈ tags, tag.IsWellFormed isArgument isGap)
    (hspace : ∀ tag ∈ tags, ∀ rest, (∀ c ∈ rest.head?, isGap c = false) →
      Reads space tag.gap rest [])
    (hrest : ∀ c ∈ rest.head?, isGap c = false) (hsign : '@' ∉ rest.head?) :
    Reads (many (Shape.tag isArgument ++ space)) (tags.flatMap text) rest [] := by
  induction tags with
  | nil =>
    have hmiss : ¬ "@".toList <+: rest := by
      rintro ⟨more, rfl⟩
      exact hsign rfl
    exact reads_many_of_misses ((((misses_literal hmiss).seq _).seq _).seq _)
  | cons tag tags ih =>
    obtain ⟨hwf, htags⟩ := List.forall_mem_cons.1 h
    obtain ⟨hfirst, hothers⟩ := List.forall_mem_cons.1 hspace
    have htag : Reads (Shape.tag isArgument) tag.bare
        (tag.gap ++ (tags.flatMap text ++ rest)) [] := reads hwf hclose hgap
    have hbehind : Reads space tag.gap (tags.flatMap text ++ rest) [] :=
      hfirst _ (head?_tags tags hgap hrest)
    rw [List.flatMap_cons]
    exact (htag.seq hbehind).round (by simp [tag.bare_ne_nil]) (ih htags hothers)

end Tag

/-! ### What the shape takes -/

variable {isArgument isGap : Char → Bool} {place : Cursor} {s : List Char}
  {parts : List (Part × List Char)}

/-- What is taken of a class, at least once, is a run. -/
theorem isRun_of_takes {p : Char → Bool} (h : (stretch1 p).Takes place s parts) : IsRun p s := by
  obtain ⟨first, more, ps, qs, rfl, -, hfirst, hmore⟩ := takes_seq.1 h
  cases hfirst with
  | one hc =>
    cases hmore with
    | stretch hall => exact ⟨List.cons_ne_nil _ _, List.forall_mem_cons.2 ⟨hc, hall⟩⟩

/-- Things that can be read off single rounds can be read off all of them. -/
theorem exists_of_rounds {α : Type} {p : α → Prop} {text : α → List Char}
    {rounds : List (List Char)} (h : ∀ round ∈ rounds, ∃ a, p a ∧ round = text a) :
    ∃ as : List α, (∀ a ∈ as, p a) ∧ rounds.flatten = as.flatMap text := by
  induction rounds with
  | nil => exact ⟨[], List.forall_mem_nil _, rfl⟩
  | cons round rounds ih =>
    obtain ⟨⟨a, ha, rfl⟩, hrounds⟩ := List.forall_mem_cons.1 h
    obtain ⟨as, has, heq⟩ := ih hrounds
    exact ⟨a :: as, List.forall_mem_cons.2 ⟨ha, has⟩, by rw [List.flatten_cons, heq]; rfl⟩

/-- A tag as the shape of a tag takes it, with something behind it. -/
structure Tag.IsTaken (isArgument : Char → Bool) (space : Pattern Part) (tag : Tag) : Prop where
  name : IsRun Shape.isDottedWord tag.name
  arguments : ∀ arguments ∈ tag.arguments?, ∀ c ∈ arguments, isArgument c = true
  gap : ∃ place parts, space.Takes place tag.gap parts

/-- The shape of a tag takes nothing but tags. -/
theorem Tag.exists_of_takes {space : Pattern Part}
    (h : (Shape.tag isArgument ++ space).Takes place s parts) :
    ∃ tag : Tag, tag.IsTaken isArgument space ∧ s = tag.text := by
  -- a sign, a name, perhaps a list of arguments, and the gap
  obtain ⟨bare, gap, ps, qs, rfl, -, hbare, hgap⟩ := takes_seq.1 h
  obtain ⟨front, list, ps, qs, rfl, -, hfront, hlist⟩ := takes_seq.1 hbare
  obtain ⟨sign, name, ps, qs, rfl, -, hsign, hname⟩ := takes_seq.1 hfront
  obtain rfl := hsign.of_literal
  cases hlist with
  | left hlist =>
    obtain ⟨opened, close, ps, qs, rfl, -, hopened, hclose⟩ := takes_seq.1 hlist
    obtain ⟨open', arguments, ps, qs, rfl, -, hopen, harguments⟩ := takes_seq.1 hopened
    obtain rfl := hclose.of_literal
    obtain rfl := hopen.of_literal
    cases harguments with
    | stretch harguments =>
      refine ⟨⟨name, some arguments, gap⟩, ⟨isRun_of_takes hname, ?_, _, _, hgap⟩, ?_⟩
      · intro other hother
        obtain rfl := Option.some.inj hother
        exact harguments
      · simp [Tag.text, Tag.bare, Tag.argumentList]
  | right hlist =>
    cases hlist with
    | empty =>
      refine ⟨⟨name, none, gap⟩, ⟨isRun_of_takes hname, nofun, _, _, hgap⟩, ?_⟩
      simp [Tag.text, Tag.bare, Tag.argumentList]

/-- Nor does its repetition. -/
theorem Tag.exists_of_takes_many {space : Pattern Part}
    (h : (many (Shape.tag isArgument ++ space)).Takes place s parts) :
    ∃ tags : List Tag, (∀ tag ∈ tags, tag.IsTaken isArgument space) ∧
      s = tags.flatMap Tag.text := by
  obtain ⟨rounds, rfl, hrounds⟩ := h.exists_rounds
  refine exists_of_rounds fun round hround => ?_
  obtain ⟨place, parts, htag⟩ := hrounds round hround
  exact exists_of_takes htag

end RpcBinder.Declaration
