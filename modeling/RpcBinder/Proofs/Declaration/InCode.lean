import RpcBinder.Declaration.Anchor
import RpcBinder.Declaration.Scope
import RpcBinder.Lexis.Comments
import RpcBinder.Proofs.Analysis.AnchorNames
import RpcBinder.Proofs.Lexis.Depth
import RpcBinder.Proofs.Pattern.Takes

/-!
# Where declarations begin

A declaration is searched for in the whole text; what knows of literals is only asked for the
depth of a type.  So a literal whose text looks like a declaration is taken for one.  It has to
look like it at a place of its own: each kind of declaration begins with one of a few words, and
some kinds only where a line begins.  Where no literal has such a place, all that is recognised
begins in code.

## Main definitions

* `Lexis.regionAt` — the region at an offset.
* `Kind`, `Kind.recognised` — the kinds of declarations, and what is recognised of each.
* `depthAt`, `regionOf` — the depth and the region at a place.
* `typeModifiers`, `typeKeywords`, `Kind.words` — the words that a declaration begins with.
* `Kind.OpensAt` — a declaration of the kind may begin here.
* `Kind.IsAbsentFromLiterals` — no literal has such a place.

## Main results

* `topLevelTypes_eq` — the types that count are those at depth zero.
* `Kind.opensAt_of_mem_findAll` — what is found begins where its kind may begin.
* `Kind.starts_in_code` — **what is recognised begins in code**, unless a literal opens like it.
* `Kind.hasPhantom_quoted` — a literal that does is taken for a declaration of any kind.
-/

namespace RpcBinder

/-! ### Regions at offsets -/

namespace Lexis

/-- The region of the character that begins at an offset, or of the first one behind it. -/
def regionAt : Nat → List (Char × Region) → Option Region
  | _, [] => none
  | 0, (_, region) :: _ => some region
  | offset + 1, (c, _) :: rest => regionAt (offset + 1 - c.utf8Size) rest

/-- A text without comments stays without them. -/
theorem step_of_isInside {mode : Mode} (h : mode.isInside = true) (c : Char) (rest : List Char) :
    (mode.step false c rest).1 ≠ .comment ∧ (mode.step false c rest).2.isInside = true := by
  have hcode : Region.code ≠ .comment := by decide
  have hliteral : Region.literal ≠ .comment := by decide
  -- comments are not looked for, so no step leads into one
  cases mode with
  | code =>
    simp only [Mode.step, Bool.false_and, if_neg Bool.false_ne_true]
    split
    · exact ⟨hliteral, rfl⟩
    · split
      · exact ⟨hliteral, rfl⟩
      · exact ⟨hcode, rfl⟩
  | quoted quote =>
    simp only [Mode.step]
    split
    · exact ⟨hliteral, rfl⟩
    · split <;> exact ⟨hliteral, rfl⟩
  | rawString =>
    simp only [Mode.step]
    split <;> exact ⟨hliteral, rfl⟩
  | held region next =>
    cases region with
    | literal => exact ⟨hliteral, h⟩
    | _ => cases h
  | _ => cases h

theorem regionAt_append {mode : Mode} (h : mode.isInside = true) (before : List Char) (c : Char)
    (rest : List Char) :
    regionAt (byteLength before) (regionsFrom false mode (before ++ c :: rest)) = some .code ∨
      regionAt (byteLength before) (regionsFrom false mode (before ++ c :: rest)) =
        some .literal := by
  -- induction on the characters in front, none of which leads into a comment
  induction before generalizing mode with
  | nil =>
    have hcomment := (step_of_isInside h c rest).1
    rw [List.nil_append, regionsFrom_cons, byteLength_nil, regionAt]
    revert hcomment
    cases (mode.step false c rest).1 with
    | code => exact fun _ => Or.inl rfl
    | literal => exact fun _ => Or.inr rfl
    | comment => exact absurd rfl
  | cons d before ih =>
    have hnext := (step_of_isInside h d (before ++ c :: rest)).2
    obtain ⟨size, hsize⟩ := Nat.exists_eq_add_one_of_ne_zero
      (Nat.ne_of_gt (Nat.add_pos_left d.utf8Size_pos (byteLength before)))
    rw [List.cons_append, regionsFrom_cons, byteLength_cons, hsize, regionAt, ← hsize,
      Nat.add_sub_cancel_left]
    exact ih hnext

/-- Every character of a text without comments belongs to code or to a literal. -/
theorem regionAt_commentFreeRegions (before : List Char) (c : Char) (rest : List Char) :
    regionAt (byteLength before) (commentFreeRegions (before ++ c :: rest)) = some .code ∨
      regionAt (byteLength before) (commentFreeRegions (before ++ c :: rest)) = some .literal :=
  regionAt_append rfl before c rest

end Lexis

namespace Declaration

open Pattern Lexis

/-! ### What is recognised -/

/-- The kinds of declarations. -/
inductive Kind
  /-- A package directive. -/
  | package
  /-- An import. -/
  | importing
  /-- A type outside of all braces. -/
  | type
  /-- The header of a service. -/
  | service
  /-- A method. -/
  | method
  /-- An anchor of one side. -/
  | anchor (side : Side)
  deriving DecidableEq, Repr

/-- The shape of a declaration. -/
def Kind.shape : Kind → Pattern Part
  | .package => Shape.package
  | .importing => Shape.importing
  | .type => Shape.type
  | .service => Shape.service
  | .method => Shape.method
  | .anchor side => anchorShape side

/-- The depth of the braces in front of a place of a text without comments. -/
def depthAt (text : List Char) (place : Cursor) : Nat :=
  braceDepth (codeBefore (byteLength text - place.left) (commentFreeRegions text))

/-- The region of the character at a place of a text without comments. -/
def regionOf (text : List Char) (place : Cursor) : Option Region :=
  regionAt (byteLength text - place.left) (commentFreeRegions text)

/-- The matches of a kind that count: the first package directive, and the types at depth zero. -/
def Kind.recognised : Kind → List Char → List (Match Part)
  | .package, text => (Shape.package.find? text).toList
  | .type, text => (Shape.type.findAll text).filter fun declared => depthAt text declared.start == 0
  | kind, text => kind.shape.findAll text

theorem Kind.recognised_subset (kind : Kind) (text : List Char) :
    kind.recognised text ⊆ kind.shape.findAll text := by
  cases kind with
  | package =>
    intro found hfound
    exact List.mem_of_mem_head? (Option.mem_toList.1 hfound)
  | type => exact List.filter_subset_self _
  | _ => exact List.Subset.refl _

/-- The types that count are those at depth zero. -/
theorem topLevelTypes_eq (text : List Char) :
    topLevelTypes text =
      (Kind.type.recognised text).map fun declared => String.ofList (declared.part .name) := by
  have hascending : ((Shape.type.findAll text).map fun declared =>
      byteLength text - declared.start.left).Pairwise (· ≤ ·) :=
    List.pairwise_map.2 ((pairwise_findAll _ _).imp fun hle => Nat.sub_le_sub_left hle _)
  -- asked in ascending order, the tracker answers with the depth of each place
  have hdepths : (DepthTracker.ofText text).depths ((Shape.type.findAll text).map fun declared =>
      byteLength text - declared.start.left) =
        (Shape.type.findAll text).map fun declared => depthAt text declared.start := by
    rw [DepthTracker.depths_ofText text hascending, List.map_map]
    rfl
  unfold topLevelTypes
  simp only [hdepths]
  rw [Kind.recognised]
  induction Shape.type.findAll text with
  | nil => rfl
  | cons declared others ih =>
    rw [List.map_cons, List.zip_cons_cons, List.filterMap_cons, ih, List.filter_cons]
    cases depthAt text declared.start == 0 with
    | true => rfl
    | false => rfl

/-! ### Where a declaration may begin -/

/-- The kind is searched for where lines begin. -/
def Kind.isOfLine : Kind → Bool
  | .package | .importing | .type => true
  | _ => false

/-- The modifiers that may stand in front of a type. -/
def typeModifiers : List String :=
  ["public", "internal", "private", "protected", "data", "sealed", "abstract", "open", "value",
    "annotation", "enum", "fun", "inline", "expect", "actual"]

/-- The words that declare a type. -/
def typeKeywords : List String :=
  ["class", "interface", "object"]

/-- The words one of which a declaration begins with. -/
def Kind.words : Kind → List String
  | .package => ["package"]
  | .importing => ["import"]
  | .type => "@" :: (typeModifiers ++ typeKeywords)
  | .service => ["@RpcService"]
  | .method => ["@RpcMethod"]
  | .anchor .client => ["@RpcClient"]
  | .anchor .server => ["@RpcServer"]

/-- A declaration of the kind may begin between two parts of a text: one of its words follows, and
a line begins there if the kind is one of lines. -/
def Kind.OpensAt (kind : Kind) (before rest : List Char) : Prop :=
  if kind.isOfLine then
    EndsLine before ∧ ∃ word ∈ kind.words, word.toList <+: rest.dropWhile Shape.isTabOrSpace
  else ∃ word ∈ kind.words, word.toList <+: rest

instance (kind : Kind) (before rest : List Char) : Decidable (kind.OpensAt before rest) :=
  inferInstanceAs (Decidable (if kind.isOfLine then EndsLine before ∧ _ else _))

/-- No literal of a text without comments has a place where a declaration of the kind may begin. -/
def Kind.IsAbsentFromLiterals (kind : Kind) (text : List Char) : Prop :=
  ∀ before rest, before ++ rest = text →
    regionAt (byteLength before) (commentFreeRegions text) = some .literal →
      ¬ kind.OpensAt before rest

instance (kind : Kind) (text : List Char) : Decidable (kind.IsAbsentFromLiterals text) :=
  decidable_of_iff (∀ n ≤ text.length,
      regionAt (byteLength (text.take n)) (commentFreeRegions text) = some .literal →
        ¬ kind.OpensAt (text.take n) (text.drop n)) <| by
    constructor
    · rintro h before rest rfl
      simpa using h before.length (by simp)
    · exact fun h n _ => h _ _ (List.take_append_drop n text)

/-! ### What a declaration begins with -/

/-- Spaces and tabs in front of a word are passed over. -/
theorem prefix_dropWhile_tabs {blanks word : List Char}
    (hblanks : ∀ c ∈ blanks, Shape.isTabOrSpace c)
    (hword : ∀ c ∈ word.head?, Shape.isTabOrSpace c = false) (rest : List Char) :
    word <+: (blanks ++ (word ++ rest)).dropWhile Shape.isTabOrSpace := by
  rw [List.dropWhile_append_of_pos hblanks]
  cases word with
  | nil => exact List.nil_prefix
  | cons c word =>
    have hc : Shape.isTabOrSpace c = false := hword c rfl
    rw [List.cons_append, List.dropWhile_cons_of_neg (by simp [hc])]
    exact List.prefix_append (c :: word) rest

theorem Kind.head?_words {kind : Kind} (hline : kind.isOfLine = true) :
    ∀ word ∈ kind.words, ∀ c ∈ word.toList.head?, Shape.isTabOrSpace c = false := by
  have hall : ∀ word ∈ kind.words, word.toList.head?.all (!Shape.isTabOrSpace ·) = true := by
    cases kind with
    | package => decide
    | importing => decide
    | type => decide
    | _ => cases hline
  intro word hword
  simpa [Option.all_eq_true] using hall word hword

variable {place : Cursor} {s : List Char} {parts : List (Part × List Char)}

theorem tabs_of_takes (h : Shape.tabs.Takes place s parts) : ∀ c ∈ s, Shape.isTabOrSpace c := by
  cases h with
  | stretch hall => exact hall

/-- A type begins with a tag, with a modifier, or with its word. -/
theorem exists_of_takes_words {front : Pattern Part} {isArgument : Char → Bool}
    {modifiers keywords : List String}
    (h : (front ++ many (Shape.tag isArgument ++ Shape.tabs1) ++
      many (anyOf modifiers ++ Shape.tabs1) ++ anyOf keywords).Takes place s parts) :
    ∃ t u ps, s = t ++ u ∧ front.Takes place t ps ∧
      ∃ word ∈ "@" :: (modifiers ++ keywords), word.toList <+: u := by
  obtain ⟨t, last, ps, qs, rfl, -, ht, hkeyword⟩ := takes_seq.1 h
  obtain ⟨t, second, ps, qs, rfl, -, ht, hmodifiers⟩ := takes_seq.1 ht
  obtain ⟨t, first, ps, qs, rfl, -, hfront, htags⟩ := takes_seq.1 ht
  refine ⟨t, first ++ (second ++ last), ps, by simp, hfront, ?_⟩
  -- the first of the three that takes something decides
  cases htags with
  | round htag hmore =>
    obtain ⟨tag, tabs, ps, qs, rfl, -, htag, -⟩ := takes_seq.1 htag
    have hbegins : Begins (Shape.word "@") (Shape.tag isArgument) :=
      ((begins_refl (Shape.word "@")).seq _).seq _
    obtain ⟨sign, more, ps, rfl, hsign⟩ := hbegins _ _ _ htag
    obtain rfl := hsign.of_literal
    exact ⟨"@", List.mem_cons_self, by simp⟩
  | stop =>
    cases hmodifiers with
    | round hmodifier hmore =>
      obtain ⟨modifier, tabs, ps, qs, rfl, -, hmodifier, -⟩ := takes_seq.1 hmodifier
      obtain ⟨word, hword, rfl⟩ := hmodifier.of_anyOf
      exact ⟨word, by simp [hword], by simp⟩
    | stop =>
      obtain ⟨word, hword, rfl⟩ := hkeyword.of_anyOf
      exact ⟨word, by simp [hword], by simp⟩

variable {kind : Kind} {before text rest : List Char} {word : String}

/-- A kind of lines may begin where a line begins with one of its words. -/
theorem opensAt_of_atLineStart (hline : kind.isOfLine = true)
    (hlies : place.LiesBehind before text) (hstart : place.atLineStart = true) {blanks : List Char}
    (hblanks : ∀ c ∈ blanks, Shape.isTabOrSpace c) (hword : word ∈ kind.words)
    (hfront : blanks ++ word.toList <+: place.rest) : kind.OpensAt before place.rest := by
  obtain ⟨rest, hrest⟩ := hfront
  rw [Kind.OpensAt, if_pos hline, ← hrest, List.append_assoc]
  exact ⟨hlies.atLineStart_iff.1 hstart, word, hword,
    prefix_dropWhile_tabs hblanks (Kind.head?_words hline word hword) rest⟩

theorem opensAt_of_begins_line (hline : kind.isOfLine = true)
    (hlies : place.LiesBehind before text) (hword : word ∈ kind.words)
    (hbegins : Begins (lineStart ++ Shape.tabs ++ Shape.word word) kind.shape)
    (hplace : place.rest = s ++ rest) (h : kind.shape.Takes place s parts) :
    kind.OpensAt before place.rest := by
  obtain ⟨t, u, ps, rfl, ht⟩ := hbegins _ _ _ h
  obtain ⟨front, last, ps, qs, rfl, -, hfront, hlast⟩ := takes_seq.1 ht
  obtain ⟨nothing, blanks, ps, qs, rfl, -, hstart, hblanks⟩ := takes_seq.1 hfront
  cases hstart with
  | lineStart hstart =>
    obtain rfl := hlast.of_literal
    exact opensAt_of_atLineStart hline hlies hstart (tabs_of_takes hblanks) hword
      ⟨u ++ rest, by simp [hplace]⟩

theorem opensAt_of_begins_word (hline : kind.isOfLine = false) (hword : word ∈ kind.words)
    (hbegins : Begins (Shape.word word) kind.shape) (hplace : place.rest = s ++ rest)
    (h : kind.shape.Takes place s parts) : kind.OpensAt before place.rest := by
  obtain ⟨t, u, ps, rfl, ht⟩ := hbegins _ _ _ h
  obtain rfl := ht.of_literal
  rw [Kind.OpensAt, hline, hplace, if_neg (by decide)]
  exact ⟨word, hword, by simp⟩

theorem begins_quotedTag (name : String) (content : Part) :
    Begins (Shape.word name) (Shape.quotedTag name content) :=
  (((((((((begins_refl _).seq _).seq _).seq _).seq _).seq _).seq _).seq _).seq _).seq _

theorem begins_anchorHead (name : String) : Begins (Shape.word name) (Shape.anchorHead name) :=
  (((((((((((begins_refl _).seq _).seq _).seq _).seq _).seq _).seq _).seq _).seq _).seq _).seq
    _).seq _

/-- What a kind's shape may take begins where the kind may begin. -/
theorem Kind.opensAt_of_takes (hlies : place.LiesBehind before text)
    (hplace : place.rest = s ++ rest) (h : kind.shape.Takes place s parts) :
    kind.OpensAt before place.rest := by
  -- every pattern begins with a word of its kind, three of them at the start of a line
  cases kind with
  | package =>
    have hbegins : Begins (lineStart ++ Shape.tabs ++ Shape.word "package") Shape.package :=
      (((begins_refl _).seq _).seq _).seq _
    exact opensAt_of_begins_line rfl hlies (by decide) hbegins hplace h
  | importing =>
    have hbegins : Begins (lineStart ++ Shape.tabs ++ Shape.word "import") Shape.importing :=
      ((((begins_refl _).seq _).seq _).seq _).seq _
    exact opensAt_of_begins_line rfl hlies (by decide) hbegins hplace h
  | type =>
    obtain ⟨t, u, ps, rfl, ht⟩ := ((begins_refl _).seq _).seq _ _ _ _ h
    obtain ⟨front, v, ps, rfl, hfront, word, hword, w, rfl⟩ := exists_of_takes_words ht
    obtain ⟨nothing, blanks, ps, qs, rfl, -, hstart, hblanks⟩ := takes_seq.1 hfront
    cases hstart with
    | lineStart hstart =>
      exact opensAt_of_atLineStart rfl hlies hstart (tabs_of_takes hblanks) hword
        ⟨w ++ (u ++ rest), by simp [hplace]⟩
  | service =>
    have hbegins : Begins (Shape.word "@RpcService") Shape.service :=
      ((((((begins_quotedTag _ _).seq _).seq _).seq _).seq _).seq _).seq _
    exact opensAt_of_begins_word rfl (by decide) hbegins hplace h
  | method =>
    have hbegins : Begins (Shape.word "@RpcMethod") Shape.method :=
      ((((((((begins_quotedTag _ _).seq _).seq _).seq _).seq _).seq _).seq _).seq _).seq _
    exact opensAt_of_begins_word rfl (by decide) hbegins hplace h
  | anchor side =>
    cases side with
    | client =>
      have hbegins : Begins (Shape.word "@RpcClient") Shape.clientAnchor :=
        ((((begins_anchorHead _).seq _).seq _).seq _).seq _
      exact opensAt_of_begins_word rfl (by decide) hbegins hplace h
    | server =>
      have hbegins : Begins (Shape.word "@RpcServer") Shape.serverAnchor :=
        (((((((((((((((begins_anchorHead _).seq _).seq _).seq _).seq _).seq _).seq _).seq _).seq
          _).seq _).seq _).seq _).seq _).seq _).seq _).seq _
      exact opensAt_of_begins_word rfl (by decide) hbegins hplace h

/-! ### Recognised declarations -/

/-- No part of a declaration holds another part. -/
theorem Kind.exists_within_shape (kind : Kind) :
    ∃ p, kind.shape.Within (fun _ => true) p := by
  cases kind with
  | anchor side => exact ⟨_, isClassed_anchorShape side⟩
  | _ =>
    refine ⟨fun _ => some fun _ => true, ?_⟩
    simp [Kind.shape, Shape.package, Shape.importing, Shape.directiveEnd, Shape.type, Shape.tag,
      Shape.identifier, Shape.service, Shape.method, Shape.quotedTag, Shape.tags, Shape.modifiers,
      Shape.tabs, Shape.tabs1, Shape.spaces, Shape.spaces1, Shape.word]

theorem Kind.OpensAt.ne_nil (h : kind.OpensAt before rest) : rest ≠ [] := by
  rintro rfl
  have hwords : ∀ word ∈ kind.words, word.toList ≠ [] := by
    cases kind with
    | anchor side => cases side <;> decide
    | _ => decide
  have hword : ∃ word ∈ kind.words, word.toList <+: [] := by
    unfold Kind.OpensAt at h
    split at h
    · exact h.2
    · exact h
  obtain ⟨word, hmem, hprefix⟩ := hword
  exact hwords word hmem (List.prefix_nil.1 hprefix)

/-- What is found lies in the text, and begins where its kind may begin. -/
theorem Kind.opensAt_of_mem_findAll {found : Match Part} (h : found ∈ kind.shape.findAll text) :
    ∃ before, found.start.LiesBehind before text ∧ kind.OpensAt before found.start.rest := by
  obtain ⟨p, hwithin⟩ := kind.exists_within_shape
  obtain ⟨before, s, parts, hlies, hrest, htakes, -⟩ := hwithin.exists_takes h
  exact ⟨before, hlies, Kind.opensAt_of_takes hlies hrest htakes⟩

/-- **What is recognised begins in code**: of every source, after its comments were blanked, each
package directive, import, top-level type, service header, method and anchor begins at an offset
whose character belongs to no literal, provided that no literal has a place where a declaration of
the kind may begin. -/
theorem Kind.starts_in_code (kind : Kind) (source : List Char)
    (h : kind.IsAbsentFromLiterals (stripComments source)) :
    ∀ found ∈ kind.recognised (stripComments source),
      regionOf (stripComments source) found.start = some .code := by
  intro found hfound
  obtain ⟨before, hlies, hopens⟩ := kind.opensAt_of_mem_findAll (kind.recognised_subset _ hfound)
  have habsent := h before found.start.rest hlies.text_eq
  rw [regionOf, hlies.byteLength_eq]
  obtain ⟨c, rest, hrest⟩ := List.exists_cons_of_ne_nil hopens.ne_nil
  have hregion := regionAt_commentFreeRegions before c rest
  rw [← hrest, hlies.text_eq] at hregion
  -- in a literal the kind cannot begin, and there is nothing but code besides
  exact hregion.resolve_right fun hliteral => habsent hliteral hopens

theorem Kind.starts_in_code_example :
    let source := "@Fast class A /* \"\"\" */\nval s = \"\"\"\n a class\n\"\"\"".toList
    Kind.type.IsAbsentFromLiterals (stripComments source) ∧
      topLevelTypes (stripComments source) = ["A"] ∧
      ∀ found ∈ Kind.type.recognised (stripComments source),
        regionOf (stripComments source) found.start = some .code := by
  intro source
  have habsent : Kind.type.IsAbsentFromLiterals (stripComments source) := by decide +kernel
  exact ⟨habsent, by decide +kernel, Kind.starts_in_code .type source habsent⟩

/-- Something of the kind is recognised in a literal of the source. -/
def Kind.HasPhantom (kind : Kind) (source : String) : Prop :=
  ∃ found ∈ kind.recognised (stripComments source.toList),
    regionOf (stripComments source.toList) found.start = some .literal

instance (kind : Kind) (source : String) : Decidable (kind.HasPhantom source) :=
  inferInstanceAs (Decidable (∃ found ∈ kind.recognised (stripComments source.toList), _))

/-- Every kind of declaration is recognised in a raw string, and an anchor in any string. -/
theorem Kind.hasPhantom_quoted :
    Kind.package.HasPhantom "val s=\"\"\"\npackage p\n\"\"\"" ∧
    Kind.importing.HasPhantom "val s = \"\"\"\nimport a.B\n\"\"\"\n" ∧
    Kind.type.HasPhantom "val s=\"\"\"\nclass A\n\"\"\"" ∧
    Kind.service.HasPhantom "val s=\"\"\"@RpcService(\"r\") interface A\"\"\"" ∧
    Kind.method.HasPhantom "val s=\"\"\"@RpcMethod(\"m\") fun f()\"\"\"" ∧
    (Kind.anchor .client).HasPhantom "val s=\"@RpcClient abstract class C:A\"" ∧
    (Kind.anchor .server).HasPhantom "val s=\"@RpcServer abstract class C(impl:A)\"" := by
  refine ⟨?_, ?_, ?_, ?_, ?_, ?_, ?_⟩ <;> decide +kernel

end Declaration

end RpcBinder
