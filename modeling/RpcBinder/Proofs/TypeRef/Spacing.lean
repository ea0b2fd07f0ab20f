import Mathlib.Data.List.Chain
import RpcBinder.Proofs.TypeRef.Qualification

/-!
# White space that reading leaves alone

Reading a type trims what it cuts, and rendering puts a space behind every comma.  A text that is
spaced in this way already comes back as it was, whatever its brackets are like: the reader looks at
a text from the outside in, and where it cuts an evenly spaced text the parts are evenly spaced.

## Main definitions

* `MayFollow`, `IsEven` — the even spacing, as a condition on neighbouring characters.
* `behindCommas` — texts, each behind a comma and a space.
* `IsEvenEntry` — an even text that may stand between brackets, commas and spaces.

## Main results

* `IsEven.middle` — what is cut out of an even text is even.
* `IsEven.splitTopLevel` — the entries of an even text are even, and they make up the text.
* `TypeTree.isEvenEntry_canonical` — the canonical text of a tree is spaced evenly.
* `TypeRef.render_readTrimmed` — **an evenly spaced text is rendered as it was read.**
-/

namespace RpcBinder

/-! ### Even spacing -/

/-- The character `d` may stand behind `c`: there is one space behind every comma, and apart from
that no white space at brackets, question marks, commas and other white space. -/
def MayFollow (c d : Char) : Prop :=
  (isSpace c = true → isSpace d = false ∧ d ∉ ['?', '<', '>', ',']) ∧
    (c = ',' → d = ' ') ∧ (c = '<' → isSpace d = false ∧ d ≠ ',')

instance (c d : Char) : Decidable (MayFollow c d) :=
  inferInstanceAs (Decidable (_ ∧ _))

/-- The text is spaced evenly, with neither white space nor a comma at its ends. -/
structure IsEven (text : List Char) : Prop where
  chain : text.IsChain MayFollow
  head : ∀ c ∈ text.head?, isSpace c = false ∧ c ≠ ','
  last : ∀ c ∈ text.getLast?, isSpace c = false ∧ c ≠ ','

namespace IsEven

variable {s t text : List Char}

theorem isSolid (h : IsEven text) (hne : text ≠ []) : IsSolid text :=
  ⟨⟨_, List.head?_eq_some_head hne, (h.head _ (List.head?_eq_some_head hne)).1⟩,
    ⟨_, List.getLast?_eq_some_getLast hne, (h.last _ (List.getLast?_eq_some_getLast hne)).1⟩⟩

theorem trim_eq (h : IsEven text) : trim text = text := by
  by_cases hne : text = []
  · rw [hne]
    rfl
  · exact trim_of_isSolid (h.isSolid hne)

/-- What is cut out of an even text is even, if the cuts are where white space has no place. -/
theorem middle (h : IsEven (s ++ (text ++ t))) (hs : ∀ c ∈ s.getLast?, c = ' ' ∨ c = '<')
    (ht : ∀ c ∈ t.head?, c ∈ ['?', '<', '>', ',']) : IsEven text := by
  have hfront : (s ++ text).IsChain MayFollow := by
    have hchain := h.chain
    rw [← List.append_assoc] at hchain
    exact hchain.left_of_append
  have hback : (text ++ t).IsChain MayFollow := h.chain.right_of_append
  refine ⟨hback.left_of_append, fun c hc => ?_, fun c hc => ?_⟩
  · -- the text begins the whole, or stands behind a blank or an angle bracket
    cases hlast : s.getLast? with
    | none =>
      obtain rfl := List.getLast?_eq_none_iff.1 hlast
      refine h.head c ?_
      rw [List.nil_append, List.head?_append, Option.mem_def.1 hc]
      rfl
    | some d =>
      have hfollow : MayFollow d c := (List.isChain_append.1 hfront).2.2 d hlast c hc
      rcases hs d hlast with rfl | rfl
      · obtain ⟨hspace, hmark⟩ := hfollow.1 (by decide)
        refine ⟨hspace, ?_⟩
        rintro rfl
        exact hmark (by decide)
      · exact hfollow.2.2 rfl
  · -- the text ends the whole, or stands in front of a mark
    cases hhead : t.head? with
    | none =>
      obtain rfl := List.head?_eq_none_iff.1 hhead
      refine h.last c ?_
      rw [List.append_nil, List.getLast?_append, Option.mem_def.1 hc]
      rfl
    | some d =>
      have hfollow : MayFollow c d := (List.isChain_append.1 hback).2.2 c hc d hhead
      have hmark := ht d hhead
      refine ⟨?_, fun hcomma => ?_⟩
      · rw [Bool.eq_false_iff]
        exact fun hspace => (hfollow.1 hspace).2 hmark
      · rw [hfollow.2.1 hcomma] at hmark
        exact absurd hmark (by decide)

end IsEven

/-! ### Texts behind commas -/

/-- Texts, each of them behind a comma and a space. -/
def behindCommas (texts : List (List Char)) : List Char :=
  texts.flatMap fun text => ',' :: ' ' :: text

theorem behindCommas_cons (text : List Char) (texts : List (List Char)) :
    behindCommas (text :: texts) = ',' :: ' ' :: (text ++ behindCommas texts) := rfl

theorem behindCommas_append (texts others : List (List Char)) :
    behindCommas (texts ++ others) = behindCommas texts ++ behindCommas others :=
  List.flatMap_append

theorem head?_behindCommas (texts : List (List Char)) :
    ∀ c ∈ (behindCommas texts).head?, c = ',' := by
  cases texts with
  | nil => exact nofun
  | cons text texts =>
    rintro c ⟨⟩
    rfl

theorem intercalate_eq_append_behindCommas (text : List Char) (texts : List (List Char)) :
    [',', ' '].intercalate (text :: texts) = text ++ behindCommas texts := by
  induction texts generalizing text with
  | nil => simp [behindCommas]
  | cons other texts ih =>
    rw [List.intercalate_cons_cons, ih, behindCommas_cons]
    simp

/-- A text whose commas have a space behind them is made up of its pieces, each but the first behind
a comma and with a space at its front. -/
theorem pieces_of_isChain {text : List Char} (hchain : text.IsChain MayFollow)
    (hlast : ∀ c ∈ text.getLast?, c ≠ ',') (depth : Nat) (dash : Bool) :
    ∃ first others, Lexis.pieces depth dash text = first :: others.map (' ' :: ·) ∧
      text = first ++ behindCommas others := by
  induction text generalizing depth dash with
  | nil => exact ⟨[], [], rfl, rfl⟩
  | cons c rest ih =>
    have hrest : ∀ d ∈ rest.getLast?, d ≠ ',' := by
      intro d hd
      refine hlast d ?_
      rw [List.getLast?_cons, Option.mem_def.1 hd]
      rfl
    rw [Lexis.pieces]
    split
    · next hcut =>
      obtain rfl : c = ',' := by
        rw [Bool.and_eq_true, beq_iff_eq] at hcut
        exact hcut.1
      obtain ⟨first, others, hpieces, htext⟩ := ih hchain.tail hrest 0 false
      cases rest with
      | nil => exact absurd rfl (hlast ',' rfl)
      | cons d rest =>
        obtain rfl : d = ' ' := (List.isChain_cons_cons.1 hchain).1.2.1 rfl
        -- the space behind the comma is at the front of the next piece
        cases first with
        | nil =>
          rw [List.nil_append] at htext
          have hhead : ' ' ∈ (behindCommas others).head? := by
            rw [← htext]
            rfl
          exact absurd (head?_behindCommas others ' ' hhead) (by decide)
        | cons d first =>
          obtain ⟨rfl, -⟩ := List.cons.inj htext
          refine ⟨[], first :: others, by rw [hpieces]; rfl, ?_⟩
          rw [htext, List.nil_append, behindCommas_cons, List.cons_append]
    · obtain ⟨first, others, hpieces, htext⟩ :=
        ih hchain.tail hrest (Lexis.nest depth dash c) (c == '-')
      refine ⟨c :: first, others, by rw [hpieces], ?_⟩
      rw [htext, List.cons_append]

/-- What stands between two commas of an even text is even and not empty. -/
theorem IsEven.entry {s text t : List Char} (h : IsEven (s ++ ',' :: ' ' :: (text ++ t)))
    (ht : ∀ c ∈ t.head?, c = ',') : IsEven text ∧ text ≠ [] := by
  constructor
  · have hsplit : s ++ ',' :: ' ' :: (text ++ t) = (s ++ [',', ' ']) ++ (text ++ t) := by simp
    rw [hsplit] at h
    refine h.middle ?_ ?_
    · rw [List.getLast?_append]
      rintro c ⟨⟩
      exact Or.inl rfl
    · intro c hc
      rw [ht c hc]
      decide
  · -- without an entry the blank would end the text or stand in front of a comma
    rintro rfl
    cases t with
    | nil =>
      have hspace := (h.last ' ' (by simp)).1
      exact absurd hspace (by decide)
    | cons c t =>
      obtain rfl : c = ',' := ht c rfl
      have hchain := (List.isChain_append.1 h.chain).2.1
      have hfollow : MayFollow ' ' ',' := (List.isChain_cons_cons.1 hchain.tail).1
      exact absurd hfollow (by decide)

/-- The entries of an even text are even, and joined by commas and spaces they are the text. -/
theorem IsEven.splitTopLevel {inner : List Char} (h : IsEven inner) :
    (∀ entry ∈ Lexis.splitTopLevel inner, IsEven entry) ∧
      [',', ' '].intercalate (Lexis.splitTopLevel inner) = inner := by
  by_cases hne : inner = []
  · subst hne
    exact ⟨nofun, rfl⟩
  obtain ⟨first, others, hpieces, htext⟩ :=
    pieces_of_isChain h.chain (fun c hc => (h.last c hc).2) 0 false
  have hfirst : IsEven first ∧ first ≠ [] := by
    have heven : IsEven ([] ++ (first ++ behindCommas others)) := htext ▸ h
    constructor
    · refine heven.middle nofun fun c hc => ?_
      rw [head?_behindCommas others c hc]
      decide
    · rintro rfl
      -- the text begins with a comma, or it is empty
      cases others with
      | nil => exact hne htext
      | cons other others => exact (heven.head ',' rfl).2 rfl
  have hother : ∀ other ∈ others, IsEven other ∧ other ≠ [] := by
    intro other hmem
    obtain ⟨before, after, rfl⟩ := List.append_of_mem hmem
    rw [behindCommas_append, behindCommas_cons, ← List.append_assoc] at htext
    rw [htext] at h
    exact h.entry (head?_behindCommas after)
  have hentries : Lexis.splitTopLevel inner = first :: others := by
    refine Lexis.splitTopLevel_of_pieces hpieces ?_ ?_
    · refine List.Forall₂.cons (isPadded_refl first) ?_
      rw [List.forall₂_map_right_iff]
      exact List.forall₂_same.2 fun text _ => isPadded_cons_space text
    · exact List.forall_mem_cons.2 ⟨hfirst.1.isSolid hfirst.2,
        fun other hmem => (hother other hmem).1.isSolid (hother other hmem).2⟩
  rw [hentries, intercalate_eq_append_behindCommas]
  exact ⟨List.forall_mem_cons.2 ⟨hfirst.1, fun other hmem => (hother other hmem).1⟩, htext.symm⟩

/-! ### Even entries -/

/-- A character that may stand behind any other but a comma. -/
def isFront (c : Char) : Bool := !isSpace c && !(['?', '<', '>', ','].contains c)

/-- A character behind which any other may stand. -/
def isBack (c : Char) : Bool := !isSpace c && !(['<', ','].contains c)

theorem mayFollow_of_isFront {c d : Char} (hc : c ≠ ',') (hd : isFront d = true) :
    MayFollow c d := by
  rw [isFront, Bool.and_eq_true, Bool.not_eq_true', Bool.not_eq_true', List.contains_eq_mem,
    decide_eq_false_iff_not] at hd
  refine ⟨fun _ => hd, fun heq => absurd heq hc, fun _ => ⟨hd.1, ?_⟩⟩
  rintro rfl
  exact hd.2 (by decide)

theorem mayFollow_of_isBack {c : Char} (hc : isBack c = true) (d : Char) : MayFollow c d := by
  refine ⟨fun hspace => ?_, fun heq => ?_, fun heq => ?_⟩
  · rw [isBack, hspace] at hc
    cases hc
  · exact absurd heq (ne_of_class hc (by decide))
  · exact absurd heq (ne_of_class hc (by decide))

/-- A text that is spaced evenly and may stand between brackets, commas and spaces. -/
structure IsEvenEntry (text : List Char) : Prop where
  chain : text.IsChain MayFollow
  front : ∃ c, text.head? = some c ∧ isFront c = true
  back : ∃ c, text.getLast? = some c ∧ isBack c = true

namespace IsEvenEntry

variable {text rest : List Char}

theorem isEven (h : IsEvenEntry text) : IsEven text := by
  obtain ⟨c, hc, hfront⟩ := h.front
  obtain ⟨d, hd, hback⟩ := h.back
  refine ⟨h.chain, fun c' hc' => ?_, fun d' hd' => ?_⟩
  · obtain rfl : c = c' := Option.some.inj (hc.symm.trans hc')
    have hcomma : c ≠ ',' := ne_of_class hfront (by decide)
    rw [isFront, Bool.and_eq_true, Bool.not_eq_true'] at hfront
    exact ⟨hfront.1, hcomma⟩
  · obtain rfl : d = d' := Option.some.inj (hd.symm.trans hd')
    have hcomma : d ≠ ',' := ne_of_class hback (by decide)
    rw [isBack, Bool.and_eq_true, Bool.not_eq_true'] at hback
    exact ⟨hback.1, hcomma⟩

theorem front_append (h : IsEvenEntry text) (rest : List Char) :
    ∃ c, (text ++ rest).head? = some c ∧ isFront c = true := by
  obtain ⟨c, hc, hfront⟩ := h.front
  exact ⟨c, by rw [List.head?_append, hc]; rfl, hfront⟩

theorem back_append (h : IsEvenEntry text) (s : List Char) :
    ∃ c, (s ++ text).getLast? = some c ∧ isBack c = true := by
  obtain ⟨c, hc, hback⟩ := h.back
  exact ⟨c, by rw [List.getLast?_append, hc]; rfl, hback⟩

/-- Anything may stand behind an entry. -/
theorem isChain_append (h : IsEvenEntry text) (hrest : rest.IsChain MayFollow) :
    (text ++ rest).IsChain MayFollow := by
  obtain ⟨c, hc, hback⟩ := h.back
  refine List.isChain_append.2 ⟨h.chain, hrest, fun c' hc' d _ => ?_⟩
  obtain rfl : c = c' := Option.some.inj (hc.symm.trans hc')
  exact mayFollow_of_isBack hback d

/-- An entry may stand behind anything but a comma. -/
theorem isChain_cons_append {c : Char} (hc : c ≠ ',') (h : IsEvenEntry text)
    (hrest : rest.IsChain MayFollow) : (c :: (text ++ rest)).IsChain MayFollow := by
  obtain ⟨d, hd, hfront⟩ := h.front
  refine List.isChain_cons.2 ⟨fun d' hd' => ?_, h.isChain_append hrest⟩
  rw [List.head?_append, hd] at hd'
  obtain rfl : d = d' := Option.some.inj hd'
  exact mayFollow_of_isFront hc hfront

end IsEvenEntry

theorem isChain_behindCommas {texts : List (List Char)} (h : ∀ text ∈ texts, IsEvenEntry text)
    {rest : List Char} (hrest : rest.IsChain MayFollow) :
    (behindCommas texts ++ rest).IsChain MayFollow := by
  induction texts with
  | nil => exact hrest
  | cons text texts ih =>
    obtain ⟨htext, htexts⟩ := List.forall_mem_cons.1 h
    rw [behindCommas_cons, List.cons_append, List.cons_append, List.append_assoc]
    exact List.isChain_cons_cons.2
      ⟨by decide, htext.isChain_cons_append (by decide) (ih htexts)⟩

/-- Entries may be put between brackets. -/
theorem isChain_intercalate {texts : List (List Char)} (h : ∀ text ∈ texts, IsEvenEntry text)
    {c d : Char} {rest : List Char} (hc : c ≠ ',') (hcd : MayFollow c d)
    (hrest : (d :: rest).IsChain MayFollow) :
    (c :: ([',', ' '].intercalate texts ++ d :: rest)).IsChain MayFollow := by
  cases texts with
  | nil => exact List.isChain_cons_cons.2 ⟨hcd, hrest⟩
  | cons text texts =>
    obtain ⟨htext, htexts⟩ := List.forall_mem_cons.1 h
    rw [intercalate_eq_append_behindCommas, List.append_assoc]
    exact htext.isChain_cons_append hc (isChain_behindCommas htexts hrest)

theorem isFront_of_isTypeNameChar {c : Char} (h : isTypeNameChar c = true) : isFront c = true := by
  have hmarks : ['?', '<', '>', ','].contains c = false :=
    contains_eq_false_of_class (by decide) h
  rw [isFront, isSpace_of_isTypeNameChar h, hmarks]
  rfl

theorem isBack_of_isTypeNameChar {c : Char} (h : isTypeNameChar c = true) : isBack c = true := by
  have hmarks : ['<', ','].contains c = false := contains_eq_false_of_class (by decide) h
  rw [isBack, isSpace_of_isTypeNameChar h, hmarks]
  rfl

theorem IsTypeName.isEvenEntry {name : List Char} (h : IsTypeName name) : IsEvenEntry name := by
  have hchain : ∀ text ⊆ name, text.IsChain MayFollow := by
    intro text htext
    induction text with
    | nil => exact List.isChain_nil
    | cons c text ih =>
      obtain ⟨hc, htext⟩ := List.cons_subset.1 htext
      have hback := isBack_of_isTypeNameChar (h.forall_char c hc)
      exact List.isChain_cons.2 ⟨fun d _ => mayFollow_of_isBack hback d, ih htext⟩
  exact ⟨hchain name (List.Subset.refl _),
    ⟨_, List.head?_eq_some_head h.ne_nil,
      isFront_of_isTypeNameChar (h.forall_char _ (List.head_mem h.ne_nil))⟩,
    ⟨_, List.getLast?_eq_some_getLast h.ne_nil,
      isBack_of_isTypeNameChar (h.forall_char _ (List.getLast_mem h.ne_nil))⟩⟩

theorem isEvenEntry_keyword_append (variance : Variance) {text : List Char}
    (h : IsEvenEntry text) : IsEvenEntry (variance.keyword ++ text) := by
  have hspace : (' ' :: text).IsChain MayFollow := by
    have hchain := h.isChain_cons_append (by decide : ' ' ≠ ',') List.isChain_nil
    rwa [List.append_nil] at hchain
  cases variance with
  | producer =>
    have hword : IsTypeName ['o', 'u', 't'] := by decide
    have hchain := hword.isEvenEntry.isChain_append hspace
    exact ⟨hchain, ⟨'o', rfl, by decide⟩, h.back_append Variance.producer.keyword⟩
  | consumer =>
    have hword : IsTypeName ['i', 'n'] := by decide
    have hchain := hword.isEvenEntry.isChain_append hspace
    exact ⟨hchain, ⟨'i', rfl, by decide⟩, h.back_append Variance.consumer.keyword⟩

/-- The canonical text of a tree is an even entry. -/
theorem TypeTree.isEvenEntry_canonical {type : TypeTree} (hwf : type.IsWellFormed) :
    IsEvenEntry type.canonical := by
  induction type with
  | star => exact ⟨List.isChain_singleton _, ⟨'*', rfl, by decide⟩, ⟨'*', rfl, by decide⟩⟩
  | named name => exact hwf.named.isEvenEntry
  | generic base first others ih =>
    have hbase := hwf.base.isEvenEntry
    have harguments : ∀ text ∈ (first :: others).map canonical, IsEvenEntry text := by
      intro text htext
      obtain ⟨type, htype, rfl⟩ := List.mem_map.1 htext
      exact ih type htype (hwf.argument type htype)
    have hinner : ('<' :: ([',', ' '].intercalate ((first :: others).map canonical) ++
        ['>'])).IsChain MayFollow :=
      isChain_intercalate harguments (by decide) (by decide) (List.isChain_singleton _)
    have htext : (generic base first others).canonical =
        base ++ '<' :: ([',', ' '].intercalate ((first :: others).map canonical) ++ ['>']) := by
      rw [canonical, text, textAll_eq, List.map_cons]
      rfl
    rw [htext]
    refine ⟨hbase.isChain_append hinner, hbase.front_append _, ⟨'>', ?_, by decide⟩⟩
    rw [← List.cons_append, ← List.append_assoc, List.getLast?_concat]
  | nullable type ih =>
    have htype := ih hwf.nullable
    exact ⟨htype.isChain_append (List.isChain_singleton '?'), htype.front_append ['?'],
      ⟨'?', List.getLast?_concat, by decide⟩⟩
  | projected variance type ih =>
    rw [canonical, text_projected]
    exact isEvenEntry_keyword_append variance (ih hwf.projected)

/-! ### Reading an even text -/

namespace TypeRef

theorem eq_of_shape_nullable {text rest : List Char} (h : shape text = .nullable rest) :
    text = rest ++ ['?'] := by
  simp only [shape] at h
  repeat' split at h
  all_goals try cases h
  next hmark =>
    obtain ⟨front, hfront⟩ := List.getLast?_eq_some_iff.1 (eq_of_beq hmark)
    rw [hfront, List.dropLast_concat]

theorem eq_of_variance? {text rest : List Char} {variance : Variance}
    (h : variance? text = some (variance, rest)) : text = variance.keyword ++ rest := by
  rw [variance?] at h
  split at h
  · next hprefix =>
    obtain ⟨rfl, rfl⟩ := Prod.mk.inj (Option.some.inj h)
    exact (List.isPrefixOf?_eq_some_iff_append_eq.1 hprefix).symm
  · obtain ⟨found, hprefix, heq⟩ := Option.map_eq_some_iff.1 h
    obtain ⟨rfl, rfl⟩ := Prod.mk.inj heq
    exact (List.isPrefixOf?_eq_some_iff_append_eq.1 hprefix).symm

theorem eq_of_shape_projected {text rest : List Char} {variance : Variance}
    (h : shape text = .projected variance rest) : text = variance.keyword ++ rest := by
  simp only [shape] at h
  repeat' split at h
  all_goals try cases h
  next hvariance => exact eq_of_variance? hvariance

theorem eq_of_shape_generic {text base inner tail : List Char}
    (h : shape text = .generic base inner tail) :
    text = base ++ '<' :: (inner ++ '>' :: tail) := by
  simp only [shape] at h
  repeat' split at h
  all_goals try cases h
  have hparts : ∃ after, splitFirst? '<' text = some (base, after) ∧
      splitLast? '>' after = some (inner, tail) := ⟨_, by assumption, by assumption⟩
  obtain ⟨after, hopen, hclose⟩ := hparts
  rw [eq_append_of_splitFirst? hopen, eq_append_of_splitLast? hclose]

/-- **An evenly spaced text is rendered as it was read.** -/
theorem render_readTrimmed {text : List Char} (h : IsEven text) :
    (readTrimmed text).render = text := by
  -- strong induction on the length, as the parts of a text are shorter than the text
  induction hlength : text.length using Nat.strong_induction_on generalizing text with
  | _ n ih =>
  subst hlength
  cases hshape : shape text with
  | verbatim => rw [readTrimmed_of_verbatim hshape, render_verbatim]
  | named => rw [readTrimmed_of_named hshape, render_named]
  | generic base inner tail =>
    have htext := eq_of_shape_generic hshape
    -- what stands within an evenly spaced text is evenly spaced
    have hbase : IsEven base := by
      have heven : IsEven ([] ++ (base ++ '<' :: (inner ++ '>' :: tail))) := htext ▸ h
      refine heven.middle nofun ?_
      rintro c ⟨⟩
      decide
    have hinner : IsEven inner := by
      have hsplit : text = (base ++ ['<']) ++ (inner ++ '>' :: tail) := by
        rw [htext]
        simp
      rw [hsplit] at h
      refine h.middle ?_ ?_
      · rw [List.getLast?_concat]
        rintro c ⟨⟩
        exact Or.inr rfl
      · rintro c ⟨⟩
        decide
    obtain ⟨hentries, hjoin⟩ := hinner.splitTopLevel
    have hrender : ((Lexis.splitTopLevel inner).map readTrimmed).map render =
        Lexis.splitTopLevel inner := by
      rw [List.map_map]
      conv_rhs => rw [← List.map_id (Lexis.splitTopLevel inner)]
      refine List.map_congr_left fun entry hmem => ?_
      have hshorter : entry.length < text.length :=
        Nat.lt_of_le_of_lt (Lexis.length_le_of_mem_splitTopLevel hmem)
          (length_of_shape_generic hshape)
      exact ih _ hshorter (hentries entry hmem) rfl
    rw [readTrimmed_of_generic hshape, render_generic, renderAll_eq, hrender, hjoin, hbase.trim_eq,
      ← htext]
  | nullable rest =>
    have htext := eq_of_shape_nullable hshape
    have hrest : IsEven rest := by
      have heven : IsEven ([] ++ (rest ++ ['?'])) := htext ▸ h
      refine heven.middle nofun ?_
      rintro c ⟨⟩
      decide
    have hrender := ih _ (length_of_shape_nullable hshape) hrest rfl
    rw [readTrimmed_of_nullable hshape, render_nullable, hrest.trim_eq, hrender, ← htext]
  | projected variance rest =>
    have htext := eq_of_shape_projected hshape
    have hrest : IsEven rest := by
      have heven : IsEven (variance.keyword ++ (rest ++ [])) := by
        rw [List.append_nil, ← htext]
        exact h
      refine heven.middle ?_ nofun
      cases variance with
      | producer =>
        rintro c ⟨⟩
        exact Or.inl rfl
      | consumer =>
        rintro c ⟨⟩
        exact Or.inl rfl
    have hrender := ih _ (length_of_shape_projected hshape) hrest rfl
    rw [readTrimmed_of_projected hshape, render_projected, hrest.trim_eq, hrender, ← htext]

end TypeRef

end RpcBinder
