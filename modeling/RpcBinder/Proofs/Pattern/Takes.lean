import Mathlib.Data.List.TakeWhile
import RpcBinder.Proofs.Pattern.Captures

/-!
# What a pattern may take

Going back belongs to how a match is found, not to what it is.  `Takes` says which stretches of a
text a pattern may take, whatever it prefers, and which parts of them it names.  Every match that
is found is one of these.

## Main definitions

* `EndsLine` — a first part of a text behind which a line begins.
* `Cursor.LiesBehind` — a place behind a first part of a text.
* `Pattern.Takes` — the pattern may take a stretch of text from a place on.
* `Pattern.Begins` — whatever a pattern takes begins with what another one takes.

## Main results

* `Pattern.Within.takes_of_run` — a match takes what its pattern may take.
* `Pattern.exists_takes_of_mem_findAll` — so does every match in a text, and it lies in the text.
* `Pattern.pairwise_findAll` — the matches in a text are found in order.
* `Pattern.mem_findAll` — a match is found unless one before it reaches beyond its begin.
-/

namespace RpcBinder

variable {κ : Type}

/-! ### Places of a text -/

/-- A line begins behind the text. -/
def EndsLine (before : List Char) : Prop := ∀ c ∈ before.getLast?, c = '\n'

instance : DecidablePred EndsLine := fun before =>
  decidable_of_iff (before.getLast?.all (· == '\n') = true) (by simp [EndsLine, Option.all_eq_true])

namespace Cursor

/-- The place lies behind a first part of a text. -/
structure LiesBehind (place : Cursor) (before text : List Char) : Prop where
  text_eq : before ++ place.rest = text
  atLineStart_iff : place.atLineStart = true ↔ EndsLine before

namespace LiesBehind

variable {place : Cursor} {before text : List Char}

theorem ofText (text : List Char) : (ofText text).LiesBehind [] text :=
  ⟨rfl, by simp [Cursor.ofText, EndsLine]⟩

/-- The place after a character lies behind this character. -/
theorem of_next? (h : place.LiesBehind before text) {c : Char} {next : Cursor}
    (hnext : place.next? = some (c, next)) : next.LiesBehind (before ++ [c]) text := by
  obtain ⟨atLineStart, rest, left, hleft⟩ := place
  cases rest with
  | nil => cases hnext
  | cons d rest =>
    obtain ⟨rfl, rfl⟩ := Prod.mk.inj (Option.some.inj hnext)
    exact ⟨by simpa using h.text_eq, by simp [EndsLine]⟩

theorem behind (h : place.LiesBehind before text) {s rest : List Char}
    (hs : place.rest = s ++ rest) : (place.behind s).LiesBehind (before ++ s) text := by
  induction s generalizing place before with
  | nil => simpa using h
  | cons c s ih =>
    obtain ⟨next, hnext, hrest⟩ := exists_next?_of_rest hs
    rw [behind_cons hnext, ← List.singleton_append, ← List.append_assoc]
    exact ih (h.of_next? hnext) hrest

/-- What is left from the place on ends where the text does. -/
theorem byteLength_eq (h : place.LiesBehind before text) :
    byteLength text - place.left = byteLength before := by
  rw [← h.text_eq, byteLength_append, place.left_eq, Nat.add_sub_cancel]

end LiesBehind

/-- The places onward are the places behind what may come first. -/
theorem mem_onward_iff {place later : Cursor} :
    later ∈ place.onward ↔ ∃ s rest, place.rest = s ++ rest ∧ later = place.behind s := by
  fun_induction Cursor.onward place with
  | case1 place c next hnext ih =>
    have hrest : place.rest = c :: next.rest := by
      obtain ⟨atLineStart, _ | ⟨d, rest⟩, left, hleft⟩ := place
      · cases hnext
      · obtain ⟨rfl, rfl⟩ := Prod.mk.inj (Option.some.inj hnext)
        rfl
    rw [List.mem_cons, ih]
    constructor
    · rintro (rfl | ⟨s, rest, hs, rfl⟩)
      · exact ⟨[], _, rfl, rfl⟩
      · exact ⟨c :: s, rest, by rw [hrest, hs]; rfl, (behind_cons hnext c s).symm⟩
    · rintro ⟨_ | ⟨d, s⟩, rest, hs, rfl⟩
      · exact Or.inl rfl
      · rw [hrest] at hs
        exact Or.inr ⟨s, rest, (List.cons.inj hs).2, behind_cons hnext d s⟩
  | case2 place hnext =>
    have hrest : place.rest = [] := by
      obtain ⟨atLineStart, _ | ⟨d, rest⟩, left, hleft⟩ := place
      · rfl
      · cases hnext
    rw [List.mem_singleton]
    constructor
    · rintro rfl
      exact ⟨[], _, rfl, rfl⟩
    · rintro ⟨s, rest, hs, rfl⟩
      obtain ⟨rfl, -⟩ := List.append_eq_nil_iff.1 (hs.symm.trans hrest)
      rfl

/-- Every place onward from the start of a text lies behind a first part of it. -/
theorem exists_liesBehind {text : List Char} {place : Cursor}
    (h : place ∈ (ofText text).onward) : ∃ before, place.LiesBehind before text := by
  obtain ⟨before, rest, hbefore, rfl⟩ := mem_onward_iff.1 h
  exact ⟨before, (LiesBehind.ofText text).behind hbefore⟩

/-- There is a place behind every first part of a text. -/
theorem exists_mem_onward {before rest text : List Char} (h : before ++ rest = text) :
    ∃ place ∈ (ofText text).onward, place.LiesBehind before text ∧ place.rest = rest := by
  have hstart : (ofText text).rest = before ++ rest := h.symm
  exact ⟨(ofText text).behind before, mem_onward_iff.2 ⟨before, rest, hstart, rfl⟩,
    (LiesBehind.ofText text).behind hstart, rest_behind hstart⟩

end Cursor

namespace Pattern

/-! ### Stretches that may be taken -/

/-- The pattern may take a stretch of text from a place on, and names these parts of it. -/
inductive Takes : Pattern κ → Cursor → List Char → List (κ × List Char) → Prop
  | empty {place : Cursor} : Takes empty place [] []
  | lineStart {place : Cursor} (h : place.atLineStart = true) : Takes lineStart place [] []
  | lineEnd {place : Cursor} (h : place.atLineEnd = true) : Takes lineEnd place [] []
  | one {p : Char → Bool} {place : Cursor} {c : Char} (h : p c = true) : Takes (one p) place [c] []
  | stretch {p : Char → Bool} {place : Cursor} {s : List Char} (h : ∀ c ∈ s, p c = true) :
      Takes (stretch p) place s []
  | seq {first second : Pattern κ} {place : Cursor} {s t : List Char}
      {parts others : List (κ × List Char)} (hfirst : Takes first place s parts)
      (hsecond : Takes second (place.behind s) t others) :
      Takes (seq first second) place (s ++ t) (parts ++ others)
  | left {first second : Pattern κ} {place : Cursor} {s : List Char}
      {parts : List (κ × List Char)} (h : Takes first place s parts) :
      Takes (either first second) place s parts
  | right {first second : Pattern κ} {place : Cursor} {s : List Char}
      {parts : List (κ × List Char)} (h : Takes second place s parts) :
      Takes (either first second) place s parts
  | stop {body : Pattern κ} {place : Cursor} : Takes (many body) place [] []
  | round {body : Pattern κ} {place : Cursor} {s t : List Char}
      {parts others : List (κ × List Char)} (hround : Takes body place s parts)
      (hrest : Takes (many body) (place.behind s) t others) :
      Takes (many body) place (s ++ t) (parts ++ others)
  | part {name : κ} {body : Pattern κ} {place : Cursor} {s : List Char}
      (h : Takes body place s []) : Takes (part name body) place s [(name, s)]

section Inversion

variable {p : Char → Bool} {first second body : Pattern κ} {place : Cursor} {s : List Char}
  {parts : List (κ × List Char)}

theorem takes_seq : (first ++ second).Takes place s parts ↔
    ∃ t u ps qs, s = t ++ u ∧ parts = ps ++ qs ∧ first.Takes place t ps ∧
      second.Takes (place.behind t) u qs := by
  constructor
  · intro h
    cases h with
    | seq hfirst hsecond => exact ⟨_, _, _, _, rfl, rfl, hfirst, hsecond⟩
  · rintro ⟨t, u, ps, qs, rfl, rfl, hfirst, hsecond⟩
    exact .seq hfirst hsecond

/-- Whatever the pattern takes begins with what another one takes. -/
def Begins (front pattern : Pattern κ) : Prop :=
  ∀ place s parts, pattern.Takes place s parts →
    ∃ t u ps, s = t ++ u ∧ front.Takes place t ps

theorem begins_refl (pattern : Pattern κ) : Begins pattern pattern :=
  fun _ s parts h => ⟨s, [], parts, (List.append_nil s).symm, h⟩

theorem Begins.seq {front first : Pattern κ} (h : Begins front first) (second : Pattern κ) :
    Begins front (first ++ second) := by
  intro place s parts hseq
  obtain ⟨t, u, ps, qs, rfl, -, hfirst, -⟩ := takes_seq.1 hseq
  obtain ⟨t, v, ps, rfl, hfront⟩ := h _ _ _ hfirst
  exact ⟨t, v ++ u, ps, List.append_assoc t v u, hfront⟩

/-- A repetition takes one round after the other. -/
theorem Takes.exists_rounds (h : (many body).Takes place s parts) :
    ∃ rounds : List (List Char), s = rounds.flatten ∧
      ∀ round ∈ rounds, ∃ place parts, body.Takes place round parts := by
  generalize hpattern : many body = pattern at h
  induction h with
  | stop => exact ⟨[], rfl, List.forall_mem_nil _⟩
  | @round body' place s t parts others hround _ _ ih =>
    obtain ⟨rounds, rfl, hrounds⟩ := ih hpattern
    cases hpattern
    exact ⟨s :: rounds, rfl, List.forall_mem_cons.2 ⟨⟨_, _, hround⟩, hrounds⟩⟩
  | _ => cases hpattern

theorem Takes.of_literal {word : List Char} (h : (literal word).Takes place s parts) :
    s = word := by
  induction word generalizing place s parts with
  | nil =>
    cases h
    rfl
  | cons c word ih =>
    cases word with
    | nil =>
      cases h with
      | one hc => rw [eq_of_beq hc]
    | cons d word =>
      rw [literal_cons_cons] at h
      obtain ⟨t, u, ps, qs, rfl, -, hfirst, hsecond⟩ := takes_seq.1 h
      cases hfirst with
      | one hc => rw [eq_of_beq hc, ih hsecond, List.singleton_append]

theorem Takes.of_anyOf {words : List String} (h : (anyOf words).Takes place s parts) :
    ∃ word ∈ words, s = word.toList := by
  induction words with
  | nil =>
    cases h with
    | one hc => cases hc
  | cons word words ih =>
    cases words with
    | nil => exact ⟨word, List.mem_cons_self, Takes.of_literal h⟩
    | cons other words =>
      cases h with
      | left h => exact ⟨word, List.mem_cons_self, Takes.of_literal h⟩
      | right h =>
        obtain ⟨word, hmem, heq⟩ := ih h
        exact ⟨word, List.mem_cons_of_mem _ hmem, heq⟩

/-- What a pattern takes is nothing but its parts where no name has a class. -/
theorem Takes.parts_eq_nil {pattern : Pattern κ} {q : Char → Bool}
    (h : pattern.Takes place s parts) (hwithin : pattern.Within q fun _ => none) : parts = [] := by
  induction h with
  | seq _ _ ihfirst ihsecond => rw [ihfirst hwithin.1, ihsecond hwithin.2]; rfl
  | left _ ih => exact ih hwithin.1
  | right _ ih => exact ih hwithin.2
  | round _ _ ihround ihrest => rw [ihround hwithin, ihrest hwithin]; rfl
  | part _ _ =>
    obtain ⟨r, hr, -⟩ := hwithin
    cases hr
  | _ => rfl

/-- A pattern within a class takes characters of it. -/
theorem Takes.forall_char {pattern : Pattern κ} {q : Char → Bool} {r : κ → Option (Char → Bool)}
    (h : pattern.Takes place s parts) (hwithin : pattern.Within q r) : ∀ c ∈ s, q c = true := by
  induction h generalizing q r with
  | one hc => exact List.forall_mem_singleton.2 (hwithin _ hc)
  | stretch hall => exact fun c hc => hwithin c (hall c hc)
  | seq _ _ ihfirst ihsecond =>
    exact List.forall_mem_append.2 ⟨ihfirst hwithin.1, ihsecond hwithin.2⟩
  | left _ ih => exact ih hwithin.1
  | right _ ih => exact ih hwithin.2
  | round _ _ ihround ihrest =>
    exact List.forall_mem_append.2 ⟨ihround hwithin, ihrest hwithin⟩
  | part _ ih =>
    obtain ⟨_, -, hbody⟩ := hwithin
    exact fun c hc => (Bool.and_eq_true_iff.1 (ih hbody c hc)).1
  | _ => exact List.forall_mem_nil _

end Inversion

/-! ### Matches -/

section Matches

variable {pattern first second body : Pattern κ} {place : Cursor}
  {follow further : Cursor → Option (Trail κ)} {trail : Trail κ} {q : Char → Bool}
  {p : κ → Option (Char → Bool)}

/-- A trail goes over a stretch of text that may be taken, and on behind it. -/
def Traces (takes : List Char → List (κ × List Char) → Prop) (place : Cursor)
    (follow : Cursor → Option (Trail κ)) (trail : Trail κ) : Prop :=
  ∃ s rest spans later, place.rest = s ++ rest ∧ takes s (partTexts spans) ∧
    follow (place.behind s) = some later ∧ trail = later.record spans

theorem Traces.here {takes : List Char → List (κ × List Char) → Prop} (htakes : takes [] [])
    (h : follow place = some trail) : Traces takes place follow trail :=
  ⟨[], place.rest, [], trail, rfl, htakes, h, rfl⟩

/-- One stretch may be taken after the other. -/
theorem Traces.trans {before takes : List Char → List (κ × List Char) → Prop}
    {later : Cursor → List Char → List (κ × List Char) → Prop}
    (h : Traces before place further trail)
    (hfurther : ∀ next trail, further next = some trail → Traces (later next) next follow trail)
    (htakes : ∀ s t parts others, before s parts → later (place.behind s) t others →
      takes (s ++ t) (parts ++ others)) : Traces takes place follow trail := by
  obtain ⟨s, rest, spans, between, hplace, hs, hbetween, rfl⟩ := h
  obtain ⟨t, rest', spans', last, hnext, ht, hlast, rfl⟩ := hfurther _ _ hbetween
  rw [Cursor.rest_behind hplace] at hnext
  subst hnext
  refine ⟨s ++ t, rest', spans ++ spans', last, by rw [hplace, List.append_assoc], ?_, ?_,
    (Trail.record_append _ _ _).symm⟩
  · rw [partTexts, List.map_append]
    exact htakes s t _ _ hs ht
  · rw [Cursor.behind_append hplace]
    exact hlast

theorem Traces.mono {takes takes' : List Char → List (κ × List Char) → Prop}
    (h : Traces takes place follow trail) (himp : ∀ s parts, takes s parts → takes' s parts) :
    Traces takes' place follow trail := by
  obtain ⟨s, rest, spans, later, hplace, hs, hlater, rfl⟩ := h
  exact ⟨s, rest, spans, later, hplace, himp _ _ hs, hlater, rfl⟩

theorem traces_one {r : Char → Bool} (hrun : (one r).run place follow = some trail) :
    Traces ((one r).Takes place) place follow trail := by
  cases hplace : place.rest with
  | nil =>
    rw [run, Cursor.past, Cursor.next?_eq_none_of_rest hplace] at hrun
    cases hrun
  | cons c rest =>
    rw [run, past_of_rest hplace, Option.ite_none_right_eq_some] at hrun
    exact ⟨[c], rest, [], trail, hplace, .one hrun.1, hrun.2, rfl⟩

theorem traces_many
    (hbody : ∀ {place follow trail}, body.run place follow = some trail →
      Traces (body.Takes place) place follow trail)
    (hrun : (many body).run place follow = some trail) :
    Traces ((many body).Takes place) place follow trail := by
  -- a round that takes nothing ends the repetition, so each round leaves less
  induction hleft : place.left using Nat.strongRecOn generalizing place trail with
  | ind left ih =>
    rw [run_many, Option.orElse_eq_some] at hrun
    rcases hrun with hround | ⟨-, hstop⟩
    · refine (hbody hround).trans (fun next later hnext => ?_) fun _ _ _ _ => .round
      obtain ⟨hlt, hlater⟩ := Option.ite_none_right_eq_some.1 hnext
      exact ih next.left (hleft ▸ hlt) hlater rfl
    · exact .here .stop hstop

/-- The rounds of a single character make up a stretch. -/
theorem takes_stretch_of_many {r : Char → Bool} {s : List Char} {parts : List (κ × List Char)}
    (h : (many (one r)).Takes place s parts) : (stretch r).Takes place s parts := by
  have hall : ∀ c ∈ s, r c = true := by
    obtain ⟨rounds, rfl, hrounds⟩ := h.exists_rounds
    intro c hc
    obtain ⟨round, hround, hc⟩ := List.mem_flatten.1 hc
    obtain ⟨_, _, hone⟩ := hrounds round hround
    cases hone with
    | one hr => exact (List.mem_singleton.1 hc) ▸ hr
  have hone : (many (one r) : Pattern κ).Within r fun _ => none := fun _ hc => hc
  obtain rfl := h.parts_eq_nil hone
  exact .stretch hall

/-- **A match takes what its pattern may take**, and names the parts that are named on the way. -/
theorem Within.takes_of_run (h : pattern.Within q p)
    (hrun : pattern.run place follow = some trail) :
    Traces (pattern.Takes place) place follow trail := by
  induction pattern generalizing q p place follow trail with
  | empty => exact .here .empty hrun
  | lineStart =>
    obtain ⟨hstart, hrun⟩ := Option.ite_none_right_eq_some.1 hrun
    exact .here (.lineStart hstart) hrun
  | lineEnd =>
    obtain ⟨hend, hrun⟩ := Option.ite_none_right_eq_some.1 hrun
    exact .here (.lineEnd hend) hrun
  | one r => exact traces_one hrun
  | stretch r =>
    rw [run_stretch_eq_run_many] at hrun
    exact (traces_many traces_one hrun).mono fun _ _ => takes_stretch_of_many
  | seq first second ihfirst ihsecond =>
    exact (ihfirst h.1 hrun).trans (fun _ _ => ihsecond h.2) fun _ _ _ _ => .seq
  | either first second ihfirst ihsecond =>
    rw [run, Option.orElse_eq_some] at hrun
    rcases hrun with hrun | ⟨-, hrun⟩
    · exact (ihfirst h.1 hrun).mono fun _ _ => .left
    · exact (ihsecond h.2 hrun).mono fun _ _ => .right
  | many body ih => exact traces_many (fun hround => ih h hround) hrun
  | part name body ih =>
    obtain ⟨r, -, hbody⟩ := h
    obtain ⟨inner, hinner, rfl⟩ := Option.map_eq_some_iff.1 hrun
    obtain ⟨s, rest, spans, later, hplace, hs, hlater, rfl⟩ := ih hbody hinner
    -- no name has a class in the body of a part, so it names nothing
    have hnil : partTexts spans = [] := hs.parts_eq_nil hbody
    rw [hnil] at hs
    obtain rfl : spans = [] := List.map_eq_nil_iff.1 hnil
    obtain ⟨last, hlast, rfl⟩ := Option.map_eq_some_iff.1 hlater
    refine ⟨s, rest, [(name, ⟨place, place.behind s⟩)], last, hplace, ?_, hlast, rfl⟩
    rw [partTexts, List.map_singleton, Span.text_behind hplace]
    exact .part hs

/-- A stretch at the end of a pattern is taken as far as it goes, where nothing has to follow. -/
theorem Within.exists_last [BEq κ] [LawfulBEq κ] {r : Char → Bool} {name : κ}
    (h : first.Within q p) (hname : p name = none)
    (hrun : (first ++ part name (stretch1 r)).run place accept = some trail) :
    ∃ s t rest, place.rest = s ++ (t ++ rest) ∧ IsRun r t ∧ (∀ c ∈ rest.head?, r c = false) ∧
      trail.stop.rest = rest ∧ (Match.mk place trail).part? name = some t := by
  obtain ⟨s, rest, spans, later, hplace, -, hspans, hlater, rfl⟩ := h.passes hrun
  have hrest : (place.behind s).rest = rest := Cursor.rest_behind hplace
  by_cases hhead : ∀ c ∈ rest.head?, r c = false
  · -- the stretch needs a character, so this is no match
    have hmiss : Misses (stretch1 r : Pattern κ) rest := (misses_one hhead).seq _
    obtain ⟨inner, hinner, -⟩ := Option.map_eq_some_iff.1 hlater
    rw [hmiss _ hrest] at hinner
    cases hinner
  · obtain ⟨c, hc, hr⟩ : ∃ c ∈ rest.head?, r c = true := by simpa using hhead
    obtain ⟨more, rfl⟩ := List.head?_eq_some_iff.1 hc
    have hsplit : c :: more = c :: more.takeWhile r ++ more.dropWhile r := by
      rw [List.cons_append, List.takeWhile_append_dropWhile]
    have hend : ∀ d ∈ (more.dropWhile r).head?, r d = false := by
      intro d hd
      rw [← List.find?_not_eq_head?_dropWhile] at hd
      simpa using List.find?_some hd
    have ht : IsRun r (c :: more.takeWhile r) :=
      ⟨List.cons_ne_nil _ _, List.forall_mem_cons.2 ⟨hr, fun d hd => List.mem_takeWhile_imp hd⟩⟩
    rw [hsplit] at hrest
    obtain ⟨spans', hparts, htakes⟩ := (reads_stretch1 ht hend).part name (place.behind s) hrest
    obtain rfl := Option.some.inj ((htakes accept _ rfl).symm.trans hlater)
    have hnone : (partTexts spans).lookup name = none := by
      refine List.lookup_eq_none_iff.2 fun part hpart => ?_
      obtain ⟨span, hspan, rfl⟩ := List.mem_map.1 hpart
      obtain ⟨_, hsome, -⟩ := hspans span hspan
      rw [bne_iff_ne]
      rintro rfl
      exact absurd (hname.symm.trans hsome) nofun
    refine ⟨s, _, _, by rw [hplace, hsplit], ht, hend, Cursor.rest_behind hrest, ?_⟩
    rw [← Trail.record_append, Match.part?_record, partTexts, List.map_append, List.lookup_append]
    rw [partTexts] at hnone hparts
    rw [hnone, hparts, Option.none_or, List.lookup_cons_self]

end Matches

/-! ### Matches in a text -/

section Texts

variable {pattern : Pattern κ} {text : List Char} {found : Match κ} {trail : Trail κ}
  {q : Char → Bool} {p : κ → Option (Char → Bool)}

theorem sublist_disjoint (left : Nat) (answers : List (Cursor × Option (Trail κ))) :
    ((disjoint left answers).map (·.start)).Sublist (answers.map (·.1)) := by
  induction answers generalizing left with
  | nil => exact .slnil
  | cons answer answers ih =>
    obtain ⟨place, trail?⟩ := answer
    cases trail? with
    | none => exact (ih left).cons place
    | some trail =>
      rw [disjoint]
      split
      · exact (ih _).cons_cons place
      · exact (ih left).cons place

theorem sublist_findAll (pattern : Pattern κ) (text : List Char) :
    ((pattern.findAll text).map (·.start)).Sublist (Cursor.ofText text).onward := by
  have hsweep : (pattern.sweep accept text).map (·.1) = (Cursor.ofText text).onward := by
    rw [sweep_eq, List.map_map]
    exact List.map_id _
  rw [← hsweep]
  exact sublist_disjoint _ _

theorem pairwise_onward (place : Cursor) : place.onward.Pairwise fun a b => b.left < a.left := by
  fun_induction Cursor.onward place with
  | case1 place c next hnext ih =>
    refine List.pairwise_cons.2 ⟨fun later hlater => ?_, ih⟩
    have hlt := Cursor.left_lt_of_next? hnext
    have hle := Cursor.left_le_of_mem_onward hlater
    omega
  | case2 place hnext => exact List.pairwise_singleton _ _

/-- The matches in a text are found in order. -/
theorem pairwise_findAll (pattern : Pattern κ) (text : List Char) :
    (pattern.findAll text).Pairwise fun a b => b.start.left ≤ a.start.left := by
  have hstarts := (pairwise_onward (Cursor.ofText text)).sublist (sublist_findAll pattern text)
  exact (List.pairwise_map.1 hstarts).imp Nat.le_of_lt

/-- A match is passed over only where a match before it reaches beyond its begin. -/
theorem mem_disjoint {places : List Cursor} (hplaces : places.Pairwise fun a b => b.left < a.left)
    {place : Cursor} {left : Nat} (hmem : place ∈ places) (hleft : place.left ≤ left)
    (hrun : pattern.run place accept = some trail)
    (hfree : ∀ earlier ∈ places, ∀ other, pattern.run earlier accept = some other →
      place.left < earlier.left → place.left ≤ other.stop.left) :
    ⟨place, trail⟩ ∈ disjoint left (places.map fun place => (place, pattern.run place accept)) := by
  induction places generalizing left with
  | nil => cases hmem
  | cons first places ih =>
    obtain ⟨hfirst, hrest⟩ := List.pairwise_cons.1 hplaces
    rw [List.map_cons]
    rcases List.mem_cons.1 hmem with rfl | hmem
    · -- this is the place, and what was found before does not reach beyond it
      rw [hrun, disjoint, if_pos hleft]
      exact List.mem_cons_self
    · have hlater := hfirst place hmem
      have hmore {bound : Nat} (hbound : place.left ≤ bound) :=
        ih hrest hmem hbound fun earlier hearlier => hfree earlier (List.mem_cons_of_mem _ hearlier)
      cases hother : pattern.run first accept with
      | none => exact hmore hleft
      | some other =>
        rw [disjoint]
        split
        · have hstop := hfree first List.mem_cons_self other hother hlater
          exact List.mem_cons_of_mem _ (hmore hstop)
        · exact hmore hleft

/-- A match is found if no match that begins before it reaches beyond its begin. -/
theorem mem_findAll {place : Cursor} (hmem : place ∈ (Cursor.ofText text).onward)
    (hrun : pattern.run place accept = some trail)
    (hfree : ∀ earlier ∈ (Cursor.ofText text).onward, ∀ other,
      pattern.run earlier accept = some other → place.left < earlier.left →
        place.left ≤ other.stop.left) : ⟨place, trail⟩ ∈ pattern.findAll text := by
  rw [findAll, sweep_eq]
  exact mem_disjoint (pairwise_onward _) hmem (Cursor.left_le_of_mem_onward hmem) hrun hfree

/-- **Every match in a text** takes a stretch of the text that its pattern may take there. -/
theorem Within.exists_takes [BEq κ] [LawfulBEq κ] (h : pattern.Within q p)
    (hmem : found ∈ pattern.findAll text) :
    ∃ before s parts, found.start.LiesBehind before text ∧
      found.start.rest = s ++ found.stop.rest ∧ pattern.Takes found.start s parts ∧
      ∀ name, found.part? name = parts.lookup name := by
  obtain ⟨before, hlies⟩ := Cursor.exists_liesBehind
    ((sublist_findAll pattern text).subset (List.mem_map_of_mem hmem))
  obtain ⟨s, rest, spans, later, hplace, hs, hlater, htrail⟩ :=
    h.takes_of_run (run_of_mem_findAll hmem)
  obtain ⟨start, trail⟩ := found
  dsimp only at htrail hplace hs hlater
  subst htrail
  obtain rfl := Option.some.inj hlater
  refine ⟨before, s, partTexts spans, hlies, ?_, hs, fun name => Match.part?_record _ _ _ name⟩
  show start.rest = s ++ (start.behind s).rest
  rw [Cursor.rest_behind hplace, hplace]

end Texts

end Pattern

end RpcBinder
