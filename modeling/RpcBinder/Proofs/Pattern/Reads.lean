import Mathlib.Data.List.Basic
import RpcBinder.Pattern.Search
import RpcBinder.Proofs.Text.Parts

/-!
# What patterns read

Matching goes back when what has to follow does not fit, but in a text that was written for a
pattern it never has to: each part of the pattern takes its own stretch of the text, and anything
that may follow there is asked there first.  `Reads` says this of a pattern and the stretch that
it takes, and `Misses` says that a pattern fits nowhere.  Both speak of texts only, and each kind
of pattern has its rule.

## Main definitions

* `Cursor.behind` — the place behind a first part of the text.
* `Trail.record` — a trail with parts added.
* `Pattern.Reads` — the pattern takes a stretch of text, whatever may follow it.
* `Pattern.Misses` — the pattern does not match at the beginning of a text.

## Main results

* `Pattern.Reads.seq`, `Pattern.Reads.part`, `Pattern.reads_stretch` and their like — the rules.
* `Pattern.Reads.matchAt?_eq` — what is read is matched, with its parts.
-/

namespace RpcBinder

/-! ### Places behind a first part of the text -/

namespace Cursor

/-- The place behind as many characters as a text has. -/
def behind : Cursor → List Char → Cursor
  | place, [] => place
  | place, _ :: s =>
      match place.next? with
      | some (_, next) => next.behind s
      | none => place

@[simp] theorem behind_nil (place : Cursor) : place.behind [] = place := rfl

/-- A place in front of a character has a next one. -/
theorem exists_next?_of_rest {place : Cursor} {c : Char} {rest : List Char}
    (h : place.rest = c :: rest) : ∃ next, place.next? = some (c, next) ∧ next.rest = rest := by
  obtain ⟨atLineStart, text, left, hleft⟩ := place
  dsimp only at h
  subst h
  exact ⟨_, rfl, rfl⟩

theorem next?_eq_none_of_rest {place : Cursor} (h : place.rest = []) : place.next? = none := by
  obtain ⟨atLineStart, text, left, hleft⟩ := place
  dsimp only at h
  subst h
  rfl

theorem behind_cons {place next : Cursor} {c : Char} (h : place.next? = some (c, next))
    (d : Char) (s : List Char) : place.behind (d :: s) = next.behind s := by
  rw [behind, h]

theorem behind_append {place : Cursor} {s t rest : List Char} (h : place.rest = s ++ rest) :
    place.behind (s ++ t) = (place.behind s).behind t := by
  induction s generalizing place with
  | nil => rfl
  | cons c s ih =>
    obtain ⟨next, hnext, hrest⟩ := exists_next?_of_rest h
    rw [List.cons_append, behind_cons hnext, behind_cons hnext, ih hrest]

theorem rest_behind {place : Cursor} {s rest : List Char} (h : place.rest = s ++ rest) :
    (place.behind s).rest = rest := by
  induction s generalizing place with
  | nil => exact h
  | cons c s ih =>
    obtain ⟨next, hnext, hrest⟩ := exists_next?_of_rest h
    rw [behind_cons hnext, ih hrest]

theorem left_behind {place : Cursor} {s rest : List Char} (h : place.rest = s ++ rest) :
    (place.behind s).left = byteLength rest := by
  rw [(place.behind s).left_eq, rest_behind h]

end Cursor

/-- The stretch up to the place behind a first part is this part. -/
theorem Span.text_behind {place : Cursor} {s rest : List Char} (h : place.rest = s ++ rest) :
    (Span.mk place (place.behind s)).text = s := by
  have hleft : place.left = byteLength s + byteLength rest := by
    rw [place.left_eq, h, byteLength_append]
  unfold Span.text
  rw [Cursor.left_behind h, hleft, Nat.add_sub_cancel, h, takeBytes_byteLength_append]

/-! ### Parts of a trail -/

/-- The trail with parts added in front of its own. -/
def Trail.record {κ : Type} (spans : List (κ × Span)) (trail : Trail κ) : Trail κ :=
  { trail with
    begins := spans.map (fun part => (part.1, part.2.start)) ++ trail.begins
    ends := spans.map (fun part => (part.1, part.2.stop)) ++ trail.ends }

/-- The texts of parts. -/
def partTexts {κ : Type} (spans : List (κ × Span)) : List (κ × List Char) :=
  spans.map fun part => (part.1, part.2.text)

namespace Trail

variable {κ : Type}

@[simp] theorem record_nil (trail : Trail κ) : trail.record [] = trail := rfl

theorem record_append (first second : List (κ × Span)) (trail : Trail κ) :
    trail.record (first ++ second) = (trail.record second).record first := by
  simp [record]

end Trail

/-- A part of a match is looked up among the parts that were recorded. -/
theorem Match.part?_record {κ : Type} [BEq κ] (spans : List (κ × Span)) (start stop : Cursor)
    (name : κ) :
    (Match.mk start (Trail.record spans ⟨stop, [], []⟩)).part? name =
      (partTexts spans).lookup name := by
  induction spans with
  | nil => rfl
  | cons span spans ih =>
    have hrest := ih
    unfold Match.part? Trail.record partTexts at hrest ⊢
    simp only [List.map_cons, List.cons_append, List.lookup_cons]
    cases hname : name == span.1 with
    | true => rfl
    | false => exact hrest

namespace Pattern

variable {κ : Type}

/-! ### Reading and missing -/

/-- In front of `rest` the pattern takes all of `s`, whatever may follow there, and names the
parts `parts` of it. -/
def Reads (pattern : Pattern κ) (s rest : List Char) (parts : List (κ × List Char)) : Prop :=
  ∀ place : Cursor, place.rest = s ++ rest →
    ∃ spans, partTexts spans = parts ∧
      ∀ k trail, k (place.behind s) = some trail → pattern.run place k = some (trail.record spans)

/-- The pattern does not match at the beginning of the text, whatever may follow. -/
def Misses (pattern : Pattern κ) (text : List Char) : Prop :=
  ∀ place : Cursor, place.rest = text → ∀ k, pattern.run place k = none

variable {p : Char → Bool} {first second body : Pattern κ} {s t rest text : List Char}
  {parts others : List (κ × List Char)}

/-! ### Single characters -/

theorem past_of_rest {place : Cursor} {c : Char} (h : place.rest = c :: rest)
    (k : Cursor → Option (Trail κ)) :
    place.past p k = if p c then k (place.behind [c]) else none := by
  obtain ⟨next, hnext, -⟩ := Cursor.exists_next?_of_rest h
  rw [Cursor.behind_cons hnext, Cursor.behind_nil]
  unfold Cursor.past
  rw [hnext]

theorem reads_empty (rest : List Char) : Reads (empty : Pattern κ) [] rest [] :=
  fun _ _ => ⟨[], rfl, fun _ _ hk => hk⟩

theorem reads_one {c : Char} (hc : p c = true) (rest : List Char) :
    Reads (one p : Pattern κ) [c] rest [] := by
  intro place hplace
  refine ⟨[], rfl, fun k trail hk => ?_⟩
  show place.past p k = _
  rw [past_of_rest hplace, if_pos hc, hk, Trail.record_nil]

theorem misses_one (h : ∀ c ∈ text.head?, p c = false) : Misses (one p : Pattern κ) text := by
  intro place hplace k
  cases text with
  | nil =>
    unfold run Cursor.past
    rw [Cursor.next?_eq_none_of_rest hplace]
  | cons c rest =>
    have hc : p c = false := h c rfl
    show place.past p k = none
    rw [past_of_rest hplace, hc]
    rfl

/-! ### Sequences, choices and parts -/

/-- One pattern after the other takes one stretch after the other. -/
theorem Reads.seq (hfirst : Reads first s (t ++ rest) parts)
    (hsecond : Reads second t rest others) :
    Reads (first ++ second) (s ++ t) rest (parts ++ others) := by
  intro place hplace
  rw [List.append_assoc] at hplace
  obtain ⟨spans, hspans, hrun⟩ := hfirst place hplace
  obtain ⟨spans', hspans', hrun'⟩ := hsecond (place.behind s) (Cursor.rest_behind hplace)
  -- the parts of the first pattern were begun first, so they are on top of the trail
  refine ⟨spans ++ spans', ?_, fun k trail hk => ?_⟩
  · rw [← hspans, ← hspans']
    exact List.map_append
  · rw [Cursor.behind_append hplace] at hk
    rw [Trail.record_append]
    exact hrun _ _ (hrun' k trail hk)

/-- A pattern that takes nothing changes nothing. -/
theorem Reads.seq_nil (hfirst : Reads first s rest parts) (hsecond : Reads second [] rest []) :
    Reads (first ++ second) s rest parts := by
  have h := hfirst.seq (t := []) hsecond
  rwa [List.append_nil, List.append_nil] at h

theorem Misses.seq (h : Misses first text) (second : Pattern κ) :
    Misses (first ++ second) text :=
  fun place hplace k => h place hplace fun next => second.run next k

theorem Misses.either (hfirst : Misses first text) (hsecond : Misses second text) :
    Misses (either first second) text := by
  intro place hplace k
  show (first.run place k <|> second.run place k) = none
  rw [hfirst place hplace k, hsecond place hplace k]
  rfl

theorem Reads.part (h : Reads body s rest []) (name : κ) :
    Reads (part name body) s rest [(name, s)] := by
  intro place hplace
  obtain ⟨spans, hspans, hrun⟩ := h place hplace
  -- a part holds no other parts, so the trail is marked at its two ends only
  have hnil : spans = [] := List.map_eq_nil_iff.1 hspans
  subst hnil
  refine ⟨[(name, ⟨place, place.behind s⟩)], ?_, fun k trail hk => ?_⟩
  · show [(name, (Span.mk place (place.behind s)).text)] = [(name, s)]
    rw [Span.text_behind hplace]
  · have hstop : (k (place.behind s)).map (Trail.endPart name (place.behind s)) =
        some (Trail.endPart name (place.behind s) trail) := by rw [hk, Option.map_some]
    show (body.run place _).map (Trail.beginPart name place) = _
    rw [hrun (fun stop => (k stop).map (Trail.endPart name stop)) _ hstop]
    rfl

theorem Reads.either (h : Reads first s rest parts) (second : Pattern κ) :
    Reads (either first second) s rest parts := by
  intro place hplace
  obtain ⟨spans, hspans, hrun⟩ := h place hplace
  refine ⟨spans, hspans, fun k trail hk => ?_⟩
  show (first.run place k <|> second.run place k) = _
  rw [hrun k trail hk]
  rfl

theorem reads_either_of_misses (hfirst : Misses first (s ++ rest))
    (hsecond : Reads second s rest parts) : Reads (either first second) s rest parts := by
  intro place hplace
  obtain ⟨spans, hspans, hrun⟩ := hsecond place hplace
  refine ⟨spans, hspans, fun k trail hk => ?_⟩
  show (first.run place k <|> second.run place k) = _
  rw [hfirst place hplace k]
  exact hrun k trail hk

theorem Reads.maybe (h : Reads body s rest parts) : Reads (maybe body) s rest parts :=
  h.either empty

/-- What cannot be taken is left out. -/
theorem reads_maybe_of_misses (h : Misses body rest) : Reads (maybe body) [] rest [] :=
  reads_either_of_misses h (reads_empty rest)

/-- There is no round where none can be taken. -/
theorem reads_many_of_misses (h : Misses body rest) : Reads (many body) [] rest [] := by
  intro place hplace
  refine ⟨[], rfl, fun k trail hk => ?_⟩
  rw [run_many, h place hplace]
  exact hk

/-- One more round in front of those that follow. -/
theorem Reads.round (hround : Reads body s (t ++ rest) parts) (hne : s ≠ [])
    (hmore : Reads (many body) t rest others) :
    Reads (many body) (s ++ t) rest (parts ++ others) := by
  intro place hplace
  rw [List.append_assoc] at hplace
  obtain ⟨spans, hspans, hrun⟩ := hround place hplace
  obtain ⟨spans', hspans', hrun'⟩ := hmore (place.behind s) (Cursor.rest_behind hplace)
  refine ⟨spans ++ spans', ?_, fun k trail hk => ?_⟩
  · rw [← hspans, ← hspans']
    exact List.map_append
  · rw [Cursor.behind_append hplace] at hk
    have hlater := hrun' k trail hk
    -- a round that takes something moves on, so the repetition goes on behind it
    have hlt : (place.behind s).left < place.left := by
      obtain ⟨c, s, rfl⟩ := List.exists_cons_of_ne_nil hne
      have hsize := c.utf8Size_pos
      rw [Cursor.left_behind hplace, place.left_eq, hplace, byteLength_append (c :: s),
        byteLength_cons]
      omega
    rw [Trail.record_append, run_many,
      hrun _ (Trail.record spans' trail) (by rw [if_pos hlt, hlater])]
    rfl

/-! ### Words -/

theorem literal_cons_cons (c d : Char) (s : List Char) :
    (literal (c :: d :: s) : Pattern κ) = one (· == c) ++ literal (d :: s) := rfl

theorem reads_literal (s rest : List Char) : Reads (literal s : Pattern κ) s rest [] := by
  induction s with
  | nil => exact reads_empty rest
  | cons c s ih =>
    cases s with
    | nil => exact reads_one (p := (· == c)) (beq_self_eq_true c) rest
    | cons d s =>
      rw [literal_cons_cons]
      exact (reads_one (p := (· == c)) (beq_self_eq_true c) _).seq ih

/-- A word misses a text that does not begin with it. -/
theorem misses_literal (h : ¬ s <+: text) : Misses (literal s : Pattern κ) text := by
  induction s generalizing text with
  | nil => exact absurd List.nil_prefix h
  | cons c s ih =>
    cases s with
    | nil =>
      refine misses_one fun d hd => ?_
      rw [beq_eq_false_iff_ne]
      rintro rfl
      obtain ⟨rest, rfl⟩ := List.head?_eq_some_iff.1 hd
      exact h ⟨rest, rfl⟩
    | cons d s =>
      rw [literal_cons_cons]
      by_cases hc : text.head? = some c
      · -- the first character fits, so it is the rest of the word that does not
        obtain ⟨rest, rfl⟩ := List.head?_eq_some_iff.1 hc
        have hrest : Misses (literal (d :: s) : Pattern κ) rest :=
          ih fun hfront => h (List.cons_prefix_cons.2 ⟨rfl, hfront⟩)
        intro place hplace k
        show place.past (· == c) (fun next => (literal (d :: s)).run next k) = none
        rw [past_of_rest hplace, if_pos (beq_self_eq_true c)]
        exact hrest _ (Cursor.rest_behind (s := [c]) hplace) k
      · refine Misses.seq (misses_one fun e he => ?_) _
        rw [beq_eq_false_iff_ne]
        rintro rfl
        exact hc he

/-- The texts differ at a place that both have. -/
def clashes (s t : List Char) : Bool :=
  (s.zip t).any fun pair => pair.1 != pair.2

theorem not_prefix_of_clashes (h : clashes s t = true) (rest : List Char) : ¬ s <+: t ++ rest := by
  induction s generalizing t with
  | nil => simp [clashes] at h
  | cons c s ih =>
    cases t with
    | nil => simp [clashes] at h
    | cons d t =>
      intro hfront
      obtain ⟨heq, hfront⟩ := List.cons_prefix_cons.1 hfront
      refine ih ?_ hfront
      simpa [clashes, heq] using h

theorem misses_literal_cons {c d : Char} (h : d ≠ c) (s rest : List Char) :
    Misses (literal (c :: s) : Pattern κ) (d :: rest) :=
  misses_literal fun hfront => h (List.cons_prefix_cons.1 hfront).1.symm

/-- A word misses a text that begins differently. -/
theorem misses_literal_of_clashes (h : clashes s t = true) (rest : List Char) :
    Misses (literal s : Pattern κ) (t ++ rest) :=
  misses_literal (not_prefix_of_clashes h rest)

/-- A choice among words misses where each of them does. -/
theorem misses_anyOf {words : List String} (h : ∀ word ∈ words, ¬ word.toList <+: text) :
    Misses (anyOf words : Pattern κ) text := by
  induction words with
  | nil => exact misses_one fun _ _ => rfl
  | cons word words ih =>
    have hword : Misses (literal word.toList : Pattern κ) text :=
      misses_literal (h word List.mem_cons_self)
    cases words with
    | nil => exact hword
    | cons other words =>
      exact hword.either (ih fun word hmem => h word (List.mem_cons_of_mem _ hmem))

/-- A choice among words takes one of them if no other one fits there. -/
theorem reads_anyOf {words : List String} {word : String} (hmem : word ∈ words)
    (h : ∀ other ∈ words, other ≠ word → clashes other.toList word.toList = true)
    (rest : List Char) : Reads (anyOf words : Pattern κ) word.toList rest [] := by
  induction words with
  | nil => cases hmem
  | cons first words ih =>
    cases words with
    | nil =>
      obtain rfl := List.mem_singleton.1 hmem
      exact reads_literal _ rest
    | cons second words =>
      have hor : (anyOf (first :: second :: words) : Pattern κ) =
          either (literal first.toList) (anyOf (second :: words)) := rfl
      rw [hor]
      by_cases hfirst : first = word
      · subst hfirst
        exact (reads_literal _ rest).either _
      · have hmiss : Misses (literal first.toList : Pattern κ) (word.toList ++ rest) :=
          misses_literal_of_clashes (h first List.mem_cons_self hfirst) rest
        have hmem : word ∈ second :: words :=
          (List.mem_cons.1 hmem).resolve_left fun heq => hfirst heq.symm
        have hothers := ih hmem fun other hother => h other (List.mem_cons_of_mem _ hother)
        exact reads_either_of_misses hmiss hothers

/-! ### Stretches -/

theorem run_stretch_of_rest {place : Cursor} {c : Char} (h : place.rest = c :: rest)
    (k : Cursor → Option (Trail κ)) :
    (stretch p).run place k =
      ((if p c then (stretch p).run (place.behind [c]) k else none) <|> k place) := by
  rw [run_stretch, past_of_rest h]

theorem run_stretch_of_misses {place : Cursor} (h : Misses (one p : Pattern κ) place.rest)
    (k : Cursor → Option (Trail κ)) : (stretch p).run place k = k place := by
  have hone : place.past p ((stretch p).run · k) = none := h place rfl ((stretch p).run · k)
  rw [run_stretch, hone]
  rfl

/-- A stretch goes on to the end of a run of its class. -/
theorem reads_stretch (hs : s.all p = true) (hrest : ∀ c ∈ rest.head?, p c = false) :
    Reads (stretch p : Pattern κ) s rest [] := by
  intro place hplace
  refine ⟨[], rfl, fun k trail hk => ?_⟩
  rw [Trail.record_nil]
  rw [List.all_eq_true] at hs
  induction s generalizing place with
  | nil =>
    have hmiss : Misses (one p : Pattern κ) rest := misses_one hrest
    rw [run_stretch_of_misses (by rw [hplace]; exact hmiss)]
    exact hk
  | cons c s ih =>
    have hc : p c = true := hs c List.mem_cons_self
    rw [← List.singleton_append, Cursor.behind_append (s := [c]) hplace] at hk
    have hlater := ih (fun d hd => hs d (List.mem_cons_of_mem _ hd)) _
      (Cursor.rest_behind (s := [c]) hplace) hk
    rw [run_stretch_of_rest hplace, if_pos hc, hlater]
    rfl

/-- At least one character of a class, and all that follow. -/
theorem reads_stretch1 (hs : IsRun p s) (hrest : ∀ c ∈ rest.head?, p c = false) :
    Reads (stretch1 p : Pattern κ) s rest [] := by
  obtain ⟨c, s, rfl⟩ := List.exists_cons_of_ne_nil hs.ne_nil
  have hc : p c = true := hs.forall_char c List.mem_cons_self
  have htail : s.all p = true :=
    List.all_eq_true.2 fun d hd => hs.forall_char d (List.mem_cons_of_mem _ hd)
  exact (reads_one hc _).seq (reads_stretch htail hrest)

theorem misses_stretch1_cons {c : Char} (h : p c = false) (rest : List Char) :
    Misses (stretch1 p : Pattern κ) (c :: rest) :=
  (misses_one (by simpa using h)).seq _

/-- Behind a stretch nothing is found if it is found neither here nor further on. -/
theorem misses_stretch_cons {c : Char} (hhere : Misses second (c :: text))
    (hlater : p c = true → Misses (stretch p ++ second) text) :
    Misses (stretch p ++ second) (c :: text) := by
  intro place hplace k
  show (stretch p).run place (fun stop => second.run stop k) = none
  rw [run_stretch_of_rest hplace, hhere place hplace k]
  by_cases hc : p c = true
  · rw [if_pos hc]
    have hnone := hlater hc (place.behind [c]) (Cursor.rest_behind (s := [c]) hplace) k
    have hrun : (stretch p).run (place.behind [c]) (fun stop => second.run stop k) = none := hnone
    rw [hrun]
    rfl
  · rw [if_neg hc]
    rfl

/-! ### Matches -/

/-- What is read is matched, with its parts. -/
theorem Reads.matchAt?_eq [BEq κ] {pattern : Pattern κ} (h : Reads pattern s rest parts)
    {place : Cursor} (hplace : place.rest = s ++ rest) :
    ∃ found, pattern.matchAt? place = some found ∧ found.start = place ∧
      found.stop = place.behind s ∧ ∀ name, found.part? name = parts.lookup name := by
  obtain ⟨spans, hspans, hrun⟩ := h place hplace
  refine ⟨⟨place, Trail.record spans ⟨place.behind s, [], []⟩⟩, ?_, rfl, rfl, fun name => ?_⟩
  · rw [matchAt?, hrun accept ⟨place.behind s, [], []⟩ rfl, Option.map_some]
  · rw [Match.part?_record, hspans]

theorem Misses.matchAt?_eq {pattern : Pattern κ} (h : Misses pattern text) {place : Cursor}
    (hplace : place.rest = text) : pattern.matchAt? place = none := by
  rw [matchAt?, h place hplace, Option.map_none]

end Pattern

end RpcBinder
