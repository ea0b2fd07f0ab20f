import Mathlib.Data.Option.Basic
import RpcBinder.Proofs.Pattern.Finds

/-!
# Patterns that match at the start of a line

A pattern that asks for the start of a line matches nowhere else, so a search goes from line to
line.  On each of them it takes what its pattern reads there, and passes over the line if the
pattern misses it.

## Main definitions

* `Pattern.StartsLine` — the pattern is another one at the start of a line.
* `Pattern.FindsLines` — what searching a text line by line finds.
* `Pattern.ReadsUnless` — the pattern takes a stretch of text if it cannot stop earlier.

## Main results

* `Pattern.FindsLines.forall₂_findAll` — all matches in a text are found line by line.
* `Pattern.ReadsUnless.seq` — what follows misses at the earlier stop, so it comes at the later one.
-/

namespace RpcBinder

/-! ### Places at the start of a line -/

namespace Cursor

/-- A line begins behind a line feed. -/
theorem atLineStart_behind_concat {place : Cursor} {s rest : List Char} {c : Char}
    (h : place.rest = s ++ c :: rest) :
    (place.behind (s ++ [c])).atLineStart = (c == '\n') := by
  induction s generalizing place with
  | nil =>
    obtain ⟨atLineStart, text, left, hleft⟩ := place
    dsimp only at h
    subst h
    rfl
  | cons d s ih =>
    obtain ⟨next, hnext, hrest⟩ := exists_next?_of_rest h
    rw [List.cons_append, behind_cons hnext]
    exact ih hrest

theorem atLineStart_behind_singleton {place : Cursor} {rest : List Char} {c : Char}
    (h : place.rest = c :: rest) : (place.behind [c]).atLineStart = (c == '\n') :=
  atLineStart_behind_concat (s := []) h

end Cursor

namespace Pattern

variable {κ : Type} {pattern body : Pattern κ}

/-- The pattern is `body` at the start of a line. -/
def StartsLine (pattern body : Pattern κ) : Prop :=
  ∀ (place : Cursor) (k : Cursor → Option (Trail κ)),
    pattern.run place k = if place.atLineStart = true then body.run place k else none

theorem StartsLine.run_eq_none (h : StartsLine pattern body) {place : Cursor}
    (hplace : place.atLineStart = false) (k : Cursor → Option (Trail κ)) :
    pattern.run place k = none := by
  rw [h, hplace]
  rfl

theorem StartsLine.run_eq_none_of_misses (h : StartsLine pattern body) {place : Cursor}
    (hmiss : body.Misses place.rest) (k : Cursor → Option (Trail κ)) :
    pattern.run place k = none := by
  rw [h, hmiss place rfl k, ite_self]

/-- From a place without a match the search goes on at the next line. -/
theorem StartsLine.searchFrom_eq (h : StartsLine pattern body) {place : Cursor}
    {line rest : List Char} (hplace : place.rest = line ++ '\n' :: rest) (hline : '\n' ∉ line)
    (hnone : pattern.run place accept = none) :
    pattern.searchFrom place = pattern.searchFrom (place.behind (line ++ ['\n'])) := by
  induction line generalizing place with
  | nil => exact searchFrom_of_none hplace hnone
  | cons c line ih =>
    have hc : c ≠ '\n' := (List.ne_of_not_mem_cons hline).symm
    have hstart : (place.behind [c]).atLineStart = false := by
      rw [Cursor.atLineStart_behind_singleton hplace]
      simpa using hc
    rw [searchFrom_of_none hplace hnone,
      ih (Cursor.rest_behind (s := [c]) hplace) (List.not_mem_of_not_mem_cons hline)
        (h.run_eq_none hstart accept), ← Cursor.behind_append (s := [c]) hplace]
    rfl

/-- On the last line there is no other place for a match. -/
theorem StartsLine.searchFrom_eq_nil (h : StartsLine pattern body) {place : Cursor}
    (hline : '\n' ∉ place.rest) (hnone : pattern.run place accept = none) :
    pattern.searchFrom place = [] := by
  induction hrest : place.rest generalizing place with
  | nil => exact searchFrom_of_none_nil hrest hnone
  | cons c rest ih =>
    rw [hrest] at hline
    have hc : c ≠ '\n' := (List.ne_of_not_mem_cons hline).symm
    -- no later place of the line is its start, so the pattern misses there as well
    have hstart : (place.behind [c]).atLineStart = false := by
      rw [Cursor.atLineStart_behind_singleton hrest]
      simpa using hc
    have hbehind : (place.behind [c]).rest = rest := Cursor.rest_behind (s := [c]) hrest
    rw [searchFrom_of_none hrest hnone]
    exact ih (hbehind.symm ▸ List.not_mem_of_not_mem_cons hline) (h.run_eq_none hstart accept)
      hbehind

/-! ### Line by line -/

/-- What searching a text line by line finds. -/
inductive FindsLines (body : Pattern κ) : List Char → List (Found κ) → Prop
  /-- Nothing on the last line. -/
  | last {line : List Char} (hline : '\n' ∉ line) (h : body.Misses line) : FindsLines body line []
  /-- Nothing on this line, and what is found on the others. -/
  | skip {line rest : List Char} {founds : List (Found κ)} (hline : '\n' ∉ line)
      (h : body.Misses (line ++ '\n' :: rest)) (hrest : FindsLines body rest founds) :
      FindsLines body (line ++ '\n' :: rest) founds
  /-- A match on this line, and what is found on the others. -/
  | take {s t rest : List Char} {parts : List (κ × List Char)} {founds : List (Found κ)}
      (hs : '\n' ∉ s) (ht : '\n' ∉ t) (h : body.Reads s (t ++ '\n' :: rest) parts) (hne : s ≠ [])
      (hrest : FindsLines body rest founds) :
      FindsLines body (s ++ (t ++ '\n' :: rest))
        (⟨s ++ (t ++ '\n' :: rest), t ++ '\n' :: rest, parts⟩ :: founds)

/-- Nothing is found in a text if nothing is found on its lines. -/
theorem findsLines_nil {text : List Char}
    (h : ∀ line ∈ text.splitOn '\n', ∀ rest : List Char, (∀ c ∈ rest.head?, c = '\n') →
      body.Misses (line ++ rest)) : FindsLines body text [] := by
  -- line by line: the first one is missed, and what is left is shorter
  induction hlength : text.length using Nat.strongRecOn generalizing text with
  | ind length ih =>
    by_cases hfeed : '\n' ∈ text
    · obtain ⟨line, rest, rfl, hline⟩ := List.eq_append_cons_of_mem hfeed
      have hsplit : (line ++ '\n' :: rest).splitOn '\n' =
          line.splitOn '\n' ++ rest.splitOn '\n' := by
        rw [List.splitOn_eq_splitOnP, List.splitOn_eq_splitOnP, List.splitOn_eq_splitOnP]
        exact List.splitOnP_append_cons line rest (beq_self_eq_true '\n')
      rw [hsplit, List.splitOn_eq_singleton hline] at h
      obtain ⟨hmiss, hrest⟩ := List.forall_mem_cons.1 h
      exact .skip hline (hmiss _ (by simp)) (ih rest.length (by simp [← hlength]; omega) hrest rfl)
    · rw [List.splitOn_eq_singleton hfeed] at h
      have hmiss := h text (List.mem_singleton_self text) [] nofun
      rw [List.append_nil] at hmiss
      exact .last hfeed hmiss

theorem FindsLines.forall₂_searchFrom [BEq κ] (hpattern : StartsLine pattern body)
    {text : List Char} {founds : List (Found κ)} (h : FindsLines body text founds) {place : Cursor}
    (hplace : place.rest = text) (hstart : place.atLineStart = true) :
    List.Forall₂ Found.Describes founds (pattern.searchFrom place) := by
  induction h generalizing place with
  | last hline hmiss =>
    subst hplace
    rw [hpattern.searchFrom_eq_nil hline (hpattern.run_eq_none_of_misses hmiss accept)]
    exact .nil
  | @skip line rest founds hline hmiss hrest ih =>
    rw [hpattern.searchFrom_eq hplace hline
      (hpattern.run_eq_none_of_misses (hplace.symm ▸ hmiss) accept)]
    have hbehind : (place.behind (line ++ ['\n'])).rest = rest :=
      Cursor.rest_behind (by simpa using hplace)
    exact ih hbehind (Cursor.atLineStart_behind_concat hplace)
  | @take s t rest parts founds hs ht hreads hne hrest ih =>
    obtain ⟨found, hmatch, hbegin, hstop, hparts⟩ := hreads.matchAt?_eq hplace
    obtain ⟨trail, hbody, rfl⟩ := Option.map_eq_some_iff.1 hmatch
    have hrun : pattern.run place accept = some trail := by rw [hpattern, if_pos hstart, hbody]
    have hbehind : (place.behind s).rest = t ++ '\n' :: rest := Cursor.rest_behind hplace
    -- behind the match the line goes on, and no other line begins on it
    have hwithin : (place.behind s).atLineStart = false := by
      obtain ⟨front, c, rfl⟩ := List.eq_nil_or_concat' s |>.resolve_left hne
      have hc : c ≠ '\n' :=
        ne_of_mem_of_not_mem (List.mem_append_right _ (List.mem_singleton_self c)) hs
      rw [Cursor.atLineStart_behind_concat (by simpa using hplace)]
      simpa using hc
    rw [searchFrom_of_run hplace hne hrun hstop,
      hpattern.searchFrom_eq hbehind ht (hpattern.run_eq_none hwithin accept)]
    refine .cons ⟨hplace, ?_, hparts⟩ (ih (Cursor.rest_behind (by simpa using hbehind))
      (Cursor.atLineStart_behind_concat hbehind))
    rw [hstop, hbehind]

/-- **All matches in a text are found line by line.** -/
theorem FindsLines.forall₂_findAll [BEq κ] (hpattern : StartsLine pattern body) {text : List Char}
    {founds : List (Found κ)} (h : FindsLines body text founds) :
    List.Forall₂ Found.Describes founds (pattern.findAll text) := by
  rw [findAll_eq]
  exact h.forall₂_searchFrom hpattern rfl rfl

/-! ### The end of a line -/

theorem reads_lineEnd {rest : List Char} (h : ∀ c ∈ rest.head?, c = '\n') :
    Reads (lineEnd : Pattern κ) [] rest [] := by
  intro place hplace
  have hend : place.atLineEnd = true := by
    unfold Cursor.atLineEnd
    split
    · rfl
    · next c more heq =>
      rw [heq, List.nil_append] at hplace
      simpa using h c (hplace ▸ rfl)
  refine ⟨[], rfl, fun k trail hk => ?_⟩
  show (if place.atLineEnd = true then k place else none) = _
  rw [if_pos hend]
  exact hk

theorem misses_lineEnd {c : Char} (hc : c ≠ '\n') (rest : List Char) :
    Misses (lineEnd : Pattern κ) (c :: rest) := by
  intro place hplace k
  have hend : place.atLineEnd = false := by
    unfold Cursor.atLineEnd
    rw [hplace]
    simpa using hc
  show (if place.atLineEnd = true then k place else none) = none
  rw [hend]
  rfl

/-! ### Going back once -/

/-- In front of `rest` the pattern takes `e ++ s`, provided that what follows fails behind `e`, and
names the parts `parts`. -/
def ReadsUnless (pattern : Pattern κ) (e s rest : List Char) (parts : List (κ × List Char)) :
    Prop :=
  ∀ place : Cursor, place.rest = e ++ (s ++ rest) →
    ∃ spans, partTexts spans = parts ∧
      ∀ k trail, k (place.behind e) = none → k (place.behind (e ++ s)) = some trail →
        pattern.run place k = some (trail.record spans)

variable {first second : Pattern κ} {p : Char → Bool} {e s t rest : List Char}
  {parts others : List (κ × List Char)}

/-- What follows misses at the earlier stop, so it comes at the later one. -/
theorem ReadsUnless.seq (hfirst : ReadsUnless first e s (t ++ rest) parts)
    (hmiss : Misses second (s ++ (t ++ rest))) (hsecond : Reads second t rest others) :
    Reads (first ++ second) (e ++ s ++ t) rest (parts ++ others) := by
  intro place hplace
  have hsplit : place.rest = e ++ (s ++ (t ++ rest)) := by simpa using hplace
  have hlater : place.rest = e ++ s ++ (t ++ rest) := by simpa using hplace
  obtain ⟨spans, hspans, hrun⟩ := hfirst place hsplit
  obtain ⟨spans', hspans', hrun'⟩ := hsecond (place.behind (e ++ s)) (Cursor.rest_behind hlater)
  refine ⟨spans ++ spans', ?_, fun k trail hk => ?_⟩
  · rw [← hspans, ← hspans']
    exact List.map_append
  · rw [Cursor.behind_append (s := e ++ s) hlater] at hk
    rw [Trail.record_append]
    exact hrun _ _ (hmiss _ (Cursor.rest_behind hsplit) k) (hrun' k trail hk)

theorem ReadsUnless.part (h : ReadsUnless body e s rest []) (name : κ) :
    ReadsUnless (part name body) e s rest [(name, e ++ s)] := by
  intro place hplace
  obtain ⟨spans, hspans, hrun⟩ := h place hplace
  have hnil : spans = [] := List.map_eq_nil_iff.1 hspans
  subst hnil
  refine ⟨[(name, ⟨place, place.behind (e ++ s)⟩)], ?_, fun k trail hearly hk => ?_⟩
  · show [(name, (Span.mk place (place.behind (e ++ s))).text)] = [(name, e ++ s)]
    rw [Span.text_behind (by simpa using hplace)]
  · have hstop : (k (place.behind (e ++ s))).map (Trail.endPart name (place.behind (e ++ s))) =
        some (Trail.endPart name (place.behind (e ++ s)) trail) := by rw [hk, Option.map_some]
    have hnone : (k (place.behind e)).map (Trail.endPart name (place.behind e)) = none := by
      rw [hearly, Option.map_none]
    show (body.run place _).map (Trail.beginPart name place) = _
    rw [hrun (fun stop => (k stop).map (Trail.endPart name stop)) _ hnone hstop]
    rfl

/-- Where a stretch cannot end at its last character, it ends in front of it. -/
theorem run_stretch_of_none {c : Char} (hs : s.all p = true) (hc : p c = true)
    (hrest : ∀ d ∈ rest.head?, p d = false) {place : Cursor} (hplace : place.rest = s ++ c :: rest)
    {k : Cursor → Option (Trail κ)} {trail : Trail κ} (hlast : k (place.behind (s ++ [c])) = none)
    (hk : k (place.behind s) = some trail) : (stretch p).run place k = some trail := by
  -- the stretch goes as far as it can, is refused there, and gives back the last character
  induction s generalizing place with
  | nil =>
    have hmiss : Misses (one p : Pattern κ) (place.behind [c]).rest := by
      rw [Cursor.rest_behind (s := [c]) hplace]
      exact misses_one hrest
    have hnone : k (place.behind [c]) = none := hlast
    rw [run_stretch_of_rest hplace, if_pos hc, run_stretch_of_misses hmiss, hnone]
    exact hk
  | cons d s ih =>
    rw [List.all_cons, Bool.and_eq_true] at hs
    rw [← List.singleton_append, List.append_assoc, Cursor.behind_append (s := [d]) hplace] at hlast
    rw [← List.singleton_append, Cursor.behind_append (s := [d]) hplace] at hk
    rw [run_stretch_of_rest hplace, if_pos hs.1,
      ih hs.2 (Cursor.rest_behind (s := [d]) hplace) hlast hk]
    rfl

/-- A stretch gives its last character back to what follows. -/
theorem readsUnless_stretch1 {c : Char} (hs : IsRun p s) (hc : p c = true)
    (hrest : ∀ d ∈ (t ++ rest).head?, p d = false) (hmiss : Misses second (t ++ rest))
    (hsecond : Reads second (c :: t) rest []) :
    ReadsUnless (stretch1 p ++ maybe second) (s ++ [c]) t rest [] := by
  obtain ⟨d, s, rfl⟩ := List.exists_cons_of_ne_nil hs.ne_nil
  obtain ⟨hd, hs⟩ := List.forall_mem_cons.1 hs.forall_char
  intro place hplace
  have hfirst : place.rest = d :: (s ++ c :: (t ++ rest)) := by simpa using hplace
  have hbehind : (place.behind [d]).rest = s ++ c :: (t ++ rest) :=
    Cursor.rest_behind (s := [d]) hfirst
  have hstop : (place.behind (d :: s)).rest = c :: t ++ rest :=
    Cursor.rest_behind (by simpa using hplace)
  obtain ⟨spans, hspans, hrun⟩ := hsecond (place.behind (d :: s)) hstop
  refine ⟨spans, hspans, fun k trail hearly hk => ?_⟩
  -- at the end of the run the pattern is left out, and what follows fails
  have hnone : (maybe second).run (place.behind (d :: s ++ [c])) k = none :=
    (Option.orElse_eq_none _ _).2 ⟨hmiss _ (Cursor.rest_behind hplace) k, hearly⟩
  have hsome : (maybe second).run (place.behind (d :: s)) k = some (trail.record spans) := by
    have hlater : k ((place.behind (d :: s)).behind (c :: t)) = some trail := by
      have hstretch : place.rest = d :: s ++ c :: (t ++ rest) := by simpa using hplace
      rw [← Cursor.behind_append hstretch]
      simpa using hk
    show (second.run (place.behind (d :: s)) k <|> k (place.behind (d :: s))) = _
    rw [hrun k trail hlater]
    rfl
  rw [← List.singleton_append, Cursor.behind_append (s := [d]) hfirst] at hsome
  rw [List.cons_append, ← List.singleton_append, Cursor.behind_append (s := [d]) hfirst] at hnone
  show place.past p (fun next => (stretch p).run next fun stop => (maybe second).run stop k) = _
  rw [past_of_rest hfirst, if_pos hd]
  exact run_stretch_of_none (List.all_eq_true.2 hs) hc hrest hbehind hnone hsome

end Pattern

end RpcBinder
