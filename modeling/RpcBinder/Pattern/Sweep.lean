import RpcBinder.Pattern.Run

/-!
# Matching from everywhere at once

The preferred match from a place on is known once it is known from the places behind it.  So a
text is swept from its end to its start, and at each place every part of the pattern is asked
once.  What a part keeps for the place before is its column.

## Main definitions

* `Column`, `Pattern.blank` — what is kept of a place, and what is kept behind the end.
* `Pattern.step` — the trail from a place on and the column of the place, by the next column.
* `Cursor.onward` — the places from a place on.
* `Pattern.sweep` — the trails from all places on.
* `Pattern.sweep_eq` — these are the trails of the preferred matches.
-/

namespace RpcBinder

/-- What is kept of a place for the place before it. -/
def Column {κ : Type} : Pattern κ → Type
  | .empty => Unit
  | .lineStart => Unit
  | .lineEnd => Unit
  | .one _ => Option (Trail κ)
  | .stretch _ => Option (Trail κ)
  | .seq first second => Column first × Column second
  | .either first second => Column first × Column second
  | .many body => Column body
  | .part _ body => Column body

namespace Pattern

variable {κ : Type}

/-- The column behind the end of a text, where nothing matches. -/
def blank : (pattern : Pattern κ) → Column pattern
  | .empty => ()
  | .lineStart => ()
  | .lineEnd => ()
  | .one _ => none
  | .stretch _ => none
  | .seq first second => (blank first, blank second)
  | .either first second => (blank first, blank second)
  | .many body => blank body
  | .part _ body => blank body

/-- The trail of a pattern from a place on and the column of the place.  Given are the column
of the next place and the trail `here` of what has to follow. -/
def step : (pattern : Pattern κ) → Cursor → Column pattern → Option (Trail κ) →
    Option (Trail κ) × Column pattern
  | .empty, _, _, here => (here, ())
  | .lineStart, place, _, here => (if place.atLineStart then here else none, ())
  | .lineEnd, place, _, here => (if place.atLineEnd then here else none, ())
  | .one p, place, later, here => (place.past p fun _ => later, here)
  | .stretch p, place, later, here =>
      let answer := (place.past p fun _ => later) <|> here
      (answer, answer)
  | .seq first second, place, (laterFirst, laterSecond), here =>
      let (between, columnSecond) := second.step place laterSecond here
      let (answer, columnFirst) := first.step place laterFirst between
      (answer, (columnFirst, columnSecond))
  | .either first second, place, (laterFirst, laterSecond), here =>
      let (left, columnFirst) := first.step place laterFirst here
      let (right, columnSecond) := second.step place laterSecond here
      (left <|> right, (columnFirst, columnSecond))
  | .many body, place, later, here =>
      let answer := (body.step place later none).1 <|> here
      (answer, (body.step place later answer).2)
  | .part name body, place, later, here =>
      let (answer, column) := body.step place later (here.map (Trail.endPart name place))
      (answer.map (Trail.beginPart name place), column)

/-- The column is that of a place, if `rest` has to follow. -/
def Holds : (pattern : Pattern κ) → Column pattern → (Cursor → Option (Trail κ)) → Cursor → Prop
  | .empty, _, _, _ => True
  | .lineStart, _, _, _ => True
  | .lineEnd, _, _, _ => True
  | .one _, column, rest, place => column = rest place
  | .stretch p, column, rest, place => column = (stretch p).run place rest
  | .seq first second, column, rest, place =>
      first.Holds column.1 (second.run · rest) place ∧ second.Holds column.2 rest place
  | .either first second, column, rest, place =>
      first.Holds column.1 rest place ∧ second.Holds column.2 rest place
  | .many body, column, rest, place => body.Holds column ((many body).run · rest) place
  | .part name body, column, rest, place =>
      body.Holds column (fun stop => (rest stop).map (Trail.endPart name stop)) place

/-- A column says nothing of what lies behind. -/
theorem Holds.congr {pattern : Pattern κ} {column : Column pattern} {place : Cursor}
    {f g : Cursor → Option (Trail κ)} (h : ∀ next : Cursor, next.left ≤ place.left → f next = g next)
    (hf : pattern.Holds column f place) : pattern.Holds column g place := by
  induction pattern generalizing f g with
  | empty => trivial
  | lineStart => trivial
  | lineEnd => trivial
  | one p => exact hf.trans (h place (Nat.le_refl _))
  | stretch p => exact hf.trans (run_congr _ _ h)
  | seq first second ih1 ih2 =>
    exact ⟨ih1 (fun next hle => run_congr _ _ fun later hle' => h later (Nat.le_trans hle' hle))
      hf.1, ih2 h hf.2⟩
  | either first second ih1 ih2 => exact ⟨ih1 h hf.1, ih2 h hf.2⟩
  | many body ih =>
    exact ih (fun next hle => run_congr _ _ fun later hle' => h later (Nat.le_trans hle' hle)) hf
  | part name body ih => exact ih (fun next hle => by rw [h next hle]) hf

/-- A step gives the preferred match and the column of its place. -/
theorem step_spec (pattern : Pattern κ) (place : Cursor) (later : Column pattern)
    (rest : Cursor → Option (Trail κ))
    (h : ∀ c next, place.next? = some (c, next) → pattern.Holds later rest next) :
    (pattern.step place later (rest place)).1 = pattern.run place rest ∧
      pattern.Holds (pattern.step place later (rest place)).2 rest place := by
  induction pattern generalizing rest with
  | empty => exact ⟨rfl, trivial⟩
  | lineStart => exact ⟨rfl, trivial⟩
  | lineEnd => exact ⟨rfl, trivial⟩
  | one p => exact ⟨Cursor.past_congr p place h, rfl⟩
  | stretch p =>
    -- the column keeps the answer itself, so one equation serves both parts
    have answer : ((stretch p).step place later (rest place)).1 = (stretch p).run place rest := by
      rw [run_stretch, ← Cursor.past_congr p place h]
      rfl
    exact ⟨answer, answer⟩
  | seq first second ih1 ih2 =>
    obtain ⟨laterFirst, laterSecond⟩ := later
    -- the second pattern first: its answer here is what the first one goes on with
    obtain ⟨between, hsecond⟩ := ih2 laterSecond rest fun c next hn => (h c next hn).2
    have := ih1 laterFirst (second.run · rest) fun c next hn => (h c next hn).1
    simp only [← between] at this
    exact ⟨this.1, this.2, hsecond⟩
  | either first second ih1 ih2 =>
    obtain ⟨laterFirst, laterSecond⟩ := later
    obtain ⟨left, hfirst⟩ := ih1 laterFirst rest fun c next hn => (h c next hn).1
    obtain ⟨right, hsecond⟩ := ih2 laterSecond rest fun c next hn => (h c next hn).2
    refine ⟨?_, hfirst, hsecond⟩
    simp only [step, run, left, right]
  | many body ih =>
    -- a round must take something, so at this very place the body has nothing to go on with
    have round := (ih later
      (fun next => if next.left < place.left then (many body).run next rest else none)
      fun c next hn => Holds.congr (fun after hle => by
        rw [if_pos (Nat.lt_of_le_of_lt hle (Cursor.left_lt_of_next? hn))]) (h c next hn)).1
    simp only [Nat.lt_irrefl, if_false] at round
    have answer : ((many body).step place later (rest place)).1 = (many body).run place rest := by
      rw [run_many, ← round]
      rfl
    refine ⟨answer, ?_⟩
    have := (ih later ((many body).run · rest) h).2
    rw [← answer] at this
    exact this
  | part name body ih =>
    obtain ⟨answer, hbody⟩ := ih later (fun stop => (rest stop).map (Trail.endPart name stop)) h
    refine ⟨?_, hbody⟩
    simp only [step, run, answer]

end Pattern

/-- The places from a place on, that place first. -/
def Cursor.onward (place : Cursor) : List Cursor :=
  match _h : place.next? with
  | some (_, next) => place :: next.onward
  | none => [place]
termination_by place.left
decreasing_by exact left_lt_of_next? _h

namespace Pattern

variable {κ : Type}

/-- The trails from all places on, each with its place, and the column of the first place. -/
def sweepOnward (pattern : Pattern κ) (finish : Cursor → Option (Trail κ)) (places : List Cursor) :
    List (Cursor × Option (Trail κ)) × Column pattern :=
  places.foldr
    (fun place (answers, later) =>
      let (answer, column) := pattern.step place later (finish place)
      ((place, answer) :: answers, column))
    ([], pattern.blank)

/-- The trails of the preferred matches from all places of a text on that `finish` accepts. -/
def sweep (pattern : Pattern κ) (finish : Cursor → Option (Trail κ)) (text : List Char) :
    List (Cursor × Option (Trail κ)) :=
  (pattern.sweepOnward finish (Cursor.ofText text).onward).1

/-- Sweeping gives what matching from each place on gives. -/
theorem sweepOnward_onward (pattern : Pattern κ) (finish : Cursor → Option (Trail κ))
    (place : Cursor) :
    (pattern.sweepOnward finish place.onward).1 =
        place.onward.map (fun place => (place, pattern.run place finish)) ∧
      pattern.Holds (pattern.sweepOnward finish place.onward).2 finish place := by
  fun_induction Cursor.onward place with
  | case1 place c next hn ih =>
    obtain ⟨answers, hnext⟩ := ih
    obtain ⟨answer, hplace⟩ := pattern.step_spec place _ finish fun d next' hn' => by
      rw [hn] at hn'
      cases hn'
      exact hnext
    simp only [sweepOnward, List.foldr_cons, List.map_cons] at *
    exact ⟨by rw [answer, answers], hplace⟩
  | case2 place hn =>
    obtain ⟨answer, hplace⟩ := pattern.step_spec place pattern.blank finish fun d next' hn' => by
      rw [hn] at hn'
      cases hn'
    exact ⟨by simp [sweepOnward, answer], hplace⟩

/-- Sweeping a text gives what matching from each of its places on gives. -/
theorem sweep_eq (pattern : Pattern κ) (finish : Cursor → Option (Trail κ)) (text : List Char) :
    pattern.sweep finish text =
      (Cursor.ofText text).onward.map fun place => (place, pattern.run place finish) :=
  (pattern.sweepOnward_onward finish _).1

end Pattern

end RpcBinder
