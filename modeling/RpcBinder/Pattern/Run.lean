import RpcBinder.Pattern.Basic

/-!
# What a pattern means

Matching follows the preferences of a pattern and goes back to the next one when what has to
follow does not fit, so the preferred match among all that fit is found.  What has to follow
is a function of the place where the match ends.

## Main definitions

* `Trail` — where a match ends, and where its parts begin and end.
* `Pattern.run` — the trail of the preferred match from a place on that lets the rest succeed.
* `Pattern.run_many` — a repetition is another round and the repetition, or nothing.
* `Pattern.run_congr` — a match asks of the rest only what lies ahead.
-/

namespace RpcBinder

/-- The trail that a match leaves. -/
structure Trail (κ : Type) where
  /-- Where it ends. -/
  stop : Cursor
  /-- Where the named parts begin. -/
  begins : List (κ × Cursor) := []
  /-- Where they end. -/
  ends : List (κ × Cursor) := []

namespace Trail

variable {κ : Type}

/-- The trail with the begin of a part. -/
def beginPart (name : κ) (place : Cursor) (trail : Trail κ) : Trail κ :=
  { trail with begins := (name, place) :: trail.begins }

/-- The trail with the end of a part. -/
def endPart (name : κ) (place : Cursor) (trail : Trail κ) : Trail κ :=
  { trail with ends := (name, place) :: trail.ends }

end Trail

namespace Pattern

variable {κ : Type}

/-- Any number of rounds of a step, each of which moves on, as many as possible. -/
def iterate (step : Cursor → (Cursor → Option (Trail κ)) → Option (Trail κ))
    (place : Cursor) (rest : Cursor → Option (Trail κ)) : Option (Trail κ) :=
  step place (fun next =>
    if next.left < place.left then iterate step next rest else none) <|> rest place
termination_by place.left

/-- The trail of the preferred match from a place on that lets the rest succeed. -/
def run : Pattern κ → Cursor → (Cursor → Option (Trail κ)) → Option (Trail κ)
  | .empty, place, rest => rest place
  | .lineStart, place, rest => if place.atLineStart then rest place else none
  | .lineEnd, place, rest => if place.atLineEnd then rest place else none
  | .one p, place, rest => place.past p rest
  | .stretch p, place, rest => (place.reach p []).findSome? rest
  | .seq first second, place, rest => first.run place fun next => second.run next rest
  | .either first second, place, rest => first.run place rest <|> second.run place rest
  | .many body, place, rest => iterate body.run place rest
  | .part name body, place, rest =>
      (body.run place fun stop => (rest stop).map (Trail.endPart name stop)).map
        (Trail.beginPart name place)

/-- A repetition is a round that moves on and the repetition again, or nothing. -/
theorem run_many (body : Pattern κ) (place : Cursor) (rest : Cursor → Option (Trail κ)) :
    (many body).run place rest =
      (body.run place (fun next =>
        if next.left < place.left then (many body).run next rest else none) <|> rest place) := by
  simp only [run]
  rw [iterate]

/-- Nearer places come after all that are reached. -/
theorem reach_eq_append (p : Char → Bool) (place : Cursor) (nearer : List Cursor) :
    place.reach p nearer = place.reach p [] ++ nearer := by
  -- induction on what is left of the text, since a stretch goes on from the next place
  induction h : place.left using Nat.strongRecOn generalizing place nearer with
  | ind left ih =>
    rw [Cursor.reach.eq_def p place nearer, Cursor.reach.eq_def p place []]
    split
    · next c next hn =>
      have hlt := Cursor.left_lt_of_next? hn
      split
      · rw [ih next.left (h ▸ hlt) next (place :: nearer) rfl,
          ih next.left (h ▸ hlt) next [place] rfl]
        simp
      · rfl
    · rfl

/-- A stretch goes on as long as it can, and ends here if it cannot. -/
theorem run_stretch (p : Char → Bool) (place : Cursor) (rest : Cursor → Option (Trail κ)) :
    (stretch p).run place rest =
      (place.past p ((stretch p).run · rest) <|> rest place) := by
  simp only [run, Cursor.past]
  rw [Cursor.reach.eq_def p place []]
  split
  · next c next hn =>
    rw [hn]
    split
    · next hp =>
      rw [reach_eq_append]
      simp [hp]
    · next hp => simp [hp]
  · next hn =>
    rw [hn]
    simp

/-- A match asks of the rest only what lies ahead. -/
theorem run_congr (pattern : Pattern κ) (place : Cursor) {f g : Cursor → Option (Trail κ)}
    (h : ∀ next : Cursor, next.left ≤ place.left → f next = g next) :
    pattern.run place f = pattern.run place g := by
  induction pattern generalizing place f g with
  | empty => exact h place (Nat.le_refl _)
  | lineStart => simp only [run, h place (Nat.le_refl _)]
  | lineEnd => simp only [run, h place (Nat.le_refl _)]
  | one p =>
    exact Cursor.past_congr p place fun c next hn =>
      h next (Nat.le_of_lt (Cursor.left_lt_of_next? hn))
  | stretch p =>
    -- a stretch goes on from the next place: a second induction, on what is left
    induction hl : place.left using Nat.strongRecOn generalizing place with
    | ind left ih =>
      rw [run_stretch, run_stretch p place g, h place (Nat.le_refl _)]
      congr 1
      refine Cursor.past_congr p place fun c next hn => ?_
      have hlt := Cursor.left_lt_of_next? hn
      exact ih next.left (hl ▸ hlt) next (fun later hle => h later (by omega)) rfl
  | seq first second ih1 ih2 =>
    exact ih1 place fun next hle => ih2 next fun later hle' => h later (Nat.le_trans hle' hle)
  | either first second ih1 ih2 => simp only [run, ih1 place h, ih2 place h]
  | many body ih =>
    -- and so does a repetition, of which every round takes something
    induction hl : place.left using Nat.strongRecOn generalizing place with
    | ind left ihl =>
      rw [run_many, run_many body place g, h place (Nat.le_refl _)]
      congr 1
      refine ih place fun next _ => ?_
      split
      · next hlt => exact ihl next.left (hl ▸ hlt) next (fun later hle => h later (by omega)) rfl
      · rfl
  | part name body ih =>
    simp only [run]
    rw [ih place fun next hle => by rw [h next hle]]

end Pattern

end RpcBinder
