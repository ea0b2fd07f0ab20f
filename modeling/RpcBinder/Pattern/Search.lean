import RpcBinder.Pattern.Sweep

/-!
# Searching a text for a pattern

## Main definitions

* `Match` — a match with its named parts.
* `Pattern.matchAt?` — the preferred match that begins at a place.
* `Pattern.findAll` — all matches of a text, one after the other.
* `Pattern.find?` — the first of them.
* `Pattern.matchesAll` — a text that matches as a whole.
-/

namespace RpcBinder

/-- A match of a pattern in a text. -/
structure Match (κ : Type) where
  /-- Where it begins. -/
  start : Cursor
  /-- The trail from there on. -/
  trail : Trail κ

/-- Where a match ends. -/
def Match.stop {κ : Type} (found : Match κ) : Cursor :=
  found.trail.stop

/-- The text of a named part, if the match has it. -/
def Match.part? {κ : Type} [BEq κ] (found : Match κ) (name : κ) : Option (List Char) := do
  let start ← found.trail.begins.lookup name
  let stop ← found.trail.ends.lookup name
  return (Span.mk start stop).text

/-- The text of a named part, empty if the match does not have it. -/
def Match.part {κ : Type} [BEq κ] (found : Match κ) (name : κ) : List Char :=
  (found.part? name).getD []

namespace Pattern

variable {κ : Type}

/-- Nothing has to follow. -/
def accept (place : Cursor) : Option (Trail κ) :=
  some ⟨place, [], []⟩

/-- The text has to end. -/
def acceptEnd (place : Cursor) : Option (Trail κ) :=
  if place.rest.isEmpty then accept place else none

/-- The preferred match that begins at a place. -/
def matchAt? (pattern : Pattern κ) (place : Cursor) : Option (Match κ) :=
  (pattern.run place accept).map (Match.mk place)

/-- The matches among those that begin at a series of places, each after the one before it.  At
first no more than `left` bytes are left. -/
def disjoint (left : Nat) : List (Cursor × Option (Trail κ)) → List (Match κ)
  | [] => []
  | (place, answer) :: answers =>
      match answer with
      | some trail =>
          if place.left ≤ left then ⟨place, trail⟩ :: disjoint trail.stop.left answers
          else disjoint left answers
      | none => disjoint left answers

/-- All matches in a text, each after the one before it. -/
def findAll (pattern : Pattern κ) (text : List Char) : List (Match κ) :=
  disjoint (byteLength text) (pattern.sweep accept text)

/-- The first match in a text. -/
def find? (pattern : Pattern κ) (text : List Char) : Option (Match κ) :=
  (pattern.findAll text).head?

/-- The whole text matches. -/
def matchesAll (pattern : Pattern κ) (text : List Char) : Bool :=
  ((pattern.sweep acceptEnd text).head?.bind (·.2)).isSome

end Pattern

end RpcBinder
