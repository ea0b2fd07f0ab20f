import RpcBinder.Text.Bytes
import RpcBinder.Lexis.Region

/-!
# Blanking comments

Declarations are looked for in a text whose comments are blanked.  Offsets and line breaks
stay where they are, because every byte of a comment becomes a space, carriage returns and
line feeds apart.

## Main definitions

* `blank` — a character with its region after the blanking.
* `stripComments` — the text with its comments blanked.
-/

namespace RpcBinder.Lexis

/-- What stands for a character after the blanking: a comment's character gives a space for
each of its bytes. -/
def blank : Char × Region → List Char
  | (c, .comment) => if c == '\n' || c == '\r' then [c] else List.replicate c.utf8Size ' '
  | (c, _) => [c]

/-- The text with its comments blanked. -/
def stripComments (text : List Char) : List Char :=
  (regions text).flatMap blank

/-- Blanking keeps the size in bytes of every character. -/
theorem byteLength_blank (labelled : Char × Region) :
    byteLength (blank labelled) = labelled.1.utf8Size := by
  have spaces : ∀ n, byteLength (List.replicate n ' ') = n := by
    intro n
    induction n with
    | zero => rfl
    | succ n ih =>
      rw [List.replicate_succ, byteLength_cons, ih, show Char.utf8Size ' ' = 1 from rfl,
        Nat.add_comm]
  obtain ⟨c, region⟩ := labelled
  cases region <;> simp only [blank] <;> try split
  all_goals simp [spaces]

end RpcBinder.Lexis
