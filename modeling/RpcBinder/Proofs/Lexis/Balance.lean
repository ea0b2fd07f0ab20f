import Mathlib.Data.List.Infix
import RpcBinder.Proofs.Lexis.Nesting

/-!
# Splitting undoes joining

The splitter counts brackets with a depth that stops at zero and remembers whether a dash stands
before the next character.  Within an entry whose brackets are balanced the depth never has to
stop, so it is the number of brackets opened less the number of those closed, and it is zero
again at the end.  There the comma makes the splitter forget the dash, so nothing that it
knows of one entry is left when it reads the next.

## Main definitions

* `openings`, `closings` — how many brackets a text opens and how many it closes.
* `IsEntry` — a trimmed text that is balanced and whose commas lie within brackets.
* `IsJoined`, `IsTail` — entries joined by commas with white space behind them, and what may
  follow the last one.

## Main results

* `IsEntry.isSealed` — the splitter comes out of an entry as it went in.
* `splitTopLevel_joined` — entries that were joined are what the splitter gives back.
-/

namespace RpcBinder.Lexis

/-! ### Counting brackets -/

/-- Whether the character opens a bracket. -/
def opens (c : Char) : Bool :=
  c == '<' || c == '('

/-- Whether the character `c` closes a bracket behind the character `before`: the `>` of an
arrow `->` does not. -/
def closes (before c : Char) : Bool :=
  c == ')' || (c == '>' && before != '-')

/-- How many brackets a text opens. -/
def openings (text : List Char) : Nat :=
  text.countP opens

/-- How many brackets a text closes that stands behind the character `before`. -/
def closingsBehind : Char → List Char → Nat
  | _, [] => 0
  | before, c :: rest => closingsBehind c rest + if closes before c then 1 else 0

/-- How many brackets a text closes. -/
def closings (text : List Char) : Nat :=
  closingsBehind ' ' text

/-- A trimmed text whose brackets are balanced, and whose commas all lie within brackets. -/
structure IsEntry (entry : List Char) : Prop where
  isSolid : IsSolid entry
  closings_le : ∀ front, front <+: entry → closings front ≤ openings front
  closings_eq : closings entry = openings entry
  closings_lt : ∀ front, front ++ [','] <+: entry → closings front < openings front

instance (entry : List Char) : Decidable (IsEntry entry) :=
  decidable_of_iff
    (IsSolid entry ∧ (∀ front ∈ entry.inits, closings front ≤ openings front) ∧
      closings entry = openings entry ∧
      ∀ front ∈ entry.inits, front ++ [','] <+: entry → closings front < openings front)
    ⟨fun ⟨hsolid, hle, heq, hlt⟩ =>
      ⟨hsolid, fun front hfront => hle front ((List.mem_inits front entry).2 hfront), heq,
        fun front hfront => hlt front
          ((List.mem_inits front entry).2 ((List.prefix_append front [',']).trans hfront)) hfront⟩,
      fun h => ⟨h.isSolid,
        fun front hfront => h.closings_le front ((List.mem_inits front entry).1 hfront),
        h.closings_eq, fun front _ => h.closings_lt front⟩⟩

/-- The texts made of the entries, joined by commas with white space behind each. -/
inductive IsJoined : List (List Char) → List Char → Prop
  | nil : IsJoined [] []
  | single (entry : List Char) : IsJoined [entry] entry
  | cons (entry : List Char) {blank : List Char} {entries : List (List Char)} {text : List Char}
      (hblank : isBlank blank = true) (hne : entries ≠ []) (hrest : IsJoined entries text) :
      IsJoined (entry :: entries) (entry ++ ',' :: (blank ++ text))

/-- What may stand behind the last entry: nothing, or a comma and white space. -/
inductive IsTail : List Char → Prop
  | nil : IsTail []
  | comma {blank : List Char} (hblank : isBlank blank = true) : IsTail (',' :: blank)

/-! ### The depth within an entry -/

theorem closes_of_opens {c : Char} (h : opens c = true) (before : Char) :
    closes before c = false := by
  rcases Bool.or_eq_true_iff.1 h with hc | hc <;> rw [eq_of_beq hc] <;> rfl

/-- Where no more is closed than is open, the depth is what the counts say. -/
theorem nest_add_closes {depth : Nat} {before c : Char} (h : closes before c = true → 0 < depth) :
    nest depth (before == '-') c + (if closes before c then 1 else 0) =
      depth + (if opens c then 1 else 0) := by
  have hnest : nest depth (before == '-') c =
      if opens c then depth + 1 else if closes before c then depth - 1 else depth := rfl
  rw [hnest]
  by_cases hopens : opens c = true
  · simp [hopens, closes_of_opens hopens before]
  · rw [if_neg hopens, if_neg hopens]
    split
    · next hcloses =>
      have := h hcloses
      omega
    · rfl

/-- **The depth is the difference of the counts**: a walk goes through a text as long as no
bracket is closed too many and every comma is within one. -/
theorem exists_walk {depth : Nat} {before : Char} {text : List Char}
    (hle : ∀ front, front <+: text → closingsBehind before front ≤ depth + openings front)
    (hlt : ∀ front, front ++ [','] <+: text →
      closingsBehind before front < depth + openings front) :
    ∃ depth' dash, walk (depth, before == '-') text = some (depth', dash) ∧
      depth' + closingsBehind before text = depth + openings text := by
  induction text generalizing depth before with
  | nil => exact ⟨depth, _, rfl, rfl⟩
  | cons c rest ih =>
    have hopenings : ∀ front, openings (c :: front) = openings front + if opens c then 1 else 0 :=
      fun front => List.countP_cons
    have hclosings : ∀ front, closingsBehind before (c :: front) =
        closingsBehind c front + if closes before c then 1 else 0 := fun _ => rfl
    -- the prefix of one character bounds what it may close
    have hcloses : closes before c = true → 0 < depth := by
      intro hc
      have hfirst := hle [c] ⟨rest, rfl⟩
      have hopens : opens c = false := by
        by_contra hopens
        rw [closes_of_opens (by simpa using hopens) before] at hc
        cases hc
      rw [hclosings, hopenings, hc, hopens] at hfirst
      exact Nat.lt_of_lt_of_le (Nat.succ_pos _) hfirst
    have hcomma : ¬(c == ',' && depth == 0) = true := by
      intro h
      obtain ⟨hc, hdepth⟩ := Bool.and_eq_true_iff.1 h
      obtain rfl : c = ',' := eq_of_beq hc
      have hfirst : 0 < depth := hlt [] ⟨rest, rfl⟩
      rw [eq_of_beq hdepth] at hfirst
      exact absurd hfirst (Nat.lt_irrefl 0)
    have hstep := nest_add_closes hcloses
    -- what is asked of the rest is what was asked of the text, one character later
    have hle' : ∀ front, front <+: rest →
        closingsBehind c front ≤ nest depth (before == '-') c + openings front := by
      intro front hfront
      have := hle (c :: front) (List.cons_prefix_cons.2 ⟨rfl, hfront⟩)
      rw [hclosings, hopenings] at this
      omega
    have hlt' : ∀ front, front ++ [','] <+: rest →
        closingsBehind c front < nest depth (before == '-') c + openings front := by
      intro front hfront
      have := hlt (c :: front) (List.cons_prefix_cons.2 ⟨rfl, hfront⟩)
      rw [hclosings, hopenings] at this
      omega
    obtain ⟨depth', dash, hwalk, hcounts⟩ := ih hle' hlt'
    refine ⟨depth', dash, ?_, ?_⟩
    · rw [walk_cons, if_neg hcomma, hwalk]
    · rw [hclosings, hopenings]
      omega

/-- The splitter comes out of an entry as it went in. -/
theorem IsEntry.isSealed {entry : List Char} (h : IsEntry entry) : IsSealed entry := by
  -- the counts of the brackets bound the depth, and let no comma stand at depth zero
  have hle : ∀ front, front <+: entry → closings front ≤ 0 + openings front := by
    intro front hfront
    rw [Nat.zero_add]
    exact h.closings_le front hfront
  have hlt : ∀ front, front ++ [','] <+: entry → closings front < 0 + openings front := by
    intro front hfront
    rw [Nat.zero_add]
    exact h.closings_lt front hfront
  obtain ⟨depth, dash, hwalk, hcounts⟩ := @exists_walk 0 ' ' entry hle hlt
  have hbalanced : closingsBehind ' ' entry = openings entry := h.closings_eq
  obtain rfl : depth = 0 := by omega
  exact ⟨dash, hwalk⟩

/-! ### Joining and splitting -/

theorem isSealed_blank_append {blank text : List Char} (hblank : isBlank blank = true)
    (h : IsSealed text) : IsSealed (blank ++ text) := by
  obtain ⟨dash, h⟩ := h
  refine ⟨dash, ?_⟩
  rw [walk_append, walk_of_isBlank 0 hblank, Option.bind_some, h]

theorem isPadded_blank_append {blank : List Char} (hblank : isBlank blank = true)
    (text : List Char) : IsPadded text (blank ++ text) :=
  ⟨blank, [], hblank, rfl, by simp⟩

/-- Joined entries are found as pieces, each with the white space in front of it, whether or not
a comma follows the last one. -/
theorem IsJoined.exists_pieces {entries : List (List Char)} {text blank : List Char}
    (hjoined : IsJoined entries text) (hne : entries ≠ []) (hblank : isBlank blank = true)
    (hsealed : ∀ entry ∈ entries, IsSealed entry) :
    ∃ padded, List.Forall₂ IsPadded entries padded ∧
      pieces 0 false (blank ++ text) = padded ∧
      ∀ after, pieces 0 false (blank ++ text ++ ',' :: after) =
        padded ++ pieces 0 false after := by
  induction hjoined generalizing blank with
  | nil => exact absurd rfl hne
  | single entry =>
    have hpiece := isSealed_blank_append hblank (hsealed entry List.mem_cons_self)
    obtain ⟨state, hwalk⟩ := hpiece.isEnclosed
    exact ⟨[blank ++ entry], .cons (isPadded_blank_append hblank entry) .nil,
      pieces_of_walk hwalk, fun after => pieces_append_comma hpiece after⟩
  | @cons entry blank' entries text hblank' hne' hrest ih =>
    obtain ⟨padded, hpadded, hpieces, hcomma⟩ :=
      ih hne' hblank' fun other hmem => hsealed other (List.mem_cons_of_mem _ hmem)
    have hpiece := isSealed_blank_append hblank (hsealed entry List.mem_cons_self)
    refine ⟨(blank ++ entry) :: padded, .cons (isPadded_blank_append hblank entry) hpadded,
      ?_, ?_⟩
    · rw [← List.append_assoc, pieces_append_comma hpiece, hpieces]
    · intro after
      have hcut := pieces_append_comma hpiece (blank' ++ text ++ ',' :: after)
      rw [hcomma, ← List.cons_append] at hcut
      simpa only [List.append_assoc, List.cons_append] using hcut

/-- Where white space alone stands behind the last comma, it makes no entry. -/
theorem splitTopLevel_of_pieces_blank {text blank : List Char} {padded : List (List Char)}
    (hpieces : pieces 0 false text = padded ++ [blank]) (hblank : isBlank blank = true) :
    splitTopLevel text = padded.map trim := by
  have htrim : (padded ++ [blank]).map trim = padded.map trim ++ [[]] := by
    rw [List.map_append, List.map_singleton, (trim_eq_nil_iff blank).2 hblank]
  rw [splitTopLevel, hpieces, htrim]
  simp

/-- Behind no entry at all, a comma has the empty entry in front of it. -/
theorem splitTopLevel_comma {blank : List Char} (hblank : isBlank blank = true) :
    splitTopLevel (',' :: blank) = [[]] := by
  have hpieces : pieces 0 false ([] ++ ',' :: blank) = [[]] ++ [blank] := by
    rw [pieces_append_comma ⟨false, rfl⟩, pieces_of_walk (walk_of_isBlank 0 hblank)]
    rfl
  exact splitTopLevel_of_pieces_blank hpieces hblank

/-- **Splitting undoes joining.**  The entries that a text was joined from are what the splitter
gives back, with and without a comma behind the last one.  Only where there is no entry, a comma
is behind none, and the splitter finds the one empty entry in front of it. -/
theorem splitTopLevel_joined {entries : List (List Char)} {text tail : List Char}
    (hentries : ∀ entry ∈ entries, IsEntry entry) (hjoined : IsJoined entries text)
    (htail : IsTail tail) :
    (splitTopLevel (text ++ tail) = entries ↔ (entries = [] → tail = [])) ∧
      (entries = [] → tail ≠ [] → splitTopLevel (text ++ tail) = [[]]) := by
  by_cases hne : entries = []
  · subst hne
    cases hjoined
    cases htail with
    | nil => exact ⟨⟨fun _ _ => rfl, fun _ => rfl⟩, fun _ htail => absurd rfl htail⟩
    | @comma blank hblank =>
      -- the splitter gives an entry where there is none, so neither side of the equivalence holds
      have hcomma : splitTopLevel ([] ++ ',' :: blank) = [[]] := splitTopLevel_comma hblank
      rw [hcomma]
      exact ⟨⟨nofun, fun h => nomatch h rfl⟩, fun _ _ => rfl⟩
  · refine ⟨⟨fun _ h => absurd h hne, fun _ => ?_⟩, fun h => absurd h hne⟩
    have hsolid : ∀ entry ∈ entries, IsSolid entry :=
      fun entry hmem => (hentries entry hmem).isSolid
    obtain ⟨padded, hpadded, hpieces, hcomma⟩ :=
      hjoined.exists_pieces hne (show isBlank [] = true from rfl) fun entry hmem =>
        (hentries entry hmem).isSealed
    cases htail with
    | nil =>
      rw [List.append_nil]
      exact splitTopLevel_of_pieces hpieces hpadded hsolid
    | @comma blank hblank =>
      have hpieces' : pieces 0 false (text ++ ',' :: blank) = padded ++ [blank] := by
        rw [← pieces_of_walk (walk_of_isBlank 0 hblank)]
        exact hcomma blank
      rw [splitTopLevel_of_pieces_blank hpieces' hblank]
      exact map_trim_of_isPadded hpadded hsolid

/-- An arrow at the end of an entry and one at the beginning of the next, nested brackets, line
breaks behind a comma, and a comma behind the last entry.  And a comma behind no entry. -/
theorem splitTopLevel_joined_example :
    (∃ entries text tail, (∀ entry ∈ entries, IsEntry entry) ∧ IsJoined entries text ∧
      IsTail tail ∧ splitTopLevel (text ++ tail) = entries ∧
      entries = ["f: (List<A>, () -> B) -> Map<K, V>-".toList, "-> c".toList, "g(1, (2))".toList] ∧
      text ++ tail = "f: (List<A>, () -> B) -> Map<K, V>-,\n  -> c,g(1, (2)), ".toList) ∧
    (IsJoined [] [] ∧ IsTail ",\n".toList ∧ splitTopLevel ([] ++ ",\n".toList) = [[]]) := by
  have hentries : ∀ entry ∈ ["f: (List<A>, () -> B) -> Map<K, V>-".toList, "-> c".toList,
      "g(1, (2))".toList], IsEntry entry := by decide +kernel
  have hjoined := IsJoined.cons "f: (List<A>, () -> B) -> Map<K, V>-".toList
    (show isBlank "\n  ".toList = true by decide) (by simp)
    (.cons "-> c".toList (show isBlank [] = true from rfl) (by simp) (.single "g(1, (2))".toList))
  have htail : IsTail ", ".toList := .comma (show isBlank [' '] = true by decide)
  have hline : IsTail ",\n".toList := .comma (show isBlank ['\n'] = true by decide)
  exact ⟨⟨_, _, _, hentries, hjoined, htail,
      (splitTopLevel_joined hentries hjoined htail).1.2 nofun, rfl, by decide +kernel⟩,
    .nil, hline, (splitTopLevel_joined (List.forall_mem_nil _) .nil hline).2 rfl (by decide)⟩

/-- A comma on its own is behind no entry, so joining no entries is not undone. -/
theorem splitTopLevel_lone_comma :
    ¬∀ (entries : List (List Char)) (text tail : List Char), (∀ entry ∈ entries, IsEntry entry) →
      IsJoined entries text → IsTail tail → splitTopLevel (text ++ tail) = entries := by
  intro h
  have hcomma : splitTopLevel [','] = [] := h [] [] [','] nofun .nil (.comma rfl)
  have hempty : splitTopLevel [','] = [[]] := by decide
  rw [hempty] at hcomma
  cases hcomma

end RpcBinder.Lexis
