import Mathlib.Algebra.BigOperators.Group.List.Basic
import Mathlib.Data.List.Find
import Mathlib.Tactic.Ring
import RpcBinder.Lexis.Parens
import RpcBinder.Proofs.Lexis.Depth

/-!
# The closing parenthesis in a text whose comments were blanked

The search for a closing parenthesis knows literals by their quotes alone.  It has no raw
strings: their three quotes open, close and open a literal again, and from then on it reads the
content like that of a string.  It does not end a literal with its line either.  So it stays
in step with the pass over the source as long as no literal holds a character that the two
read differently (`Mode.misreads`), and up to the first such character the parenthesis that it
answers is the one of the source.

## Main definitions

* `codeOf` — the characters of code of a source text with their offsets.
* `IsClosing` — the parenthesis of the code that closes the one at an offset.
* `misreadOf` — where the two readings of literals part.
* `closingAmong`, `closingFrom` — the same search over characters of code and over a text.
* `codeClosing` — the search over the code of the characters that are left of a source.

## Main results

* `closingAmong_eq_some_iff` — counting the open parentheses finds the closing one.
* `closingFrom_strip` — the search over the blanked text is the one over the code of the source.
* `closingParen?_stripComments` — **the closing parenthesis of the blanked text is the one of the
  source**, if no misread character stands in front of it.
* `closingParen?_misses_raw` — behind a backslash in a raw string it may not be found.
-/

namespace RpcBinder.Lexis

/-! ### The code of a source text -/

/-- The characters of code with their offsets, the first of the text being at `offset`. -/
def codeFrom : Nat → List (Char × Region) → List (Nat × Char)
  | _, [] => []
  | offset, (c, region) :: rest =>
      (if region = .code then [(offset, c)] else []) ++ codeFrom (offset + c.utf8Size) rest

/-- The characters of code of a source text with their offsets. -/
def codeOf (source : List Char) : List (Nat × Char) :=
  codeFrom 0 (regions source)

theorem codeFrom_cons_code (offset : Nat) (c : Char) (rest : List (Char × Region)) :
    codeFrom offset ((c, .code) :: rest) = (offset, c) :: codeFrom (offset + c.utf8Size) rest := rfl

theorem codeFrom_cons_of_ne {region : Region} (h : region ≠ .code) (offset : Nat) (c : Char)
    (rest : List (Char × Region)) :
    codeFrom offset ((c, region) :: rest) = codeFrom (offset + c.utf8Size) rest := by
  simp [codeFrom, h]

theorem le_of_mem_codeFrom {offset : Nat} {labelled : List (Char × Region)} {entry : Nat × Char}
    (h : entry ∈ codeFrom offset labelled) : offset ≤ entry.1 := by
  induction labelled generalizing offset with
  | nil => cases h
  | cons first rest ih =>
    obtain ⟨c, region⟩ := first
    rcases List.mem_append.1 h with hhere | hrest
    · split at hhere
      · rw [List.mem_singleton.1 hhere]
      · cases hhere
    · exact (Nat.le_add_right offset c.utf8Size).trans (ih hrest)

theorem lt_of_mem_codeFrom {offset : Nat} {c : Char} {labelled : List (Char × Region)}
    {entry : Nat × Char} (h : entry ∈ codeFrom (offset + c.utf8Size) labelled) :
    offset < entry.1 :=
  Nat.lt_of_lt_of_le (Nat.lt_add_of_pos_right c.utf8Size_pos) (le_of_mem_codeFrom h)

theorem pairwise_codeFrom (offset : Nat) (labelled : List (Char × Region)) :
    (codeFrom offset labelled).Pairwise (·.1 < ·.1) := by
  induction labelled generalizing offset with
  | nil => exact .nil
  | cons first rest ih =>
    obtain ⟨c, region⟩ := first
    by_cases hcode : region = .code
    · subst hcode
      exact .cons (fun entry hentry => lt_of_mem_codeFrom hentry) (ih _)
    · rw [codeFrom_cons_of_ne hcode]
      exact ih _

/-! ### Balanced parentheses -/

/-- What a character adds to the number of open parentheses. -/
def parenValue (c : Char) : Int :=
  if c = '(' then 1 else if c = ')' then -1 else 0

/-- The parentheses that are opened from the offset `opening` up to the offset `last`, less
those that are closed there. -/
def parenBalance (code : List (Nat × Char)) (opening last : Nat) : Int :=
  ((code.filter fun entry => opening ≤ entry.1 ∧ entry.1 ≤ last).map (parenValue ·.2)).sum

/-- The parenthesis at the offset `close` closes the one at the offset `opening`: it is the
first one behind it at which the parentheses since then are balanced. -/
structure IsClosing (code : List (Nat × Char)) (opening close : Nat) : Prop where
  closes : (close, ')') ∈ code
  after : opening < close
  balances : parenBalance code opening close = 0
  first : ∀ earlier < close, opening < earlier → (earlier, ')') ∈ code →
    parenBalance code opening earlier ≠ 0

instance (code : List (Nat × Char)) (opening close : Nat) :
    Decidable (IsClosing code opening close) :=
  decidable_of_iff
    ((close, ')') ∈ code ∧ opening < close ∧ parenBalance code opening close = 0 ∧
      ∀ earlier < close, opening < earlier → (earlier, ')') ∈ code →
        parenBalance code opening earlier ≠ 0)
    ⟨fun ⟨closes, after, balances, first⟩ => ⟨closes, after, balances, first⟩,
      fun ⟨closes, after, balances, first⟩ => ⟨closes, after, balances, first⟩⟩

theorem parenBalance_append (code more : List (Nat × Char)) (opening last : Nat) :
    parenBalance (code ++ more) opening last =
      parenBalance code opening last + parenBalance more opening last := by
  simp [parenBalance]

theorem parenBalance_cons {offset opening last : Nat} (hopening : opening ≤ offset)
    (hlast : offset ≤ last) (c : Char) (code : List (Nat × Char)) :
    parenBalance ((offset, c) :: code) opening last =
      parenValue c + parenBalance code opening last := by
  simp [parenBalance, hopening, hlast]

theorem parenBalance_eq_zero {code : List (Nat × Char)} {opening last : Nat}
    (h : ∀ entry ∈ code, entry.1 < opening ∨ last < entry.1) :
    parenBalance code opening last = 0 := by
  have hnone : (code.filter fun entry => opening ≤ entry.1 ∧ entry.1 ≤ last) = [] := by
    simp only [List.filter_eq_nil_iff, decide_eq_true_eq]
    intro entry hentry
    have := h entry hentry
    omega
  rw [parenBalance, hnone]
  rfl

/-- The closing parenthesis of a list within `outer` further ones, among characters of code. -/
def closingAmong : Nat → List (Nat × Char) → Option Nat
  | _, [] => none
  | 0, (offset, ')') :: _ => some offset
  | outer + 1, (_, ')') :: rest => closingAmong outer rest
  | outer, (_, c) :: rest => closingAmong (if c = '(' then outer + 1 else outer) rest

theorem closingAmong_cons_of_ne {c : Char} (h : c ≠ ')') (outer offset : Nat)
    (rest : List (Nat × Char)) :
    closingAmong outer ((offset, c) :: rest) =
      closingAmong (if c = '(' then outer + 1 else outer) rest := by
  cases outer <;> simp [closingAmong, h]

/-- The search is through with a character, and as many lists are open behind it as the balance
says. -/
theorem exists_closingAmong_cons {outer : Nat} {c : Char} (h : ¬ (c = ')' ∧ outer = 0))
    (offset : Nat) (rest : List (Nat × Char)) :
    ∃ next : Nat, closingAmong outer ((offset, c) :: rest) = closingAmong next rest ∧
      (next : Int) = outer + parenValue c := by
  by_cases hclose : c = ')'
  · subst hclose
    obtain ⟨outer, rfl⟩ := Nat.exists_eq_add_one_of_ne_zero fun hzero => h ⟨rfl, hzero⟩
    exact ⟨outer, rfl, by simp [parenValue]⟩
  · refine ⟨_, closingAmong_cons_of_ne hclose outer offset rest, ?_⟩
    by_cases hopen : c = '(' <;> simp [parenValue, hopen, hclose]

/-- A closing parenthesis at which a list within `outer` further ones is balanced. -/
def balancesAt (code : List (Nat × Char)) (opening outer : Nat) (entry : Nat × Char) : Bool :=
  entry.2 = ')' ∧ outer + 1 + parenBalance code opening entry.1 = 0

/-- Counting the open lists finds the first parenthesis at which they are balanced. -/
theorem closingAmong_eq_find? {opening : Nat} {code : List (Nat × Char)}
    (hafter : ∀ entry ∈ code, opening < entry.1) (hsorted : code.Pairwise (·.1 < ·.1))
    (outer : Nat) :
    closingAmong outer code = (code.find? (balancesAt code opening outer)).map Prod.fst := by
  induction code generalizing outer with
  | nil => cases outer <;> rfl
  | cons entry code ih =>
    obtain ⟨offset, c⟩ := entry
    obtain ⟨hlater, hsorted⟩ := List.pairwise_cons.1 hsorted
    have hoffset : opening ≤ offset := (hafter _ List.mem_cons_self).le
    have hbalance : ∀ last, offset ≤ last → parenBalance ((offset, c) :: code) opening last =
        parenValue c + parenBalance code opening last :=
      fun last hlast => parenBalance_cons hoffset hlast c code
    have hhere : parenBalance ((offset, c) :: code) opening offset = parenValue c := by
      rw [hbalance offset le_rfl,
        parenBalance_eq_zero fun entry hentry => Or.inr (hlater entry hentry), add_zero]
    -- the search stops here exactly where the balance is what it was in front of the list
    by_cases hanswer : c = ')' ∧ outer = 0
    · have hfound : balancesAt ((offset, c) :: code) opening outer (offset, c) = true := by
        rw [balancesAt, hhere, hanswer.1, hanswer.2]
        rfl
      rw [List.find?_cons_of_pos hfound, hanswer.1, hanswer.2]
      rfl
    · obtain ⟨next, hnext, hvalue⟩ := exists_closingAmong_cons hanswer offset code
      have hskip : ¬ balancesAt ((offset, c) :: code) opening outer (offset, c) = true := by
        intro hfound
        simp only [balancesAt, decide_eq_true_eq, hhere] at hfound
        obtain ⟨rfl, hzero⟩ := hfound
        exact hanswer ⟨rfl, by simpa [parenValue] using hzero⟩
      have hcongr : ∀ entry ∈ code, balancesAt code opening next entry =
          balancesAt ((offset, c) :: code) opening outer entry := by
        intro entry hentry
        have hsum : (next : Int) + 1 + parenBalance code opening entry.1 =
            outer + 1 + parenBalance ((offset, c) :: code) opening entry.1 := by
          rw [hbalance _ (hlater entry hentry).le, hvalue]
          ring
        simp only [balancesAt, hsum]
      rw [hnext, List.find?_cons_of_neg hskip,
        ih (fun entry hentry => hafter entry (List.mem_cons_of_mem _ hentry)) hsorted next,
        List.find?_congr hcongr]

theorem find?_eq_some_iff_of_pairwise {code : List (Nat × Char)}
    (hsorted : code.Pairwise (·.1 < ·.1)) (p : Nat × Char → Bool) (entry : Nat × Char) :
    code.find? p = some entry ↔
      entry ∈ code ∧ p entry = true ∧
        ∀ earlier ∈ code, earlier.1 < entry.1 → p earlier = false := by
  rw [List.find?_eq_some_iff_append]
  constructor
  · rintro ⟨hp, before, after, rfl, hbefore⟩
    have hafter := (List.pairwise_append.1 hsorted).2.1
    refine ⟨by simp, hp, fun earlier hearlier hlt => ?_⟩
    rcases List.mem_append.1 hearlier with hmem | hmem
    · simpa using hbefore earlier hmem
    · rcases List.mem_cons.1 hmem with rfl | hmem
      · exact absurd hlt (Nat.lt_irrefl _)
      · exact absurd ((List.pairwise_cons.1 hafter).1 earlier hmem) (Nat.lt_asymm hlt)
  · rintro ⟨hmem, hp, hearlier⟩
    obtain ⟨before, after, rfl⟩ := List.append_of_mem hmem
    have hbefore := (List.pairwise_append.1 hsorted).2.2
    refine ⟨hp, before, after, rfl, fun earlier hin => ?_⟩
    rw [hearlier earlier (by simp [hin]) (hbefore earlier hin entry List.mem_cons_self)]
    rfl

/-- **The search answers the closing parenthesis** when it begins behind the opening one. -/
theorem closingAmong_eq_some_iff {opening : Nat} {before since : List (Nat × Char)}
    (hsorted : (before ++ (opening, '(') :: since).Pairwise (·.1 < ·.1)) (close : Nat) :
    closingAmong 0 since = some close ↔
      IsClosing (before ++ (opening, '(') :: since) opening close := by
  obtain ⟨-, hsince, hbefore⟩ := List.pairwise_append.1 hsorted
  obtain ⟨hafter, hsince⟩ := List.pairwise_cons.1 hsince
  -- what stands in front of the parenthesis counts for nothing
  have hfront : ∀ entry ∈ before, entry.1 < opening :=
    fun entry hentry => hbefore entry hentry _ List.mem_cons_self
  have hbalance : ∀ last, opening ≤ last →
      parenBalance (before ++ (opening, '(') :: since) opening last =
        ((0 : Nat) : Int) + 1 + parenBalance since opening last := by
    intro last hlast
    rw [parenBalance_append, parenBalance_cons le_rfl hlast,
      parenBalance_eq_zero fun entry hentry => Or.inl (hfront entry hentry)]
    simp [parenValue]
  have hmem : ∀ other, opening < other →
      ((other, ')') ∈ before ++ (opening, '(') :: since ↔ (other, ')') ∈ since) := by
    intro other hother
    have hnot : (other, ')') ∉ before := fun hin => Nat.lt_asymm hother (hfront _ hin)
    simp [hnot]
  have hfind : ∀ entry, since.find? (balancesAt since opening 0) = some entry ↔
      entry ∈ since ∧ balancesAt since opening 0 entry = true ∧
        ∀ earlier ∈ since, earlier.1 < entry.1 → balancesAt since opening 0 earlier = false :=
    fun entry => find?_eq_some_iff_of_pairwise hsince _ entry
  rw [closingAmong_eq_find? hafter hsince, Option.map_eq_some_iff]
  constructor
  · rintro ⟨⟨close, c⟩, hsome, rfl⟩
    obtain ⟨hin, hfound, hfirst⟩ := (hfind _).1 hsome
    simp only [balancesAt, decide_eq_true_eq] at hfound
    obtain ⟨rfl, hzero⟩ := hfound
    have hclose : opening < close := hafter _ hin
    refine ⟨(hmem close hclose).2 hin, hclose, (hbalance close hclose.le).trans hzero, ?_⟩
    intro earlier hearlier hopening hearlierIn hbalanced
    have hnot := of_decide_eq_false (hfirst _ ((hmem earlier hopening).1 hearlierIn) hearlier)
    exact hnot ⟨rfl, (hbalance earlier hopening.le).symm.trans hbalanced⟩
  · intro h
    refine ⟨(close, ')'), (hfind _).2 ⟨(hmem close h.after).1 h.closes, ?_, ?_⟩, rfl⟩
    · have hzero := h.balances
      rw [hbalance close h.after.le] at hzero
      simp only [balancesAt, hzero, decide_true, and_self]
    · rintro ⟨earlier, c⟩ hin hearlier
      have hopening : opening < earlier := hafter _ hin
      refine decide_eq_false ?_
      rintro ⟨rfl, hzero⟩
      exact h.first earlier hearlier hopening ((hmem earlier hopening).2 hin)
        ((hbalance earlier hopening.le).trans hzero)

/-! ### The search over a text -/

/-- The offset of the closing parenthesis of a list within `outer` further ones, read on at
`offset`, where `quote` ends the literal that is open. -/
def closingFrom (offset outer : Nat) (quote : Option Char) (text : List Char) : Option Nat :=
  (splitClosingFrom outer quote text).map fun cut => offset + byteLength cut.1

theorem closingFrom_nil (offset outer : Nat) (quote : Option Char) :
    closingFrom offset outer quote [] = none := by
  cases quote <;> simp [closingFrom, splitClosingFrom]

theorem closingFrom_escape (offset outer : Nat) (quote c : Char) (rest : List Char) :
    closingFrom offset outer (some quote) ('\\' :: c :: rest) =
      closingFrom (offset + Char.utf8Size '\\' + c.utf8Size) outer (some quote) rest := by
  simp [closingFrom, splitClosingFrom, Function.comp_def, Nat.add_assoc]

theorem closingFrom_quoted {c : Char} (h : c ≠ '\\') (offset outer : Nat) (quote : Char)
    (rest : List Char) :
    closingFrom offset outer (some quote) (c :: rest) =
      closingFrom (offset + c.utf8Size) outer (if c = quote then none else some quote) rest := by
  simp [closingFrom, splitClosingFrom, h, Function.comp_def, Nat.add_assoc]

theorem closingFrom_close_inner (offset outer : Nat) (rest : List Char) :
    closingFrom offset (outer + 1) none (')' :: rest) =
      closingFrom (offset + Char.utf8Size ')') outer none rest := by
  simp [closingFrom, splitClosingFrom, Function.comp_def, Nat.add_assoc]

theorem closingFrom_code {c : Char} (h : c ≠ ')') (offset outer : Nat) (rest : List Char) :
    closingFrom offset outer none (c :: rest) =
      closingFrom (offset + c.utf8Size) (if c = '(' then outer + 1 else outer)
        (if c = '"' ∨ c = '\'' then some c else none) rest := by
  simp [closingFrom, splitClosingFrom, h, Function.comp_def, Nat.add_assoc]

theorem closingFrom_backslash (offset outer : Nat) (quote : Char) :
    closingFrom offset outer (some quote) ['\\'] = none := by
  simp [closingFrom, splitClosingFrom]

/-- Three quotes leave a literal open behind code. -/
theorem closingFrom_threeQuotes (offset outer : Nat) (rest : List Char) :
    closingFrom offset outer none ('"' :: '"' :: '"' :: rest) =
      closingFrom (offset + Char.utf8Size '"' + Char.utf8Size '"' + Char.utf8Size '"') outer
        (some '"') rest := by
  rw [closingFrom_code (by decide), if_neg (by decide), if_pos (by decide),
    closingFrom_quoted (by decide), if_pos rfl, closingFrom_code (by decide), if_neg (by decide),
    if_pos (by decide)]

/-- Three quotes leave code behind a literal that a quote ends. -/
theorem closingFrom_threeQuotes_quoted (offset outer : Nat) (rest : List Char) :
    closingFrom offset outer (some '"') ('"' :: '"' :: '"' :: rest) =
      closingFrom (offset + Char.utf8Size '"' + Char.utf8Size '"' + Char.utf8Size '"') outer
        none rest := by
  rw [closingFrom_quoted (by decide), if_pos rfl, closingFrom_code (by decide), if_neg (by decide),
    if_pos (by decide), closingFrom_quoted (by decide), if_pos rfl]

/-- Spaces and line breaks outside of literals are passed over. -/
theorem closingFrom_blanks {blanks : List Char} (h : ∀ c ∈ blanks, c = ' ' ∨ c = '\n' ∨ c = '\r')
    (offset outer : Nat) (rest : List Char) :
    closingFrom offset outer none (blanks ++ rest) =
      closingFrom (offset + byteLength blanks) outer none rest := by
  induction blanks generalizing offset with
  | nil => rfl
  | cons c blanks ih =>
    have hstep : closingFrom offset outer none (c :: (blanks ++ rest)) =
        closingFrom (offset + c.utf8Size) outer none (blanks ++ rest) := by
      rcases h c List.mem_cons_self with rfl | rfl | rfl <;>
        exact closingFrom_code (by decide) offset outer _
    rw [List.cons_append, hstep, ih (fun d hd => h d (List.mem_cons_of_mem _ hd)),
      byteLength_cons, Nat.add_assoc]

/-! ### Where the two readings part -/

/-- The character `c` of a literal before `rest` is read in another way by the search: a quote
or a backslash within a raw string, or a line feed that ends an ordinary literal. -/
def Mode.misreads (mode : Mode) (c : Char) (rest : List Char) : Bool :=
  match mode with
  | .rawString => c == '\\' || c == '"' && !startsWithTwoQuotes rest
  | .quoted _ => c == '\n'
  | _ => false

/-- The offsets of the misread characters of a text that is read from `mode` on. -/
def misreadFrom : Nat → Mode → List Char → List Nat
  | _, _, [] => []
  | offset, mode, c :: rest =>
      (if mode.misreads c rest then [offset] else []) ++
        misreadFrom (offset + c.utf8Size) (mode.step true c rest).2 rest

/-- The offsets of the misread characters of a source text. -/
def misreadOf (source : List Char) : List Nat :=
  misreadFrom 0 .code source

theorem le_of_mem_misreadFrom {offset stray : Nat} {mode : Mode} {text : List Char}
    (h : stray ∈ misreadFrom offset mode text) : offset ≤ stray := by
  induction text generalizing offset mode with
  | nil => cases h
  | cons c rest ih =>
    rcases List.mem_append.1 h with hhere | hrest
    · split at hhere
      · rw [List.mem_singleton.1 hhere]
      · cases hhere
    · exact (Nat.le_add_right offset c.utf8Size).trans (ih hrest)

/-- The literal that the search takes to be open where the pass over the source stands. -/
def Mode.openQuote : Mode → Option Char
  | .quoted quote => some quote
  | .rawString => some '"'
  | _ => none

/-- The pass stands at a character that it reads as code, in a comment or in a literal, with
nothing of a literal read ahead. -/
def Mode.isStanding : Mode → Bool
  | .quoted _ => true
  | .rawString => true
  | mode => mode.isOutside

/-- The closing parenthesis of a list within `outer` further ones in the code of a text that is
read from `mode` on. -/
def codeClosing (offset outer : Nat) (mode : Mode) (text : List Char) : Option Nat :=
  closingAmong outer (codeFrom offset (regionsFrom true mode text))

theorem codeClosing_of_ne {offset outer : Nat} {mode next : Mode} {region : Region} {c : Char}
    {rest : List Char} (hstep : mode.step true c rest = (region, next)) (hregion : region ≠ .code) :
    codeClosing offset outer mode (c :: rest) =
      codeClosing (offset + c.utf8Size) outer next rest := by
  rw [codeClosing, regionsFrom_cons, hstep, codeFrom_cons_of_ne hregion]
  rfl

theorem codeClosing_held (offset outer : Nat) (next : Mode) (c : Char) (rest : List Char) :
    codeClosing offset outer (.held .literal next) (c :: rest) =
      codeClosing (offset + c.utf8Size) outer next rest :=
  codeClosing_of_ne rfl (by decide)

theorem le_of_codeClosing {offset outer close : Nat} {mode : Mode} {text : List Char}
    (h : codeClosing offset outer mode text = some close) : offset ≤ close := by
  have hcode : ∀ entry ∈ codeFrom offset (regionsFrom true mode text), offset ≤ entry.1 :=
    fun entry hentry => le_of_mem_codeFrom hentry
  unfold codeClosing at h
  generalize codeFrom offset (regionsFrom true mode text) = code at h hcode
  fun_induction closingAmong outer code with
  | case1 => cases h
  | case2 here rest => exact Option.some.inj h ▸ hcode _ List.mem_cons_self
  | case3 outer here rest ih => exact ih h fun e he => hcode e (List.mem_cons_of_mem _ he)
  | case4 outer here c rest _ _ ih => exact ih h fun e he => hcode e (List.mem_cons_of_mem _ he)

/-- Every misread character stands behind the closing parenthesis. -/
def ReadsAlike (offset outer : Nat) (mode : Mode) (text : List Char) : Prop :=
  ∀ stray ∈ misreadFrom offset mode text, ∃ close < stray,
    codeClosing offset outer mode text = some close

/-- The first character is not misread: no closing parenthesis stands in front of it. -/
theorem ReadsAlike.misreads_eq_false {offset outer : Nat} {mode : Mode} {c : Char}
    {rest : List Char} (h : ReadsAlike offset outer mode (c :: rest)) :
    mode.misreads c rest = false := by
  by_contra hstray
  rw [Bool.not_eq_false] at hstray
  obtain ⟨close, hlt, hclose⟩ := h offset (by simp [misreadFrom, hstray])
  exact absurd (le_of_codeClosing hclose) (Nat.not_le_of_lt hlt)

/-- A character that does not end the search hands the condition on. -/
theorem ReadsAlike.tail {offset outer inner : Nat} {mode next : Mode} {region : Region} {c : Char}
    {rest : List Char} (h : ReadsAlike offset outer mode (c :: rest))
    (hstep : mode.step true c rest = (region, next))
    (hclosing : codeClosing offset outer mode (c :: rest) =
      codeClosing (offset + c.utf8Size) inner next rest) :
    ReadsAlike (offset + c.utf8Size) inner next rest := by
  intro stray hstray
  have hmem : stray ∈ misreadFrom offset mode (c :: rest) :=
    List.mem_append_right _ (by rw [hstep]; exact hstray)
  obtain ⟨close, hlt, hclose⟩ := h stray hmem
  exact ⟨close, hlt, hclosing ▸ hclose⟩

theorem ReadsAlike.tail_of_ne {offset outer : Nat} {mode next : Mode} {region : Region} {c : Char}
    {rest : List Char} (h : ReadsAlike offset outer mode (c :: rest))
    (hstep : mode.step true c rest = (region, next)) (hregion : region ≠ .code) :
    ReadsAlike (offset + c.utf8Size) outer next rest :=
  h.tail hstep (codeClosing_of_ne hstep hregion)

theorem ReadsAlike.held {offset outer : Nat} {next : Mode} {c : Char} {rest : List Char}
    (h : ReadsAlike offset outer (.held .literal next) (c :: rest)) :
    ReadsAlike (offset + c.utf8Size) outer next rest :=
  h.tail_of_ne rfl (by decide)

/-! ### The search over the blanked text -/

/-- The search over the blanked text is the search over the code, for texts below a length. -/
def AgreesBelow (size : Nat) : Prop :=
  ∀ {text : List Char}, text.length < size → ∀ {offset outer : Nat} {mode : Mode},
    mode.isStanding = true → ReadsAlike offset outer mode text →
      closingFrom offset outer mode.openQuote (strip mode text) =
        codeClosing offset outer mode text

variable {size offset outer : Nat} {c : Char} {rest : List Char}

/-- In a comment every character is blanked. -/
theorem exists_step_comment {mode : Mode} (h : mode.isOutside = true) (hcode : mode ≠ .code)
    (c : Char) (rest : List Char) :
    ∃ next, next.isOutside = true ∧ mode.step true c rest = (.comment, next) := by
  have hinStep := inStep_step (Or.inl h) c rest
  generalize mode.step true c rest = step at hinStep ⊢
  cases hinStep with
  | @blanked next houtside hnext => exact ⟨next, hnext, rfl⟩
  | kept hregion hinside hnext hstep =>
    cases mode with
    | code => exact absurd rfl hcode
    | quoted quote => cases h
    | rawString => cases h
    | lineComment => cases hinside
    | blockComment depth => cases hinside
    | held region next => cases region <;> first | cases h | cases hinside

theorem closingFrom_strip_comment (ih : AgreesBelow (rest.length + 1)) {mode next : Mode}
    (hmode : mode.isOutside = true) (hnext : next.isOutside = true)
    (hstep : mode.step true c rest = (.comment, next))
    (halike : ReadsAlike offset outer mode (c :: rest)) :
    closingFrom offset outer mode.openQuote (strip mode (c :: rest)) =
      codeClosing offset outer mode (c :: rest) := by
  have hopen : ∀ {mode : Mode}, mode.isOutside = true → mode.openQuote = none := by
    intro mode h
    cases mode <;> first | rfl | cases h
  have hstanding : next.isStanding = true := by
    cases next <;> first | exact hnext | cases hnext
  have hrest := ih rest.length.lt_succ_self hstanding (halike.tail_of_ne hstep (by decide))
  rw [hopen hmode, strip_cons_of_step hstep,
    closingFrom_blanks fun d hd => eq_of_mem_blank_comment hd, byteLength_blank,
    codeClosing_of_ne hstep (by decide), ← hrest, hopen hnext]

/-- One character of a literal: the search goes on as the pass does. -/
theorem closingFrom_strip_literal (ih : AgreesBelow (rest.length + 1)) {mode next : Mode}
    (hstep : mode.step true c rest = (.literal, next)) (hnext : next.isStanding = true)
    (hsearch : ∀ text, closingFrom offset outer mode.openQuote (c :: text) =
      closingFrom (offset + c.utf8Size) outer next.openQuote text)
    (halike : ReadsAlike offset outer mode (c :: rest)) :
    closingFrom offset outer mode.openQuote (strip mode (c :: rest)) =
      codeClosing offset outer mode (c :: rest) := by
  have hrest := ih rest.length.lt_succ_self hnext (halike.tail_of_ne hstep (by decide))
  rw [strip_cons_of_step hstep, codeClosing_of_ne hstep (by decide), ← hrest]
  exact hsearch _

/-- The three quotes around a raw string, which the pass reads at once. -/
theorem closingFrom_strip_threeQuotes (ih : AgreesBelow (rest.length + 3)) {mode next : Mode}
    (hstep : mode.step true '"' ('"' :: '"' :: rest) =
      (.literal, .held .literal (.held .literal next))) (hnext : next.isStanding = true)
    (hsearch : ∀ text, closingFrom offset outer mode.openQuote ('"' :: '"' :: '"' :: text) =
      closingFrom (offset + Char.utf8Size '"' + Char.utf8Size '"' + Char.utf8Size '"') outer
        next.openQuote text)
    (halike : ReadsAlike offset outer mode ('"' :: '"' :: '"' :: rest)) :
    closingFrom offset outer mode.openQuote (strip mode ('"' :: '"' :: '"' :: rest)) =
      codeClosing offset outer mode ('"' :: '"' :: '"' :: rest) := by
  have hrest := ih (by omega) hnext (halike.tail_of_ne hstep (by decide)).held.held
  rw [strip_cons_of_step hstep, codeClosing_of_ne hstep (by decide), codeClosing_held,
    codeClosing_held, ← hrest]
  exact hsearch _

theorem closingFrom_strip_quoted (ih : AgreesBelow (rest.length + 1)) {quote : Char}
    (halike : ReadsAlike offset outer (.quoted quote) (c :: rest)) :
    closingFrom offset outer (some quote) (strip (.quoted quote) (c :: rest)) =
      codeClosing offset outer (.quoted quote) (c :: rest) := by
  have hbreak : c ≠ '\n' := by simpa [Mode.misreads] using halike.misreads_eq_false
  by_cases hback : c = '\\'
  · -- both take the character behind a backslash along, if there is one
    subst hback
    have hstep : (Mode.quoted quote).step true '\\' rest =
        (.literal, .held .literal (.quoted quote)) := by simp [Mode.step]
    rw [strip_cons_of_step hstep, codeClosing_of_ne hstep (by decide)]
    cases rest with
    | nil => exact closingFrom_backslash offset outer quote
    | cons d rest =>
      have hshorter : rest.length < (d :: rest).length + 1 := by simp only [List.length_cons]; omega
      have halike := (halike.tail_of_ne hstep (by decide)).held
      rw [codeClosing_held, ← ih hshorter rfl halike]
      exact closingFrom_escape offset outer quote d _
  · have hsearch := closingFrom_quoted hback offset outer quote
    by_cases hend : c = quote
    · have hquote : quote ≠ '\\' := hend ▸ hback
      have hstep : (Mode.quoted quote).step true c rest = (.literal, .code) := by
        simp [Mode.step, hquote, hend]
      rw [if_pos hend] at hsearch
      exact closingFrom_strip_literal ih hstep rfl hsearch halike
    · have hstep : (Mode.quoted quote).step true c rest = (.literal, .quoted quote) := by
        simp [Mode.step, hback, hend, hbreak]
      rw [if_neg hend] at hsearch
      exact closingFrom_strip_literal ih hstep rfl hsearch halike

theorem closingFrom_strip_rawString (ih : AgreesBelow (rest.length + 1))
    (halike : ReadsAlike offset outer .rawString (c :: rest)) :
    closingFrom offset outer (some '"') (strip .rawString (c :: rest)) =
      codeClosing offset outer .rawString (c :: rest) := by
  have hplain := halike.misreads_eq_false
  by_cases hquote : c = '"'
  · -- a quote of the content would be misread, so this one begins the closing quotes
    subst hquote
    have htwo : startsWithTwoQuotes rest = true := by simpa [Mode.misreads] using hplain
    obtain ⟨rest, rfl⟩ := exists_of_startsWithTwoQuotes htwo
    exact closingFrom_strip_threeQuotes ih rfl rfl (closingFrom_threeQuotes_quoted offset outer)
      halike
  · have hback : c ≠ '\\' := fun h => by simp [Mode.misreads, h] at hplain
    have hstep : Mode.rawString.step true c rest = (.literal, .rawString) := by
      simp [Mode.step, hquote]
    have hsearch := closingFrom_quoted hback offset outer '"'
    rw [if_neg hquote] at hsearch
    exact closingFrom_strip_literal ih hstep rfl hsearch halike

/-- What the pass makes of a character where it stands in code. -/
theorem step_code_cases (c : Char) (rest : List Char) :
    (∃ next, next.isOutside = true ∧ Mode.code.step true c rest = (.comment, next)) ∨
      (c = '"' ∧ startsWithTwoQuotes rest = true) ∨
        ((c = '"' ∨ c = '\'') ∧ Mode.code.step true c rest = (.literal, .quoted c)) ∨
          (¬ (c = '"' ∨ c = '\'') ∧ Mode.code.step true c rest = (.code, .code)) := by
  by_cases hline : c = '/' ∧ rest.head? = some '/'
  · exact .inl ⟨.held .comment .lineComment, rfl, by simp [Mode.step, hline]⟩
  by_cases hblock : c = '/' ∧ rest.head? = some '*'
  · exact .inl ⟨.held .comment (.blockComment 0), rfl, by simp [Mode.step, hblock]⟩
  by_cases hraw : c = '"' ∧ startsWithTwoQuotes rest = true
  · exact .inr (.inl hraw)
  by_cases hquote : c = '"' ∨ c = '\''
  · exact .inr (.inr (.inl ⟨hquote, by simp [Mode.step, hline, hblock, hraw, hquote]⟩))
  · exact .inr (.inr (.inr ⟨hquote, by simp [Mode.step, hline, hblock, hraw, hquote]⟩))

theorem closingFrom_strip_code (ih : AgreesBelow (rest.length + 1))
    (halike : ReadsAlike offset outer .code (c :: rest)) :
    closingFrom offset outer none (strip .code (c :: rest)) =
      codeClosing offset outer .code (c :: rest) := by
  -- a comment, a raw string, a literal or code, of which only the parentheses count
  rcases step_code_cases c rest with ⟨next, hnext, hstep⟩ | ⟨rfl, htwo⟩ | ⟨hquote, hstep⟩ |
    ⟨hquote, hstep⟩
  · exact closingFrom_strip_comment ih rfl hnext hstep halike
  · obtain ⟨rest, rfl⟩ := exists_of_startsWithTwoQuotes htwo
    exact closingFrom_strip_threeQuotes ih rfl rfl (closingFrom_threeQuotes offset outer) halike
  · have hparen : c ≠ ')' ∧ c ≠ '(' := by rcases hquote with rfl | rfl <;> decide
    have hsearch := closingFrom_code hparen.1 offset outer
    rw [if_neg hparen.2, if_pos hquote] at hsearch
    exact closingFrom_strip_literal ih hstep rfl hsearch halike
  · have hcode : codeClosing offset outer .code (c :: rest) =
        closingAmong outer ((offset, c) :: codeFrom (offset + c.utf8Size)
          (regionsFrom true .code rest)) := by
      rw [codeClosing, regionsFrom_cons, hstep, codeFrom_cons_code]
    rw [strip_cons_of_step hstep, blank_code, List.singleton_append, hcode]
    by_cases hclose : c = ')'
    · subst hclose
      cases outer with
      | zero => rfl
      | succ outer =>
        have halike' : ReadsAlike (offset + Char.utf8Size ')') outer .code rest :=
          halike.tail hstep hcode
        have hrest := ih rest.length.lt_succ_self rfl halike'
        rw [closingFrom_close_inner]
        exact hrest
    · have hinner := closingAmong_cons_of_ne hclose outer offset
        (codeFrom (offset + c.utf8Size) (regionsFrom true .code rest))
      have hrest := ih rest.length.lt_succ_self rfl (halike.tail hstep (hcode.trans hinner))
      rw [closingFrom_code hclose, if_neg hquote, hinner]
      exact hrest

/-- **The search over the blanked text is the one over the code of the source**, as long as no
misread character stands in front of the closing parenthesis. -/
theorem closingFrom_strip {mode : Mode} {text : List Char} (hmode : mode.isStanding = true)
    (halike : ReadsAlike offset outer mode text) :
    closingFrom offset outer mode.openQuote (strip mode text) =
      codeClosing offset outer mode text := by
  -- an escape and the quotes of a raw string are read at once, so the induction is on the length
  have hall : ∀ size, AgreesBelow size := by
    intro size
    induction size with
    | zero => exact fun h => absurd h (Nat.not_lt_zero _)
    | succ size ih =>
      intro text hlength offset outer mode hmode halike
      cases text with
      | nil =>
        rw [strip_nil, closingFrom_nil]
        cases outer <;> rfl
      | cons c rest =>
        have ih : AgreesBelow (rest.length + 1) :=
          fun h => ih (Nat.lt_of_lt_of_le h (Nat.le_of_lt_succ hlength))
        by_cases hcomment : mode.isOutside = true ∧ mode ≠ .code
        · obtain ⟨next, hnext, hstep⟩ := exists_step_comment hcomment.1 hcomment.2 c rest
          exact closingFrom_strip_comment ih hcomment.1 hnext hstep halike
        · cases mode with
          | code => exact closingFrom_strip_code ih halike
          | quoted quote => exact closingFrom_strip_quoted ih halike
          | rawString => exact closingFrom_strip_rawString ih halike
          | lineComment => exact absurd ⟨hmode, nofun⟩ hcomment
          | blockComment depth => exact absurd ⟨hmode, nofun⟩ hcomment
          | held region next => exact absurd ⟨hmode, nofun⟩ hcomment
  exact hall _ text.length.lt_succ_self hmode halike

/-! ### The list that begins at an offset -/

/-- Code goes on behind a character of code. -/
theorem step_eq_of_fst_eq_code {mode : Mode} (h : mode.isOutside = true ∨ mode.isInside = true)
    {c : Char} {rest : List Char} (hcode : (mode.step true c rest).1 = .code) :
    mode.step true c rest = (.code, .code) := by
  cases mode with
  | code =>
    rcases step_code_cases c rest with ⟨next, -, hstep⟩ | ⟨rfl, htwo⟩ | ⟨-, hstep⟩ | ⟨-, hstep⟩
    · rw [hstep] at hcode
      cases hcode
    · simp [Mode.step, htwo] at hcode
    · rw [hstep] at hcode
      cases hcode
    · exact hstep
  | lineComment => cases hcode
  | blockComment outer =>
    unfold Mode.step at hcode
    dsimp only at hcode
    split at hcode
    · cases hcode
    · split at hcode <;> cases hcode
  | quoted quote =>
    unfold Mode.step at hcode
    dsimp only at hcode
    split at hcode
    · cases hcode
    · split at hcode <;> cases hcode
  | rawString =>
    unfold Mode.step at hcode
    dsimp only at hcode
    split at hcode <;> cases hcode
  | held region next =>
    cases region with
    | code => rcases h with h | h <;> cases h
    | comment => cases hcode
    | literal => cases hcode

/-- The pass stays in code, in comments and in literals. -/
theorem isOutside_or_isInside_step {mode : Mode}
    (h : mode.isOutside = true ∨ mode.isInside = true) (c : Char) (rest : List Char) :
    (mode.step true c rest).2.isOutside = true ∨ (mode.step true c rest).2.isInside = true := by
  have hinStep := inStep_step h c rest
  generalize mode.step true c rest = step at hinStep ⊢
  cases hinStep with
  | blanked houtside hnext => exact Or.inl hnext
  | kept hregion hinside hnext hstep => exact Or.inr hnext

/-- What stands behind a character of code, in the source as in the blanked text. -/
theorem exists_of_mem_code {mode : Mode} (hmode : mode.isOutside = true ∨ mode.isInside = true)
    {text : List Char} {offset place : Nat} {c : Char}
    (h : (place, c) ∈ codeFrom offset (regionsFrom true mode text)) :
    ∃ before stripped rest,
      codeFrom offset (regionsFrom true mode text) =
          before ++ (place, c) :: codeFrom (place + c.utf8Size) (regionsFrom true .code rest) ∧
        strip mode text = stripped ++ c :: strip .code rest ∧
        offset + byteLength stripped = place ∧
        ∀ stray ∈ misreadFrom (place + c.utf8Size) .code rest,
          stray ∈ misreadFrom offset mode text := by
  induction text generalizing mode offset with
  | nil => cases h
  | cons d text ih =>
    rw [regionsFrom_cons, codeFrom] at h
    rcases List.mem_append.1 h with hhere | hlater
    · -- the character is the first one of code
      obtain ⟨hcode, hmem⟩ := List.mem_ite_nil_right.1 hhere
      obtain ⟨rfl, rfl⟩ := Prod.mk.inj (List.mem_singleton.1 hmem)
      have hstep := step_eq_of_fst_eq_code hmode hcode
      refine ⟨[], [], text, ?_, ?_, rfl, fun stray hstray => List.mem_append_right _ ?_⟩
      · rw [regionsFrom_cons, hstep]
        rfl
      · rw [strip_cons_of_step hstep]
        rfl
      · rwa [hstep]
    · -- it stands in what the first character leaves
      obtain ⟨before, stripped, rest, hcode, hstrip, hlength, hstray⟩ :=
        ih (isOutside_or_isInside_step hmode d text) hlater
      refine ⟨(if (mode.step true d text).1 = .code then [(offset, d)] else []) ++ before,
        blank (d, (mode.step true d text).1) ++ stripped, rest, ?_, ?_, ?_,
        fun stray hmem => List.mem_append_right _ (hstray stray hmem)⟩
      · rw [regionsFrom_cons, codeFrom, hcode, List.append_assoc]
      · rw [strip_cons, hstrip, List.append_assoc]
      · rw [byteLength_append, byteLength_blank, ← Nat.add_assoc, hlength]

theorem closingParen?_append (front rest : List Char) :
    closingParen? (front ++ '(' :: rest) (byteLength front) =
      closingFrom (byteLength front + 1) 0 none rest := by
  rw [closingParen?, dropBytes?_byteLength_append]
  rfl

/-- **The closing parenthesis of the blanked text is the one of the source.**  For a parenthesis
that opens in code, the search answers the first closing one behind it at which the parentheses
of the code are balanced, and nothing if there is none, provided that every misread character
behind the opening one stands behind the closing one. -/
theorem closingParen?_stripComments (source : List Char) (opening : Nat)
    (hopening : (opening, '(') ∈ codeOf source)
    (hplain : ∀ stray ∈ misreadOf source, opening < stray →
      ∃ close < stray, IsClosing (codeOf source) opening close) :
    (∀ close, closingParen? (stripComments source) opening = some close ↔
        IsClosing (codeOf source) opening close) ∧
      (closingParen? (stripComments source) opening = none ↔
        ∀ close, ¬ IsClosing (codeOf source) opening close) := by
  obtain ⟨before, stripped, rest, hcode, hstrip, hlength, hstray⟩ :=
    exists_of_mem_code (Or.inl rfl) hopening
  have hsorted := pairwise_codeFrom 0 (regions source)
  rw [Nat.zero_add] at hlength
  have hclosing : ∀ close, codeClosing (opening + 1) 0 .code rest = some close ↔
      IsClosing (codeOf source) opening close := by
    intro close
    rw [codeOf, regions, hcode]
    rw [regions, hcode] at hsorted
    exact closingAmong_eq_some_iff hsorted close
  -- what is misread stands behind the closing parenthesis, where the search never gets
  have halike : ReadsAlike (opening + 1) 0 .code rest := by
    intro stray hmem
    obtain ⟨close, hlt, hclose⟩ := hplain stray (hstray stray hmem) (le_of_mem_misreadFrom hmem)
    exact ⟨close, hlt, (hclosing close).2 hclose⟩
  have hsearch : closingParen? (stripComments source) opening =
      codeClosing (opening + 1) 0 .code rest := by
    have hwhole : stripComments source = stripped ++ '(' :: strip .code rest := hstrip
    rw [hwhole, ← hlength, closingParen?_append, hlength]
    exact closingFrom_strip rfl halike
  rw [hsearch]
  refine ⟨hclosing, ?_⟩
  rw [Option.eq_none_iff_forall_ne_some]
  exact forall_congr' fun close => not_congr (hclosing close)

theorem closingParen?_stripComments_example :
    let source := "f(a/*(\"*/: S = \")\\\"(\", c: C = '(')\n//)\n\"\"\"\")\"\"\"".toList
    ((1, '(') ∈ codeOf source ∧ ∀ stray ∈ misreadOf source, 1 < stray →
        ∃ close < stray, IsClosing (codeOf source) 1 close) ∧
      closingParen? (stripComments source) 1 = some 33 := by
  intro source
  have hopening : (1, '(') ∈ codeOf source := by decide
  have hplain : ∀ stray ∈ misreadOf source, 1 < stray →
      ∃ close < stray, IsClosing (codeOf source) 1 close := by decide
  exact ⟨⟨hopening, hplain⟩,
    ((closingParen?_stripComments source 1 hopening hplain).1 33).2 (by decide)⟩

/-- A backslash in a raw string takes the quote behind it along, and the search runs past the
parenthesis that closes the list. -/
theorem closingParen?_misses_raw :
    let source := "f(\"\"\"\\\"\"\")".toList
    (1, '(') ∈ codeOf source ∧ IsClosing (codeOf source) 1 9 ∧
      closingParen? (stripComments source) 1 = none := by
  decide

end RpcBinder.Lexis
