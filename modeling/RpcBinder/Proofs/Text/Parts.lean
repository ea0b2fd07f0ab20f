import Mathlib.Data.List.Basic
import Mathlib.Data.List.DropRight
import Mathlib.Data.List.Forall2
import Mathlib.Data.List.Induction
import Mathlib.Data.List.TakeWhile
import RpcBinder.Text.Space
import RpcBinder.Text.Split

/-!
# Texts with white space around them

Trimming takes white space off both ends of a text and nothing else, so it gives back a text
that was padded, provided that this text is *solid*: it is not empty, and its first and its
last character are no white space.

## Main definitions

* `IsRun` — a text of at least one character, all of them of a class.
* `IsSolid` — a text without white space at its ends.
* `IsPadded` — a text with white space added at its ends.
* `IsWord`, `IsLine` — a word, and words with a single space between any two of them.

## Main results

* `trim_of_isPadded` — trimming undoes padding.
* `IsLine.intercalate_words` — taking a line apart into words loses nothing.
* `splitFirst?_append` — a text splits at a character that its first part does not hold.
-/

namespace RpcBinder

/-! ### Lists -/

section

variable {α : Type} {p : α → Bool} {as bs : List α}

/-- What is taken as long as it is of a class ends where it is not. -/
theorem takeWhile_append_eq (has : ∀ a ∈ as, p a = true) (hbs : ∀ b ∈ bs.head?, p b = false) :
    (as ++ bs).takeWhile p = as := by
  rw [List.takeWhile_append_of_pos has]
  cases bs with
  | nil => simp
  | cons b bs => rw [List.takeWhile_cons_of_neg (by simpa using hbs b rfl), List.append_nil]

/-- And what is left begins there. -/
theorem dropWhile_append_eq (has : ∀ a ∈ as, p a = true) (hbs : ∀ b ∈ bs.head?, p b = false) :
    (as ++ bs).dropWhile p = bs := by
  rw [List.dropWhile_append_of_pos has]
  cases bs with
  | nil => rfl
  | cons b bs => exact List.dropWhile_cons_of_neg (by simpa using hbs b rfl)

/-- So what is left begins there with anything behind it. -/
theorem head?_dropWhile_append (hbs : ∀ b ∈ bs.head?, p b = false) :
    ∀ b ∈ (as.dropWhile p ++ bs).head?, p b = false := by
  cases hleft : as.dropWhile p with
  | nil => exact hbs
  | cons a rest =>
    have hnot := List.head?_dropWhile_not p as
    rw [hleft] at hnot
    simpa using hnot

/-- A list begins with what is of a class, and goes on with what is not. -/
theorem exists_eq_run_append (as : List α) (hbs : ∀ b ∈ bs.head?, p b = false) :
    ∃ run rest, as = run ++ rest ∧ run.all p = true ∧ ∀ b ∈ (rest ++ bs).head?, p b = false :=
  ⟨as.takeWhile p, as.dropWhile p, List.takeWhile_append_dropWhile.symm,
    List.all_eq_true.2 fun _ ha => List.mem_takeWhile_imp ha, head?_dropWhile_append hbs⟩

end

/-- Of two related lists, every member of the second is related to one of the first. -/
theorem exists_related_of_mem {α β : Type} {R : α → β → Prop} {as : List α} {bs : List β}
    (h : List.Forall₂ R as bs) {b : β} (hmem : b ∈ bs) : ∃ a ∈ as, R a b := by
  induction h with
  | nil => simp at hmem
  | cons hab hrest ih =>
    rcases List.mem_cons.1 hmem with rfl | hmem
    · exact ⟨_, List.mem_cons_self, hab⟩
    · obtain ⟨a, ha, hr⟩ := ih hmem
      exact ⟨a, List.mem_cons_of_mem _ ha, hr⟩

/-- Related lists have equal images if related members have. -/
theorem map_eq_map_of_forall₂ {α β γ : Type} {R : α → β → Prop} {as : List α} {bs : List β}
    {f : β → γ} {g : α → γ} (h : List.Forall₂ R as bs)
    (heq : ∀ a ∈ as, ∀ b, R a b → f b = g a) : bs.map f = as.map g := by
  induction h with
  | nil => rfl
  | cons hab hrest ih =>
    rw [List.map_cons, List.map_cons, heq _ List.mem_cons_self _ hab,
      ih fun a ha => heq a (List.mem_cons_of_mem _ ha)]

/-- Relations may be composed member by member. -/
theorem forall₂_comp {α β γ : Type} {R : α → β → Prop} {S : β → γ → Prop} {T : α → γ → Prop}
    {as : List α} {bs : List β} {cs : List γ} (hR : List.Forall₂ R as bs)
    (hS : List.Forall₂ S bs cs) (h : ∀ a b c, R a b → S b c → T a c) : List.Forall₂ T as cs := by
  induction hR generalizing cs with
  | nil =>
    cases hS
    exact List.Forall₂.nil
  | cons hab hrest ih =>
    cases hS with
    | cons hbc hrest' => exact List.Forall₂.cons (h _ _ _ hab hbc) (ih hrest')

theorem zipWith_eq_map_of_forall₂ {α β γ δ : Type} {R : α → β → Prop} {as : List α} {bs : List β}
    {f : β → γ → δ} {g : α → γ} {k : α → δ} (h : List.Forall₂ R as bs)
    (heq : ∀ a b, R a b → f b (g a) = k a) : List.zipWith f bs (as.map g) = as.map k := by
  induction h with
  | nil => rfl
  | cons hab hrest ih => rw [List.map_cons, List.zipWith_cons_cons, List.map_cons, heq _ _ hab, ih]

/-- A fold over a list that is related to another one. -/
theorem foldl_eq_of_forall₂ {α β γ : Type} {R : α → β → Prop} {as : List α} {bs : List β}
    {f : γ → β → γ} {g : γ → α → γ} (h : List.Forall₂ R as bs)
    (heq : ∀ a b, R a b → ∀ state, f state b = g state a) (state : γ) :
    bs.foldl f state = as.foldl g state := by
  induction h generalizing state with
  | nil => rfl
  | cons hab hrest ih => rw [List.foldl_cons, List.foldl_cons, heq _ _ hab, ih]

/-- A reading that goes on succeeds if both parts of it do. -/
theorem bind_eq_ok {α β ε : Type} {x : Except ε α} {f : α → Except ε β} {b : β} :
    x >>= f = .ok b ↔ ∃ a, x = .ok a ∧ f a = .ok b := by
  cases x with
  | error e => exact ⟨nofun, nofun⟩
  | ok a => exact ⟨fun h => ⟨a, rfl, h⟩, fun ⟨_, heq, h⟩ => Except.ok.inj heq ▸ h⟩

/-- A series of readings succeeds if each of them does. -/
theorem mapM_eq_ok_of_forall₂ {α β ε : Type} {f : β → Except ε α} {as : List α} {bs : List β}
    (h : List.Forall₂ (fun a b => f b = .ok a) as bs) : bs.mapM f = .ok as := by
  induction h with
  | nil => rfl
  | cons hab hrest ih =>
    rw [List.mapM_cons, hab, ih]
    rfl

/-- A series of readings that succeeds is made up of readings that do. -/
theorem forall₂_of_mapM_eq_ok {α β ε : Type} {f : β → Except ε α} {as : List α} {bs : List β}
    (h : bs.mapM f = .ok as) : List.Forall₂ (fun a b => f b = .ok a) as bs := by
  induction bs generalizing as with
  | nil =>
    obtain rfl : [] = as := Except.ok.inj h
    exact List.Forall₂.nil
  | cons b bs ih =>
    rw [List.mapM_cons] at h
    obtain ⟨a, hb, hrest⟩ := bind_eq_ok.1 h
    obtain ⟨rest, hbs, hcons⟩ := bind_eq_ok.1 hrest
    obtain rfl : a :: rest = as := Except.ok.inj hcons
    exact List.Forall₂.cons hb (ih hbs)

/-! ### Classes of characters -/

/-- A class that lacks a character has no member equal to it. -/
theorem ne_of_class {p : Char → Bool} {c d : Char} (hc : p c = true) (hd : p d = false) :
    c ≠ d := by
  rintro rfl
  rw [hc] at hd
  exact absurd hd (by decide)

theorem contains_eq_false_of_class {p : Char → Bool} {marks : List Char} {c : Char}
    (hmarks : marks.all (fun d => !p d) = true) (hc : p c = true) : marks.contains c = false := by
  rw [List.contains_eq_mem, decide_eq_false_iff_not]
  intro hmem
  have hlack : p c = false := by simpa using List.all_eq_true.1 hmarks c hmem
  exact ne_of_class hc hlack rfl

/-- A text of at least one character, all of them of a class. -/
structure IsRun (p : Char → Bool) (text : List Char) : Prop where
  ne_nil : text ≠ []
  forall_char : ∀ c ∈ text, p c = true

instance (p : Char → Bool) (text : List Char) : Decidable (IsRun p text) :=
  decidable_of_iff (text ≠ [] ∧ text.all p = true)
    ⟨fun h => ⟨h.1, List.all_eq_true.1 h.2⟩, fun h => ⟨h.ne_nil, List.all_eq_true.2 h.forall_char⟩⟩

namespace IsRun

variable {p q : Char → Bool} {text : List Char}

theorem notMem (h : IsRun p text) {c : Char} (hc : p c = false) : c ∉ text :=
  fun hmem => ne_of_class (h.forall_char c hmem) hc rfl

theorem mono (h : IsRun p text) (hpq : ∀ c, p c = true → q c = true) : IsRun q text :=
  ⟨h.ne_nil, fun c hc => hpq c (h.forall_char c hc)⟩

end IsRun

/-- Joining texts by a separator of a class gives a text of the class. -/
theorem forall_char_intercalate {p : Char → Bool} {separator : List Char}
    {texts : List (List Char)} (hseparator : separator.all p = true)
    (h : ∀ text ∈ texts, ∀ c ∈ text, p c = true) :
    ∀ c ∈ separator.intercalate texts, p c = true := by
  induction texts with
  | nil => simp
  | cons text texts ih =>
    have htext := h text List.mem_cons_self
    have hrest := ih fun other hmem => h other (List.mem_cons_of_mem _ hmem)
    cases texts with
    | nil => simpa using htext
    | cons other texts =>
      intro c hc
      rw [List.intercalate_cons_cons, List.mem_append, List.mem_append] at hc
      rcases hc with (hc | hc) | hc
      · exact htext c hc
      · exact List.all_eq_true.1 hseparator c hc
      · exact hrest c hc

theorem intercalate_append {mark : List Char} {pieces more : List (List Char)}
    (hpieces : pieces ≠ []) (hmore : more ≠ []) :
    mark.intercalate (pieces ++ more) =
      mark.intercalate pieces ++ (mark ++ mark.intercalate more) := by
  induction pieces with
  | nil => exact absurd rfl hpieces
  | cons piece pieces ih =>
    cases pieces with
    | nil =>
      rw [List.singleton_append, List.intercalate_cons_of_ne_nil hmore, List.intercalate_singleton,
        List.append_assoc]
    | cons other pieces =>
      rw [List.cons_append, List.intercalate_cons_of_ne_nil (by simp), ih (List.cons_ne_nil _ _),
        List.intercalate_cons_cons]
      simp only [List.append_assoc]

theorem mem_intercalate {separator text : List Char} {texts : List (List Char)}
    (htext : text ∈ texts) {c : Char} (hc : c ∈ text) : c ∈ separator.intercalate texts := by
  induction texts with
  | nil => simp at htext
  | cons first texts ih =>
    cases texts with
    | nil =>
      rw [List.intercalate_singleton]
      rwa [List.mem_singleton.1 htext] at hc
    | cons second texts =>
      rw [List.intercalate_cons_cons, List.mem_append, List.mem_append]
      rcases List.mem_cons.1 htext with rfl | htext
      · exact Or.inl (Or.inl hc)
      · exact Or.inr (ih htext)

/-! ### Solid texts -/

/-- The text begins with a character that is no white space. -/
def StartsSolid (text : List Char) : Prop := ∃ c, text.head? = some c ∧ isSpace c = false

/-- The text ends with a character that is no white space. -/
def EndsSolid (text : List Char) : Prop := ∃ c, text.getLast? = some c ∧ isSpace c = false

/-- The text is not empty, and there is no white space at its ends. -/
structure IsSolid (text : List Char) : Prop where
  starts : StartsSolid text
  ends : EndsSolid text

instance (text : List Char) : Decidable (IsSolid text) :=
  decidable_of_iff (text.head?.any (!isSpace ·) = true ∧ text.getLast?.any (!isSpace ·) = true)
    ⟨fun h => ⟨by simpa [StartsSolid, Option.any_eq_true] using h.1,
        by simpa [EndsSolid, Option.any_eq_true] using h.2⟩,
      fun ⟨⟨c, hc, hcs⟩, ⟨d, hd, hds⟩⟩ => by simp [hc, hd, hcs, hds]⟩

theorem startsSolid_cons {c : Char} (rest : List Char) (hc : isSpace c = false) :
    StartsSolid (c :: rest) := ⟨c, rfl, hc⟩

theorem StartsSolid.append {s : List Char} (h : StartsSolid s) (t : List Char) :
    StartsSolid (s ++ t) := by
  obtain ⟨c, hc, hspace⟩ := h
  exact ⟨c, by rw [List.head?_append, hc]; rfl, hspace⟩

theorem endsSolid_concat {c : Char} (s : List Char) (hc : isSpace c = false) :
    EndsSolid (s ++ [c]) := ⟨c, by simp, hc⟩

theorem EndsSolid.append {t : List Char} (h : EndsSolid t) (s : List Char) :
    EndsSolid (s ++ t) := by
  obtain ⟨c, hc, hspace⟩ := h
  exact ⟨c, by rw [List.getLast?_append, hc]; rfl, hspace⟩

theorem IsSolid.ne_nil {text : List Char} (h : IsSolid text) : text ≠ [] := by
  obtain ⟨c, hc, -⟩ := h.starts
  rintro rfl
  simp at hc

/-- A text without any white space is solid unless it is empty. -/
theorem isSolid_of_forall {text : List Char} (hne : text ≠ [])
    (h : ∀ c ∈ text, isSpace c = false) : IsSolid text :=
  ⟨⟨_, List.head?_eq_some_head hne, h _ (List.head_mem hne)⟩,
    ⟨_, List.getLast?_eq_some_getLast hne, h _ (List.getLast_mem hne)⟩⟩

/-! ### White space -/

theorem forall_isSpace_of_isBlank {blank : List Char} (h : isBlank blank = true) :
    ∀ c ∈ blank, isSpace c = true := by
  rwa [isBlank, List.all_eq_true] at h

theorem notMem_of_isBlank {blank : List Char} (h : isBlank blank = true) {c : Char}
    (hc : isSpace c = false) : c ∉ blank :=
  fun hmem => ne_of_class (forall_isSpace_of_isBlank h c hmem) hc rfl

/-! ### Padding -/

/-- The text `padded` is `text` with white space added at its ends. -/
def IsPadded (text padded : List Char) : Prop :=
  ∃ before after, isBlank before = true ∧ isBlank after = true ∧ padded = before ++ text ++ after

theorem isPadded_refl (text : List Char) : IsPadded text text :=
  ⟨[], [], rfl, rfl, by simp⟩

theorem isPadded_cons_space (text : List Char) : IsPadded text (' ' :: text) :=
  ⟨[' '], [], rfl, rfl, by simp⟩

/-- Padding adds no character but white space. -/
theorem IsPadded.isSpace_or_mem {text padded : List Char} (hp : IsPadded text padded) {c : Char}
    (hc : c ∈ padded) : isSpace c = true ∨ c ∈ text := by
  obtain ⟨before, after, hbefore, hafter, rfl⟩ := hp
  rw [List.mem_append, List.mem_append] at hc
  rcases hc with (hc | hc) | hc
  · exact Or.inl (forall_isSpace_of_isBlank hbefore c hc)
  · exact Or.inr hc
  · exact Or.inl (forall_isSpace_of_isBlank hafter c hc)

theorem trimStart_append_of_startsSolid {blank text : List Char} (hb : isBlank blank = true)
    (h : StartsSolid text) : trimStart (blank ++ text) = text := by
  obtain ⟨c, hc, hspace⟩ := h
  refine dropWhile_append_eq (forall_isSpace_of_isBlank hb) ?_
  rw [hc]
  rintro d ⟨⟩
  exact hspace

theorem trimEndBy_append_of_endsSolid {blank text : List Char} (hb : isBlank blank = true)
    (h : EndsSolid text) : trimEndBy isSpace (text ++ blank) = text := by
  have hrev : StartsSolid text.reverse := by
    obtain ⟨c, hc, hspace⟩ := h
    exact ⟨c, by rw [List.head?_reverse]; exact hc, hspace⟩
  have hblank : isBlank blank.reverse = true := by
    rw [isBlank, List.all_reverse]
    exact hb
  have key := trimStart_append_of_startsSolid hblank hrev
  rw [trimStart] at key
  rw [trimEndBy_eq, List.reverse_append, key, List.reverse_reverse]

/-- What belongs to the class is only taken off behind the last character that does not. -/
theorem trimEndBy_append_cons {p : Char → Bool} {c : Char} (hc : p c = false) (s t : List Char) :
    trimEndBy p (s ++ c :: t) = s ++ c :: trimEndBy p t := by
  rw [trimEndBy_eq, trimEndBy_eq, List.reverse_append, List.reverse_cons, List.append_assoc,
    List.dropWhile_append]
  by_cases hempty : (t.reverse.dropWhile p).isEmpty = true
  · rw [if_pos hempty, List.isEmpty_iff.1 hempty, List.singleton_append,
      List.dropWhile_cons_of_neg (by simp [hc])]
    simp
  · rw [if_neg hempty]
    simp

theorem trimEndBy_append_of_forall {p : Char → Bool} (s : List Char) {t : List Char}
    (ht : ∀ c ∈ t, p c = true) : trimEndBy p (s ++ t) = trimEndBy p s := by
  rw [trimEndBy_eq, trimEndBy_eq, List.reverse_append, List.dropWhile_append_of_pos]
  simpa using ht

/-- White space is only taken off behind the last character that is none. -/
theorem trimEndBy_append {s : List Char} (h : EndsSolid s) (t : List Char) :
    trimEndBy isSpace (s ++ t) = s ++ trimEndBy isSpace t := by
  obtain ⟨c, hc, hspace⟩ := h
  obtain ⟨s, rfl⟩ := List.getLast?_eq_some_iff.1 hc
  rw [List.append_assoc, List.singleton_append, trimEndBy_append_cons hspace, List.append_assoc,
    List.singleton_append]

/-- If there is not only white space behind, the end keeps its first character. -/
theorem exists_trimEndBy_eq (s : List Char) {d : Char} {t : List Char}
    (h : isBlank (d :: t) = false) :
    ∃ kept, trimEndBy isSpace (s ++ d :: t) = s ++ d :: kept := by
  obtain ⟨c, hmem, hc⟩ := List.all_eq_false.1 h
  obtain ⟨front, back, hsplit⟩ := List.append_of_mem hmem
  rw [hsplit, ← List.append_assoc, trimEndBy_append_cons (by simpa using hc)]
  cases front with
  | nil =>
    obtain ⟨rfl, -⟩ := List.cons.inj hsplit
    exact ⟨_, by rw [List.append_nil]⟩
  | cons e front =>
    obtain ⟨rfl, -⟩ := List.cons.inj hsplit
    exact ⟨front ++ c :: trimEndBy isSpace back, by simp⟩

/-- Of a text that holds a solid character, each end is trimmed on its own. -/
theorem trim_append_cons {c : Char} (hc : isSpace c = false) (s t : List Char) :
    trim (s ++ c :: t) = trimStart s ++ c :: trimEndBy isSpace t := by
  have hstart : trimStart (s ++ c :: t) = trimStart s ++ c :: t := by
    unfold trimStart
    rw [List.dropWhile_append, List.dropWhile_cons_of_neg (by simp [hc])]
    by_cases hempty : (s.dropWhile isSpace).isEmpty = true
    · rw [if_pos hempty, List.isEmpty_iff.1 hempty, List.nil_append]
    · rw [if_neg hempty]
  have hsplit : trimStart s ++ c :: t = (trimStart s ++ [c]) ++ t := by simp
  rw [trim, hstart, hsplit, trimEndBy_append (endsSolid_concat _ hc)]
  simp

/-- Trimming a text twice is trimming it once. -/
theorem trim_trim (text : List Char) : trim (trim text) = trim text := by
  cases hblank : isBlank text with
  | true => rw [(trim_eq_nil_iff text).2 hblank, trim_nil]
  | false =>
    obtain ⟨c, hmem, hc⟩ := List.all_eq_false.1 hblank
    obtain ⟨s, t, rfl⟩ := List.append_of_mem hmem
    have hspace : isSpace c = false := by simpa using hc
    rw [trim_append_cons hspace, trim_append_cons hspace, trimStart, trimStart,
      List.dropWhile_idempotent, trimEndBy_eq, trimEndBy_eq, List.reverse_reverse,
      List.dropWhile_idempotent]

/-- Trimming undoes padding. -/
theorem trim_of_isPadded {text padded : List Char} (hp : IsPadded text padded)
    (h : IsSolid text) : trim padded = text := by
  obtain ⟨before, after, hbefore, hafter, rfl⟩ := hp
  have hstart : StartsSolid (text ++ after) := h.starts.append after
  rw [trim, List.append_assoc, trimStart_append_of_startsSolid hbefore hstart,
    trimEndBy_append_of_endsSolid hafter h.ends]

/-- Without the white space behind it a padded text is still padded. -/
theorem IsPadded.trimEnd {text padded : List Char} (hp : IsPadded text padded)
    (h : EndsSolid text) : IsPadded text (trimEndBy isSpace padded) := by
  obtain ⟨before, after, hbefore, hafter, rfl⟩ := hp
  refine ⟨before, [], hbefore, rfl, ?_⟩
  rw [trimEndBy_append_of_endsSolid hafter (h.append before), List.append_nil]

theorem trim_of_isSolid {text : List Char} (h : IsSolid text) : trim text = text :=
  trim_of_isPadded (isPadded_refl text) h

theorem map_trim_of_isPadded {texts padded : List (List Char)}
    (hpadded : List.Forall₂ IsPadded texts padded) (hsolid : ∀ text ∈ texts, IsSolid text) :
    padded.map trim = texts := by
  induction hpadded with
  | nil => rfl
  | cons hp hrest ih =>
    rw [List.map_cons, trim_of_isPadded hp (hsolid _ List.mem_cons_self),
      ih fun text hmem => hsolid text (List.mem_cons_of_mem _ hmem)]

/-! ### Words -/

/-- A word is not empty and holds no white space. -/
structure IsWord (text : List Char) : Prop where
  ne_nil : text ≠ []
  forall_char : ∀ c ∈ text, isSpace c = false

theorem isWord_of_isRun {text : List Char} (h : IsRun (fun c => !isSpace c) text) : IsWord text :=
  ⟨h.ne_nil, fun c hc => by simpa using h.forall_char c hc⟩

theorem IsWord.isSolid {text : List Char} (h : IsWord text) : IsSolid text :=
  isSolid_of_forall h.ne_nil h.forall_char

theorem IsWord.append {s t : List Char} (hs : IsWord s) (ht : IsWord t) : IsWord (s ++ t) := by
  refine ⟨by simp [hs.ne_nil], fun c hc => ?_⟩
  rcases List.mem_append.1 hc with hc | hc
  · exact hs.forall_char c hc
  · exact ht.forall_char c hc

theorem isWord_singleton {c : Char} (h : isSpace c = false) : IsWord [c] :=
  ⟨by simp, by simpa using h⟩

theorem words_append_cons {c : Char} (hc : isSpace c = true) (s t : List Char) :
    words (s ++ c :: t) = words s ++ words t := by
  rw [words, List.splitOnP_append_cons s t hc, List.filter_append, words, words]

theorem words_of_isWord {text : List Char} (h : IsWord text) : words text = [text] := by
  rw [words, List.splitOnP_eq_singleton h.forall_char]
  simp [h.ne_nil]

theorem words_append_isBlank (text : List Char) {blank : List Char}
    (hb : isBlank blank = true) : words (text ++ blank) = words text := by
  induction blank generalizing text with
  | nil => rw [List.append_nil]
  | cons c blank ih =>
    rw [isBlank, List.all_cons, Bool.and_eq_true] at hb
    have hnil : words blank = [] := by
      have := ih [] hb.2
      rwa [List.nil_append] at this
    rw [words_append_cons hb.1, hnil, List.append_nil]

theorem words_append_of_isBlank {blank : List Char} (hblank : isBlank blank = true)
    (text : List Char) : words (blank ++ text) = words text := by
  induction blank with
  | nil => rfl
  | cons c blank ih =>
    rw [isBlank, List.all_cons, Bool.and_eq_true] at hblank
    have hsplit := words_append_cons hblank.1 [] (blank ++ text)
    rw [List.nil_append] at hsplit
    rw [List.cons_append, hsplit, ih hblank.2]
    rfl

theorem words_trimStart (text : List Char) : words (trimStart text) = words text := by
  have hblank : isBlank (text.takeWhile isSpace) = true :=
    List.all_eq_true.2 fun _ hc => List.mem_takeWhile_imp hc
  rw [trimStart, ← words_append_of_isBlank hblank, List.takeWhile_append_dropWhile]

/-- A text that ends with a word has a last word that ends with it. -/
theorem exists_getLast?_words (s : List Char) {t : List Char} (ht : IsWord t) :
    ∃ w, (words (s ++ t)).getLast? = some (w ++ t) := by
  induction s using List.reverseRecOn generalizing t with
  | nil => exact ⟨[], by rw [List.nil_append, words_of_isWord ht]; rfl⟩
  | append_singleton s c ih =>
    rw [List.append_assoc, List.singleton_append]
    -- a blank ends the word in front of it, any other character belongs to the last word
    cases hc : isSpace c with
    | true =>
      refine ⟨[], ?_⟩
      rw [words_append_cons hc, words_of_isWord ht, List.getLast?_concat, List.nil_append]
    | false =>
      have hword : IsWord (c :: t) := (isWord_singleton hc).append ht
      obtain ⟨w, hw⟩ := ih hword
      exact ⟨w ++ [c], by rw [hw, List.append_assoc, List.singleton_append]⟩

/-- Joining words loses white space only. -/
theorem flatten_words (text : List Char) : (words text).flatten = text.filter (!isSpace ·) := by
  rw [words, List.flatten_filter_not_isEmpty]
  induction text with
  | nil => rfl
  | cons c rest ih =>
    obtain ⟨first, others, hsplit⟩ :=
      List.exists_cons_of_ne_nil (List.splitOnP_ne_nil isSpace rest)
    rw [List.splitOnP_cons_eq_if_modifyHead]
    rw [hsplit] at ih ⊢
    cases hc : isSpace c with
    | true => simpa [hc] using ih
    | false => simpa [hc] using ih

theorem mem_intercalate_words {c : Char} (hc : isSpace c = false) {text : List Char}
    (h : c ∈ text) : c ∈ [' '].intercalate (words text) := by
  have hflat : c ∈ (words text).flatten := by
    rw [flatten_words]
    exact List.mem_filter.2 ⟨h, by simp [hc]⟩
  obtain ⟨word, hword, hmem⟩ := List.mem_flatten.1 hflat
  exact mem_intercalate hword hmem

theorem words_ne_nil {text : List Char} (h : StartsSolid text) : words text ≠ [] := by
  obtain ⟨c, hc, hspace⟩ := h
  obtain ⟨rest, rfl⟩ := List.head?_eq_some_iff.1 hc
  obtain ⟨first, others, hsplit⟩ :=
    List.exists_cons_of_ne_nil (List.splitOnP_ne_nil isSpace rest)
  rw [words, List.splitOnP_cons_eq_if_modifyHead, hspace, hsplit]
  simp

/-! ### Texts in one line -/

/-- A text of words with a single space between any two of them. -/
inductive IsLine : List Char → Prop
  | word {w : List Char} (h : IsWord w) : IsLine w
  | cons {w rest : List Char} (h : IsWord w) (hrest : IsLine rest) : IsLine (w ++ ' ' :: rest)

namespace IsLine

variable {s t : List Char}

theorem append (hs : IsLine s) (ht : IsLine t) : IsLine (s ++ t) := by
  induction hs with
  | word hw =>
    -- where the lines meet, two words become one
    cases ht with
    | word hv => exact word (hw.append hv)
    | cons hv hrest =>
      rw [← List.append_assoc]
      exact cons (hw.append hv) hrest
  | cons hw hrest ih =>
    rw [List.append_assoc, List.cons_append]
    exact cons hw ih

theorem append_space (hs : IsLine s) (ht : IsLine t) : IsLine (s ++ ' ' :: t) := by
  induction hs with
  | word hw => exact cons hw ht
  | cons hw hrest ih =>
    rw [List.append_assoc, List.cons_append]
    exact cons hw ih

theorem isSolid (hs : IsLine s) : IsSolid s := by
  induction hs with
  | word hw => exact hw.isSolid
  | cons hw hrest ih =>
    refine ⟨hw.isSolid.starts.append _, ?_⟩
    rw [← List.singleton_append, ← List.append_assoc]
    exact ih.ends.append _

/-- Joining the words of a line gives it back. -/
theorem intercalate_words (hs : IsLine s) : [' '].intercalate (words s) = s := by
  induction hs with
  | word hw => rw [words_of_isWord hw, List.intercalate_singleton]
  | cons hw hrest ih =>
    rw [words_append_cons (by decide), words_of_isWord hw, List.singleton_append,
      List.intercalate_cons_of_ne_nil (words_ne_nil hrest.isSolid.starts), ih]
    simp

end IsLine

/-! ### Splitting at a character -/

theorem splitFirst?_append {stop : Char} {before : List Char} (h : stop ∉ before)
    (after : List Char) : splitFirst? stop (before ++ stop :: after) = some (before, after) := by
  induction before with
  | nil => simp [splitFirst?]
  | cons c before ih =>
    have hne : c ≠ stop := (List.ne_of_not_mem_cons h).symm
    have hrest : stop ∉ before := List.not_mem_of_not_mem_cons h
    rw [List.cons_append, splitFirst?, beq_eq_false_iff_ne.2 hne, ih hrest]
    rfl

theorem splitFirst?_eq_none {stop : Char} {text : List Char} (h : stop ∉ text) :
    splitFirst? stop text = none := by
  induction text with
  | nil => rfl
  | cons c text ih =>
    have hne : c ≠ stop := (List.ne_of_not_mem_cons h).symm
    have hrest : stop ∉ text := List.not_mem_of_not_mem_cons h
    rw [splitFirst?, beq_eq_false_iff_ne.2 hne, ih hrest]
    rfl

/-- The parts of a text that splits make up the text. -/
theorem eq_append_of_splitFirst? {stop : Char} {text before after : List Char}
    (h : splitFirst? stop text = some (before, after)) : text = before ++ stop :: after := by
  induction text generalizing before with
  | nil => cases h
  | cons c text ih =>
    rw [splitFirst?] at h
    split at h
    · next hstop =>
      obtain ⟨rfl, rfl⟩ := Prod.mk.inj (Option.some.inj h)
      rw [eq_of_beq hstop, List.nil_append]
    · obtain ⟨⟨first, rest⟩, hrest, heq⟩ := Option.map_eq_some_iff.1 h
      obtain ⟨rfl, rfl⟩ := Prod.mk.inj heq
      rw [ih hrest, List.cons_append]

theorem eq_append_of_splitLast? {stop : Char} {text before after : List Char}
    (h : splitLast? stop text = some (before, after)) : text = before ++ stop :: after := by
  obtain ⟨⟨last, front⟩, hreverse, heq⟩ := Option.map_eq_some_iff.1 h
  obtain ⟨rfl, rfl⟩ := Prod.mk.inj heq
  rw [← List.reverse_reverse text, eq_append_of_splitFirst? hreverse]
  simp

theorem splitLast?_append {stop : Char} {after : List Char} (h : stop ∉ after)
    (before : List Char) : splitLast? stop (before ++ stop :: after) = some (before, after) := by
  have hreverse : stop ∉ after.reverse := by simpa using h
  rw [splitLast?, List.reverse_append, List.reverse_cons, List.append_assoc, List.singleton_append,
    splitFirst?_append hreverse]
  simp

theorem splitLast?_concat (stop : Char) (before : List Char) :
    splitLast? stop (before ++ [stop]) = some (before, []) :=
  splitLast?_append List.not_mem_nil before

theorem splitLast?_eq_none {stop : Char} {text : List Char} (h : stop ∉ text) :
    splitLast? stop text = none := by
  have hreverse : stop ∉ text.reverse := by simpa using h
  rw [splitLast?, splitFirst?_eq_none hreverse]
  rfl

end RpcBinder
