import RpcBinder.Proofs.TypeRef.FunctionTypes

/-!
# Commas in types

A comma of a type stands between two types.  So behind it, after white space, comes the first
character of a type, and never a closing parenthesis or the end of the text.

## Main definitions

* `opensEntry` — a text begins, after white space, with something other than a closing parenthesis.
* `commasLeadOn` — this holds behind every comma of a text.

## Main results

* `IsWrittenType.commasLeadOn` — **it holds of the text of a type.**
-/

namespace RpcBinder

/-- After white space there is a character, and it is no closing parenthesis. -/
def opensEntry (text : List Char) : Bool :=
  (text.dropWhile isSpace).head?.any (· != ')')

/-- Behind every comma there is something to go on with. -/
def commasLeadOn : List Char → Bool
  | [] => true
  | c :: rest => (c != ',' || opensEntry rest) && commasLeadOn rest

variable {s t text : List Char}

theorem opensEntry_append (h : opensEntry s = true) (t : List Char) :
    opensEntry (s ++ t) = true := by
  obtain ⟨c, hc, hparen⟩ := (Option.any_eq_true _ _).1 h
  have hne : s.dropWhile isSpace ≠ [] := by
    intro hnil
    rw [hnil] at hc
    cases hc
  have hempty : (s.dropWhile isSpace).isEmpty = false := by simpa using hne
  rw [opensEntry, List.dropWhile_append, hempty]
  simp [List.head?_append, hc, hparen]

theorem opensEntry_blank_append {blank : List Char} (hblank : isBlank blank = true) :
    opensEntry (blank ++ text) = opensEntry text := by
  rw [opensEntry, List.dropWhile_append_of_pos (forall_isSpace_of_isBlank hblank), opensEntry]

theorem opensEntry_cons {c : Char} (hspace : isSpace c = false) (hparen : c ≠ ')')
    (rest : List Char) : opensEntry (c :: rest) = true := by
  rw [opensEntry, List.dropWhile_cons_of_neg (by simp [hspace])]
  simpa using hparen

theorem commasLeadOn_append (hs : commasLeadOn s = true) (ht : commasLeadOn t = true) :
    commasLeadOn (s ++ t) = true := by
  induction s with
  | nil => exact ht
  | cons c s ih =>
    rw [commasLeadOn, Bool.and_eq_true, Bool.or_eq_true] at hs
    rw [List.cons_append, commasLeadOn, Bool.and_eq_true, Bool.or_eq_true]
    exact ⟨hs.1.imp_right fun hopens => opensEntry_append hopens t, ih hs.2⟩

theorem commasLeadOn_of_notMem (h : ',' ∉ text) : commasLeadOn text = true := by
  induction text with
  | nil => rfl
  | cons c text ih =>
    have hc : c ≠ ',' := (List.ne_of_not_mem_cons h).symm
    rw [commasLeadOn, ih (List.not_mem_of_not_mem_cons h), Bool.and_true]
    simp [hc]

/-- What stands behind a comma. -/
theorem opensEntry_of_commasLeadOn {rest : List Char} (h : commasLeadOn (s ++ ',' :: rest) = true) :
    opensEntry rest = true := by
  induction s with
  | nil =>
    rw [List.nil_append, commasLeadOn, Bool.and_eq_true] at h
    simpa using h.1
  | cons c s ih =>
    rw [List.cons_append, commasLeadOn, Bool.and_eq_true] at h
    exact ih h.2

/-- Joining entries by commas, with white space behind them or not. -/
theorem commasLeadOn_intercalate {blank : List Char} (hblank : isBlank blank = true)
    {texts : List (List Char)}
    (h : ∀ text ∈ texts, opensEntry text = true ∧ commasLeadOn text = true) :
    commasLeadOn ((',' :: blank).intercalate texts) = true := by
  induction texts with
  | nil => rfl
  | cons text texts ih =>
    obtain ⟨⟨-, htext⟩, htexts⟩ := List.forall_mem_cons.1 h
    cases texts with
    | nil => simpa using htext
    | cons other texts =>
      -- behind a comma the next entry opens, after its blanks
      have hopens : opensEntry (blank ++ (',' :: blank).intercalate (other :: texts)) = true := by
        rw [opensEntry_blank_append hblank]
        have hother := (htexts other List.mem_cons_self).1
        cases texts with
        | nil => simpa using hother
        | cons next texts =>
          rw [List.intercalate_cons_cons, List.append_assoc]
          exact opensEntry_append hother _
      have hcommas : ',' ∉ blank := notMem_of_isBlank hblank (by decide)
      rw [List.intercalate_cons_cons, List.append_assoc]
      refine commasLeadOn_append htext ?_
      rw [List.cons_append, commasLeadOn, hopens,
        commasLeadOn_append (commasLeadOn_of_notMem hcommas) (ih htexts)]
      decide

/-- A type begins with a character that opens an entry. -/
theorem IsWrittenType.opensEntry (h : IsWrittenType text) : opensEntry text = true := by
  have hname : ∀ {name : List Char}, IsTypeName name → RpcBinder.opensEntry name = true := by
    intro name hname
    obtain ⟨c, rest, rfl⟩ := List.exists_cons_of_ne_nil hname.ne_nil
    have hc := hname.forall_char c List.mem_cons_self
    exact opensEntry_cons (isSpace_of_isTypeNameChar hc) (ne_of_class hc (by decide)) rest
  induction h with
  | star => decide
  | named h => exact hname h
  | generic hbase harguments hne hpadded ih => exact opensEntry_append (hname hbase) _
  | nullable h ih => exact opensEntry_append ih _
  | projected variance h ih => exact opensEntry_append (by cases variance <;> decide) _
  | enclosed h ih => exact opensEntry_cons (by decide) (by decide) _
  | function hparams hresult ihparams ihresult =>
    exact opensEntry_cons (by decide) (by decide) _

/-- **Behind every comma of a type another type begins.** -/
theorem IsWrittenType.commasLeadOn (h : IsWrittenType text) : commasLeadOn text = true := by
  induction h with
  | star => decide
  | named h => exact commasLeadOn_of_notMem (h.notMem (by decide))
  | @generic base texts padded hbase harguments hne hpadded ih =>
    -- the blanks around an argument open nothing and hold no comma
    have hentries : ∀ entry ∈ padded,
        RpcBinder.opensEntry entry = true ∧ RpcBinder.commasLeadOn entry = true := by
      intro entry hentry
      obtain ⟨text, htext, before, after, hbefore, hafter, rfl⟩ :=
        exists_related_of_mem hpadded hentry
      have hblank : ∀ {blank : List Char}, isBlank blank = true →
          RpcBinder.commasLeadOn blank = true := fun hblank =>
        commasLeadOn_of_notMem (notMem_of_isBlank hblank (by decide))
      rw [List.append_assoc]
      refine ⟨?_, commasLeadOn_append (hblank hbefore)
        (commasLeadOn_append (ih text htext) (hblank hafter))⟩
      rw [opensEntry_blank_append hbefore]
      exact opensEntry_append (harguments text htext).opensEntry after
    have hlist := commasLeadOn_intercalate (show isBlank [] = true from rfl) hentries
    exact commasLeadOn_append (commasLeadOn_of_notMem (hbase.notMem (by decide)))
      (commasLeadOn_append (s := ['<']) (by decide) (commasLeadOn_append hlist (by decide)))
  | nullable h ih => exact commasLeadOn_append ih (by decide)
  | projected variance h ih =>
    exact commasLeadOn_append (by cases variance <;> decide) ih
  | enclosed h ih =>
    exact commasLeadOn_append (s := ['(']) (by decide) (commasLeadOn_append ih (by decide))
  | function hparams hresult ihparams ihresult =>
    have hentries := commasLeadOn_intercalate (show isBlank [' '] = true by decide)
      fun param hparam => ⟨(hparams param hparam).opensEntry, ihparams param hparam⟩
    exact commasLeadOn_append (s := paramsText _) (commasLeadOn_append (s := ['(']) (by decide)
      (commasLeadOn_append hentries (by decide))) ihresult

end RpcBinder
