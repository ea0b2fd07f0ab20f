import RpcBinder.Declaration.TypeText
import RpcBinder.Proofs.Bytes.Cuts
import RpcBinder.Proofs.Series
import RpcBinder.Proofs.TypeRef.Qualification

/-!
# Cuts in types

A default value is cut off at the offset of an equals sign, a supertype behind its name, and a type
with arguments at the first opening and the last closing angle bracket.  These are places of
characters, and the two brackets are one byte each, so that the text between them begins and
ends at such places too.

## Main definitions

* `cutTopLevel?`, `anchorBase?`, `TypeRef.shape?`, `Resolver.qualify?` — the functions that cut
  types, with cuts that may fail.

## Main results

* `cutTopLevel?_eq`, `anchorBase?_eq`, `Resolver.qualify?_eq` — **these cuts do not fail**, in any
  text.
-/

namespace RpcBinder

namespace Lexis

/-! ### Default values -/

/-- The offset of the first `stop` outside of brackets, read on at an offset and a depth, after a
dash or not. -/
def stopOffset? (stop : Char) : Nat → Nat → Bool → List Char → Option Nat
  | _, _, _, [] => none
  | offset, depth, dash, c :: rest =>
      if c == stop && depth == 0 && !isBracket c then some offset
      else stopOffset? stop (offset + c.utf8Size) (nest depth dash c) (c == '-') rest

/-- The text up to the first `stop` outside of brackets, cut at its offset. -/
def cutTopLevel? (stop : Char) (text : List Char) : Option (List Char) :=
  match stopOffset? stop 0 0 false text with
  | some offset => slice? text 0 offset
  | none => some text

theorem stopOffset?_cases (stop : Char) (offset depth : Nat) (dash : Bool) (text : List Char) :
    (stopOffset? stop offset depth dash text = none ∧ cutFrom stop depth dash text = text) ∨
      ∃ after, text = cutFrom stop depth dash text ++ after ∧
        stopOffset? stop offset depth dash text =
          some (offset + byteLength (cutFrom stop depth dash text)) := by
  induction text generalizing offset depth dash with
  | nil => exact Or.inl ⟨rfl, rfl⟩
  | cons c rest ih =>
    rw [stopOffset?, cutFrom]
    split
    · exact Or.inr ⟨c :: rest, rfl, rfl⟩
    · rcases ih (offset + c.utf8Size) (nest depth dash c) (c == '-') with
        ⟨hnone, hcut⟩ | ⟨after, hcut, hsome⟩
      · exact Or.inl ⟨hnone, by rw [hcut]⟩
      · refine Or.inr ⟨after, by rw [List.cons_append, ← hcut], ?_⟩
        rw [hsome, byteLength_cons, Nat.add_assoc]

/-- The cut in front of a default value does not fail. -/
theorem cutTopLevel?_eq (stop : Char) (text : List Char) :
    cutTopLevel? stop text = some (cutTopLevel stop text) := by
  unfold cutTopLevel? cutTopLevel
  rcases stopOffset?_cases stop 0 0 false text with ⟨hnone, hcut⟩ | ⟨after, hcut, hsome⟩
  · rw [hnone, hcut]
  · rw [hsome, Nat.zero_add]
    generalize cutFrom stop 0 false text = front at hcut ⊢
    subst hcut
    exact slice?_front front after

end Lexis

/-! ### Supertypes -/

namespace Declaration

/-- A character behind the name of a supertype. -/
def endsBase (c : Char) : Bool :=
  c == '<' || c == '(' || isSpace c

/-- The name that a type reference begins with, cut at the offset of what follows it. -/
def anchorBase? (text : List Char) : Option (List Char) :=
  let type := trim text
  let stop := (offsetOf? endsBase type).getD (byteLength type)
  (slice? type 0 stop).map (trimEndBy (· == '?'))

theorem slice?_offsetOf? (p : Char → Bool) (text : List Char) :
    slice? text 0 ((offsetOf? p text).getD (byteLength text)) =
      some (text.takeWhile fun c => !p c) := by
  have hfront : ∀ c ∈ text.takeWhile (fun c => !p c), p c = false :=
    fun c hc => by simpa using List.mem_takeWhile_imp hc
  have hsplit := List.takeWhile_append_dropWhile (p := fun c => !p c) (l := text)
  -- either no character is in the class, or the text is cut at the first one that is
  cases hback : text.dropWhile fun c => !p c with
  | nil =>
    rw [hback, List.append_nil] at hsplit
    rw [hsplit] at hfront ⊢
    rw [offsetOf?_eq_none hfront]
    simpa using slice?_front text []
  | cons c after =>
    have hc : p c = true := by
      have hhead := List.head?_dropWhile_not (fun c => !p c) text
      rw [hback] at hhead
      simpa using hhead
    rw [hback] at hsplit
    generalize text.takeWhile (fun c => !p c) = front at hfront hsplit ⊢
    subst hsplit
    rw [offsetOf?_append_cons hfront hc]
    exact slice?_front front (c :: after)

/-- The cut behind the name of a supertype does not fail. -/
theorem anchorBase?_eq (text : List Char) : anchorBase? text = some (anchorBase text) := by
  unfold anchorBase? anchorBase
  dsimp only
  rw [slice?_offsetOf?]
  rfl

end Declaration

/-! ### Type arguments -/

namespace TypeRef

/-- The outermost form of a text with angle brackets or without, cut at the offsets of the first
that opens and the last that closes. -/
def angles? (text : List Char) : Option Shape :=
  match offsetOf? (· == '<') text, lastOffsetOf? (· == '>') text with
  | some lt, some gt =>
      if lt < gt then do
        let base ← slice? text 0 lt
        let inner ← slice? text (lt + 1) gt
        let tail ← slice? text (gt + 1) (byteLength text)
        return .generic base inner tail
      else some .verbatim
  | none, none => some .named
  | _, _ => some .verbatim

/-- The outermost form of a trimmed text. -/
def shape? (text : List Char) : Option Shape :=
  if text.getLast? == some '?' then some (.nullable text.dropLast)
  else
    match variance? text with
    | some (variance, rest) => some (.projected variance rest)
    | none => if text.isEmpty || text == ['*'] then some .verbatim else angles? text

/-- Where the brackets are in order, they are cut at. -/
theorem angles?_generic {base inner tail : List Char} (hbase : '<' ∉ base) (htail : '>' ∉ tail) :
    angles? (base ++ '<' :: (inner ++ '>' :: tail)) = some (.generic base inner tail) := by
  have hopen : '<'.utf8Size = 1 := rfl
  have hclose : '>'.utf8Size = 1 := rfl
  have hlast := lastOffsetOf?_mark (base ++ '<' :: inner) htail
  rw [List.append_assoc, List.cons_append, byteLength_append_cons base inner hopen] at hlast
  have hlt : byteLength base < byteLength base + 1 + byteLength inner := by omega
  rw [angles?, offsetOf?_mark hbase, hlast]
  simp only [if_pos hlt, slice?_front base, slice?_enclosed base inner tail hopen,
    slice?_behind base inner tail hopen hclose, Option.bind_eq_bind, Option.bind_some]
  rfl

/-- The cuts at the angle brackets do not fail. -/
theorem angles?_eq (text : List Char) :
    angles? text = some (match splitFirst? '<' text with
      | some (base, after) =>
          match splitLast? '>' after with
          | some (inner, tail) => .generic base inner tail
          | none => .verbatim
      | none => if text.contains '>' then .verbatim else .named) := by
  by_cases hopen : '<' ∈ text
  · obtain ⟨base, after, rfl, hbase⟩ := List.eq_append_cons_of_mem hopen
    rw [splitFirst?_append hbase]
    dsimp only
    by_cases hclose : '>' ∈ after
    · obtain ⟨inner, tail, rfl, htail⟩ := exists_last_of_mem hclose
      rw [splitLast?_append htail]
      exact angles?_generic hbase htail
    · rw [splitLast?_eq_none hclose, angles?, offsetOf?_mark hbase]
      -- a closing bracket can only stand in front of the opening one
      by_cases hearly : '>' ∈ base
      · obtain ⟨early, between, rfl, hbetween⟩ := exists_last_of_mem hearly
        have hlast : lastOffsetOf? (· == '>') (early ++ '>' :: (between ++ '<' :: after)) =
            some (byteLength early) := lastOffsetOf?_mark early (by simp [hbetween, hclose])
        have hlt : ¬ byteLength (early ++ '>' :: between) < byteLength early := by simp
        rw [List.append_assoc, List.cons_append, hlast]
        simp only [if_neg hlt]
      · rw [lastOffsetOf?_mark_eq_none (by simp [hearly, hclose])]
  · rw [splitFirst?_eq_none hopen, angles?, offsetOf?_mark_eq_none hopen]
    dsimp only
    by_cases hclose : '>' ∈ text
    · obtain ⟨before, after, rfl, hafter⟩ := exists_last_of_mem hclose
      rw [lastOffsetOf?_mark before hafter, if_pos (by simp)]
    · rw [lastOffsetOf?_mark_eq_none hclose, if_neg (by simpa using hclose)]

/-- Nor do they in any text. -/
theorem shape?_eq (text : List Char) : shape? text = some (shape text) := by
  unfold shape? shape
  rw [angles?_eq]
  split
  · rfl
  cases variance? text with
  | some cut => rfl
  | none =>
    dsimp only
    split <;> rfl

theorem shape_of_shape? {text : List Char} {outer : Shape} (h : shape? text = some outer) :
    shape text = outer :=
  Option.some.inj ((shape?_eq text).symm.trans h)

end TypeRef

namespace Resolver

/-- The text of a trimmed type reference with its names qualified, cut at offsets. -/
def qualifyTrimmed? (resolver : Resolver) (text : List Char) : Option (List Char) :=
  match _outer : TypeRef.shape? text with
  | none => none
  | some .verbatim => some text
  | some .named => some (resolver.qualifyName text)
  | some (.generic base inner tail) => do
      let arguments ← (Lexis.splitTopLevel inner).attach.mapM fun ⟨entry, _⟩ =>
        qualifyTrimmed? resolver (trim entry)
      return resolver.qualifyName (trim base) ++
        '<' :: ([',', ' '].intercalate arguments ++ '>' :: tail)
  | some (.nullable rest) => do
      let type ← qualifyTrimmed? resolver (trim rest)
      return type ++ ['?']
  | some (.projected variance rest) => do
      let type ← qualifyTrimmed? resolver (trim rest)
      return variance.keyword ++ type
termination_by text.length
decreasing_by
  · next hm =>
    have := TypeRef.length_of_shape_generic (TypeRef.shape_of_shape? _outer)
    have := Lexis.length_le_of_mem_splitTopLevel hm
    have := length_trim_le entry
    omega
  · have := TypeRef.length_of_shape_nullable (TypeRef.shape_of_shape? _outer)
    have := length_trim_le rest
    omega
  · have := TypeRef.length_of_shape_projected (TypeRef.shape_of_shape? _outer)
    have := length_trim_le rest
    omega

/-- The text of a type reference with its names qualified, cut at offsets. -/
def qualify? (resolver : Resolver) (text : List Char) : Option (List Char) :=
  resolver.qualifyTrimmed? (trim text)

theorem trim_of_mem_splitTopLevel {inner entry : List Char}
    (h : entry ∈ Lexis.splitTopLevel inner) : trim entry = entry := by
  have hmem : entry ∈ (Lexis.pieces 0 false inner).map trim := by
    simp only [Lexis.splitTopLevel] at h
    split at h
    · exact List.dropLast_subset _ h
    · exact h
  obtain ⟨piece, -, rfl⟩ := List.mem_map.1 hmem
  exact trim_trim piece

theorem qualifyTrimmed?_eq (resolver : Resolver) (text : List Char) :
    resolver.qualifyTrimmed? text = some (TypeRef.requalify resolver.qualifyName text) := by
  induction hlength : text.length using Nat.strongRecOn generalizing text with
  | ind length ih =>
    rw [qualifyTrimmed?, TypeRef.requalify]
    -- the cases are the outermost forms of a text
    split
    · next hnone =>
      rw [TypeRef.shape?_eq] at hnone
      cases hnone
    · next hshape =>
      rw [TypeRef.readTrimmed_of_verbatim (TypeRef.shape_of_shape? hshape), TypeRef.mapNames,
        TypeRef.render_verbatim]
    · next hshape =>
      rw [TypeRef.readTrimmed_of_named (TypeRef.shape_of_shape? hshape), TypeRef.mapNames,
        TypeRef.render_named]
    · next base inner tail hshape =>
      have hgeneric := TypeRef.shape_of_shape? hshape
      have harguments : (Lexis.splitTopLevel inner).attach.mapM (fun entry =>
          resolver.qualifyTrimmed? (trim entry.1)) =
            some ((Lexis.splitTopLevel inner).map (TypeRef.requalify resolver.qualifyName)) := by
        rw [← List.attach_map_val]
        refine mapM_eq_some fun entry _ => ?_
        have := TypeRef.length_of_shape_generic hgeneric
        have := Lexis.length_le_of_mem_splitTopLevel entry.2
        rw [trim_of_mem_splitTopLevel entry.2]
        exact ih entry.1.length (by omega) entry.1 rfl
      rw [TypeRef.readTrimmed_of_generic hgeneric, TypeRef.mapNames, TypeRef.mapNamesAll_eq,
        TypeRef.render_generic, TypeRef.renderAll_eq, List.map_map, List.map_map]
      exact Option.bind_eq_some_iff.2 ⟨_, harguments, rfl⟩
    · next rest hshape =>
      have hnullable := TypeRef.shape_of_shape? hshape
      have := TypeRef.length_of_shape_nullable hnullable
      have := length_trim_le rest
      rw [ih (trim rest).length (by omega) (trim rest) rfl,
        TypeRef.readTrimmed_of_nullable hnullable, TypeRef.mapNames, TypeRef.render_nullable]
      rfl
    · next variance rest hshape =>
      have hprojected := TypeRef.shape_of_shape? hshape
      have := TypeRef.length_of_shape_projected hprojected
      have := length_trim_le rest
      rw [ih (trim rest).length (by omega) (trim rest) rfl,
        TypeRef.readTrimmed_of_projected hprojected, TypeRef.mapNames, TypeRef.render_projected]
      rfl

/-- **No cut of a type fails** while its names are qualified. -/
theorem qualify?_eq (resolver : Resolver) (text : List Char) :
    resolver.qualify? text = some (resolver.qualify text) :=
  resolver.qualifyTrimmed?_eq (trim text)

end Resolver

end RpcBinder
