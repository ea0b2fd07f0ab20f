import RpcBinder.Declaration.Service
import RpcBinder.Proofs.Declaration.TypeLine

/-!
# Headers of services among the types

A service is found by its tag, a type by its line, and the two do not read the same texts.  The
interface of a service is among the types exactly if its header is plain: the line on which the
name stands begins with a lead, the name is an ASCII name, and the braces are as deep there as in
front of the tag.

## Main definitions

* `IsListed` — the interface of a header is among the types outside of braces.
* `IsPlain` — a header that the shape of a type reads.

## Main results

* `forall₂_headers_of_servicesOf` — services and their headers.
* `isListed_iff_isPlain` — **the interfaces that are listed** are those of plain headers.
-/

namespace RpcBinder.Declaration

open Pattern Lexis

/-! ### Services and headers -/

/-- The service is that of a header. -/
structure IsServiceOf (resolver : Resolver) (service : Service) (header : Match Part) : Prop where
  route : service.route = String.ofList (header.part .route)
  package : service.package = resolver.scope.package
  interface : service.interface = String.ofList (header.part .name)

/-- There is one service for each header, in order. -/
theorem forall₂_headers_of_servicesOf {resolver : Resolver} {markers : Markers} {text : List Char}
    {services : List Service} (h : servicesOf resolver markers text = .ok services) :
    List.Forall₂ (IsServiceOf resolver) services (Shape.service.findAll text) := by
  unfold servicesOf at h
  dsimp only at h
  split at h
  · next hempty =>
    obtain rfl := Except.ok.inj h
    rw [List.isEmpty_iff.1 hempty]
    exact .nil
  · obtain ⟨methods, -, hservices⟩ := bind_eq_ok.1 h
    obtain rfl := Except.ok.inj hservices
    -- each service is made from the header with its number
    have hself := List.forall₂_map_right_iff.2 (List.forall₂_same.2 fun numbered
      (_ : numbered ∈ (Shape.service.findAll text).zipIdx) =>
        (⟨rfl, rfl, rfl⟩ : IsServiceOf resolver (serviceAt resolver numbered.1
          ((methods.filter (·.1 == numbered.2)).map (·.2))) numbered.1))
    rw [List.zipIdx_map_fst] at hself
    exact List.forall₂_map_left_iff.2 hself

/-! ### Plain headers -/

/-- The interface of a header is among the types outside of braces. -/
def IsListed (text : List Char) (header : Match Part) : Prop :=
  ∃ declared ∈ Kind.type.recognised text,
    declared.stop.rest = header.stop.rest ∧ declared.part .name = header.part .name

instance (text : List Char) (header : Match Part) : Decidable (IsListed text header) :=
  inferInstanceAs (Decidable (∃ declared ∈ Kind.type.recognised text, _))

/-- The shape of a type reads the header: on the line of the name there stands a lead in front of
it, the name is an ASCII name, and the line begins at the depth of the header. -/
def IsPlain (text : List Char) (header : Match Part) : Prop :=
  IsAsciiName (header.part .name) ∧ ∃ (front : List Char) (lead : TypeLead),
    EndsLine front ∧ lead.IsWellFormed ∧
      front ++ (lead.text ++ (header.part .name ++ header.stop.rest)) = text ∧
        braceDepth (codeBefore (byteLength front) (commentFreeRegions text)) =
          depthAt text header.start

theorem isWord_of_isNamePart {c : Char} (h : isNamePart c = true) : isWord c = true := by
  have hascii : c.toNat < 0x80 := by
    unfold isNamePart Char.isAlphanum Char.isAlpha Char.isUpper Char.isLower Char.isDigit at h
    simp only [Bool.or_eq_true, Bool.and_eq_true, decide_eq_true_eq, beq_iff_eq] at h
    have hle {d : Char} (hd : d.toNat < 0x80) (hcd : c.val ≤ d.val) : c.toNat < 0x80 :=
      Nat.lt_of_le_of_lt (UInt32.le_iff_toNat_le.1 hcd) hd
    rcases h with ((h | h) | h) | rfl
    · exact hle (d := 'Z') (by decide) h.2
    · exact hle (d := 'z') (by decide) h.2
    · exact hle (d := '9') (by decide) h.2
    · decide
  rw [isWord, if_pos hascii, h]

/-- A header ends with its name, and the name where its characters end. -/
theorem exists_header {text : List Char} {header : Match Part}
    (h : header ∈ Shape.service.findAll text) :
    IsRun isWord (header.part .name) ∧ ∀ c ∈ header.stop.rest.head?, isWord c = false := by
  obtain ⟨start, trail⟩ := header
  have hrun := run_of_mem_findAll h
  -- only the route is captured in front of the name
  have hwithin : (Shape.quotedTag "@RpcService" .route ++ Shape.tags ++
      Shape.modifiers ["public", "internal", "private"] ++
        maybe (Shape.word "fun" ++ Shape.spaces1) ++ Shape.word "interface" ++
          Shape.spaces1).Within (fun _ => true) fun part =>
            if part = .route then some fun _ => true else none := by
    simp [Shape.quotedTag, Shape.tags, Shape.tag, Shape.modifiers, Shape.spaces, Shape.spaces1,
      Shape.word]
  obtain ⟨s, t, rest, -, ht, hend, hstop, hpart⟩ := hwithin.exists_last rfl hrun
  have hname : (Match.mk start trail).part .name = t := by rw [Match.part, hpart]; rfl
  refine ⟨hname ▸ ht, ?_⟩
  show ∀ c ∈ trail.stop.rest.head?, isWord c = false
  rw [hstop]
  exact hend

/-- **The interfaces that are listed** are those of the plain headers, among the headers that
stand outside of all braces. -/
theorem isListed_iff_isPlain {text : List Char} {header : Match Part}
    (h : header ∈ Shape.service.findAll text) (hdepth : depthAt text header.start = 0) :
    IsListed text header ↔ IsPlain text header := by
  -- where the name of the header ends, an ASCII name cannot go on either
  have hrest : ∀ c ∈ header.stop.rest.head?, isNamePart c = false := by
    intro c hc
    by_contra hpart
    have hword := isWord_of_isNamePart (by simpa using hpart)
    rw [(exists_header h).2 c hc] at hword
    cases hword
  rw [IsPlain, hdepth]
  constructor
  · rintro ⟨declared, hdeclared, hstop, hname⟩
    obtain ⟨hmem, hzero⟩ := List.mem_filter.1 hdeclared
    obtain ⟨before, _, _, hlies, -, -, -⟩ := within_type_line.exists_takes hmem
    obtain ⟨hfront, hascii, lead, hlead, htext⟩ :=
      (exists_mem_findAll_type_iff hrest).1 ⟨declared, hmem, hlies, hstop, hname⟩
    rw [depthAt, hlies.byteLength_eq] at hzero
    exact ⟨hascii, before, lead, hfront, hlead, htext, eq_of_beq hzero⟩
  · rintro ⟨hascii, front, lead, hfront, hlead, htext, hzero⟩
    obtain ⟨declared, hmem, hlies, hstop, hname⟩ :=
      (exists_mem_findAll_type_iff hrest).2 ⟨hfront, hascii, lead, hlead, htext⟩
    refine ⟨declared, List.mem_filter.2 ⟨hmem, ?_⟩, hstop, hname⟩
    rw [depthAt, hlies.byteLength_eq, hzero]
    rfl

theorem mem_topLevelTypes_of_isListed {text : List Char} {header : Match Part}
    (h : IsListed text header) : String.ofList (header.part .name) ∈ topLevelTypes text := by
  obtain ⟨declared, hdeclared, -, hname⟩ := h
  rw [topLevelTypes_eq, ← hname]
  exact List.mem_map_of_mem hdeclared

end RpcBinder.Declaration
