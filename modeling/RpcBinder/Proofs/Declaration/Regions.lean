import RpcBinder.Proofs.Declaration.Headers
import RpcBinder.Proofs.Declaration.Owners
import RpcBinder.Proofs.Series

/-!
# Methods by region

The headers of a source cut it into regions: that of a header reaches up to the next header, and
that of the first one also covers what stands in front of it.  The headers and the methods are found
in the order of the source, so the number that a method is given tells its region, these numbers
never fall, and collecting the methods number by number keeps all of them in order.

## Main definitions

* `InRegion`, `methodsIn` — the methods that begin in the region of a header.
* `AreReadOff` — methods that are read off matches.
* `withNumbers` — the methods of a source with the numbers of their headers.

## Main results

* `ownerAmong_eq_iff` — the number of a method tells its region.
* `flatMap_members` — collecting members by numbers that never fall keeps them in order.
* `servicesOf_by_region` — **each service has the methods of its region**, or the first method that
  cannot be read is the error.
-/

namespace RpcBinder.Declaration

open Pattern

/-! ### Regions -/

/-- Where a match begins, in bytes from the start of the source. -/
def offsetIn (source : List Char) (found : Match Part) : Nat :=
  byteLength source - found.start.left

/-- A match begins in the region of a header: not in front of the header, unless this is the first
one, and in front of the next header. -/
def InRegion (source : List Char) (number : Nat) (found : Match Part) : Prop :=
  (number = 0 ∨ ∀ header ∈ (Shape.service.findAll source)[number]?,
    offsetIn source header ≤ offsetIn source found) ∧
  ∀ next ∈ (Shape.service.findAll source)[number + 1]?, offsetIn source found < offsetIn source next

instance (source : List Char) (number : Nat) (found : Match Part) :
    Decidable (InRegion source number found) :=
  inferInstanceAs (Decidable ((_ ∨ _) ∧ _))

/-- The matches of methods that begin in the region of a header, in order. -/
def methodsIn (source : List Char) (number : Nat) : List (Match Part) :=
  (Shape.method.findAll source).filter (InRegion source number)

/-- The methods of a source with the numbers of the headers to which they belong. -/
def withNumbers (source : List Char) (methods : List Method) : List (Nat × Method) :=
  ((Shape.method.findAll source).map (ownerOf (Shape.service.findAll source) ·.start)).zip methods

/-- The methods are read off the matches, one by one. -/
def AreReadOff (resolver : Resolver) (markers : Markers) (methods : List Method)
    (found : List (Match Part)) : Prop :=
  List.Forall₂ (fun method found => methodAt resolver markers found = .ok method) methods found

/-! ### The order of matches -/

section Order

variable {pattern : Pattern Part} {source : List Char}

theorem left_le_of_mem_findAll {found : Match Part} (h : found ∈ pattern.findAll source) :
    found.start.left ≤ byteLength source :=
  Cursor.left_le_of_mem_onward ((sublist_findAll pattern source).subset (List.mem_map_of_mem h))

/-- Each match begins in front of those that are found behind it. -/
theorem pairwise_left_findAll (pattern : Pattern Part) (source : List Char) :
    (pattern.findAll source).Pairwise fun a b => b.start.left < a.start.left :=
  List.pairwise_map.1
    ((pairwise_onward (Cursor.ofText source)).sublist (sublist_findAll pattern source))

theorem pairwise_offsetIn_findAll (pattern : Pattern Part) (source : List Char) :
    (pattern.findAll source).Pairwise fun a b => offsetIn source a < offsetIn source b := by
  refine (pairwise_left_findAll pattern source).imp_of_mem fun ha _ hlt => ?_
  have hle := left_le_of_mem_findAll ha
  unfold offsetIn
  omega

end Order

/-! ### Numbers of regions -/

section Numbers

variable {starts : List Nat}

/-- The begins that are not behind a place are as many as stand in front of the first one that is
behind it. -/
theorem le_iff_lt_length_takeWhile (hstarts : starts.Pairwise fun a b => b < a)
    {left number start : Nat} (h : starts[number]? = some start) :
    left ≤ start ↔ number < (starts.takeWhile fun start => left ≤ start).length := by
  induction starts generalizing number with
  | nil => simp at h
  | cons first others ih =>
    obtain ⟨hfirst, hothers⟩ := List.pairwise_cons.1 hstarts
    by_cases hle : left ≤ first
    · rw [List.takeWhile_cons_of_pos (by simpa using hle), List.length_cons]
      cases number with
      | zero =>
        obtain rfl : first = start := by simpa using h
        simp [hle]
      | succ number => rw [ih hothers (by simpa using h), Nat.add_lt_add_iff_right]
    · -- all further begins are behind the place as well
      have hbehind : start ≤ first := by
        rcases List.mem_cons.1 (List.mem_of_getElem? h) with rfl | hmem
        · exact le_rfl
        · exact (hfirst start hmem).le
      rw [List.takeWhile_cons_of_neg (by simpa using hle), List.length_nil]
      omega

/-- **The number of a place tells its region.** -/
theorem ownerAmong_eq_iff (hstarts : starts.Pairwise fun a b => b < a) {number : Nat}
    (hnumber : number < starts.length) (left : Nat) :
    ownerAmong starts left = number ↔
      (number = 0 ∨ ∀ start ∈ starts[number]?, left ≤ start) ∧
        ∀ next ∈ starts[number + 1]?, next < left := by
  -- the starts at or in front of the place are a front, the last of which is the owner
  have hthis : (∀ start ∈ starts[number]?, left ≤ start) ↔
      number < (starts.takeWhile fun start => left ≤ start).length := by
    simp only [List.getElem?_eq_getElem hnumber, Option.mem_some_iff, forall_eq']
    exact le_iff_lt_length_takeWhile hstarts (List.getElem?_eq_getElem hnumber)
  have hnext : (∀ next ∈ starts[number + 1]?, next < left) ↔
      (starts.takeWhile fun start => left ≤ start).length ≤ number + 1 := by
    by_cases hlast : number + 1 < starts.length
    · simp only [List.getElem?_eq_getElem hlast, Option.mem_some_iff, forall_eq']
      have : left ≤ starts[number + 1] ↔ _ :=
        le_iff_lt_length_takeWhile hstarts (List.getElem?_eq_getElem hlast)
      omega
    · have hlength := (List.takeWhile_sublist (p := fun start => decide (left ≤ start))
        (l := starts)).length_le
      rw [List.getElem?_eq_none (Nat.le_of_not_lt hlast)]
      simp only [Option.not_mem_none, false_implies, implies_true, true_iff]
      omega
  rw [hthis, hnext, ownerAmong]
  omega

theorem ownerAmong_lt (hne : starts ≠ []) (left : Nat) :
    ownerAmong starts left < starts.length := by
  have hlength := (List.takeWhile_sublist (p := fun start => decide (left ≤ start))
    (l := starts)).length_le
  have hpos := List.length_pos_of_ne_nil hne
  unfold ownerAmong
  omega

/-- Further on in the source the numbers do not fall. -/
theorem ownerAmong_mono (starts : List Nat) {left further : Nat} (h : further ≤ left) :
    ownerAmong starts left ≤ ownerAmong starts further := by
  refine Nat.sub_le_sub_right ?_ 1
  induction starts with
  | nil => exact le_rfl
  | cons first others ih =>
    by_cases hle : left ≤ first
    · rw [List.takeWhile_cons_of_pos (by simpa using hle),
        List.takeWhile_cons_of_pos (by simpa using h.trans hle)]
      exact Nat.succ_le_succ ih
    · rw [List.takeWhile_cons_of_neg (by simpa using hle)]
      exact Nat.zero_le _

end Numbers

/-! ### Members by their numbers -/

section Members

variable {α : Type} {all : List (Nat × α)}

/-- If the numbers never fall, those with the least number stand in front. -/
theorem eq_filter_append_filter {number : Nat} (hsorted : all.Pairwise fun a b => a.1 ≤ b.1)
    (hleast : ∀ member ∈ all, number ≤ member.1) :
    all = all.filter (·.1 == number) ++ all.filter (!·.1 == number) := by
  induction all with
  | nil => rfl
  | cons member all ih =>
    obtain ⟨hmember, hsorted⟩ := List.pairwise_cons.1 hsorted
    obtain ⟨hle, hleast⟩ := List.forall_mem_cons.1 hleast
    by_cases heq : member.1 = number
    · rw [List.filter_cons_of_pos (by simpa using heq),
        List.filter_cons_of_neg (by simpa using heq), List.cons_append, ← ih hsorted hleast]
    · -- this number is greater, and so are all that follow
      have hnone : (member :: all).filter (·.1 == number) = [] := by
        refine List.filter_eq_nil_iff.2 fun later hmem => ?_
        rw [beq_iff_eq]
        rcases List.mem_cons.1 hmem with rfl | hmem
        · exact heq
        · have := hmember later hmem
          omega
      have hall : (member :: all).filter (!·.1 == number) = member :: all :=
        List.filter_eq_self.2 fun later hmem => by
          simpa using List.filter_eq_nil_iff.1 hnone later hmem
      rw [hnone, hall, List.nil_append]

/-- **Collecting members number by number keeps them in order**, if the numbers never fall. -/
theorem flatMap_members (hsorted : all.Pairwise fun a b => a.1 ≤ b.1) {number count : Nat}
    (hnumbers : ∀ member ∈ all, number ≤ member.1 ∧ member.1 < number + count) :
    (List.range' number count).flatMap (members · all) = all.map (·.2) := by
  induction count generalizing number all with
  | zero =>
    obtain rfl : all = [] := List.eq_nil_iff_forall_not_mem.2 fun member hmem => by
      have := hnumbers member hmem
      omega
    rfl
  | succ count ih =>
    -- the members of the first number are a front, and the others have later numbers
    have hsplit := eq_filter_append_filter hsorted fun member hmem => (hnumbers member hmem).1
    have hlater : ∀ other ∈ List.range' (number + 1) count,
        members other all = members other (all.filter (!·.1 == number)) := by
      intro other hother
      have hne : number < other := by
        have := List.mem_range'_1.1 hother
        omega
      unfold members
      rw [List.filter_filter]
      congr 1
      refine List.filter_congr fun member _ => ?_
      by_cases heq : member.1 = other
      · simp [heq, hne.ne']
      · simp [heq]
    have hbounds : ∀ member ∈ all.filter (!·.1 == number),
        number + 1 ≤ member.1 ∧ member.1 < number + 1 + count := by
      intro member hmem
      obtain ⟨hmem, hne⟩ := List.mem_filter.1 hmem
      have hother : member.1 ≠ number := by simpa using hne
      have := hnumbers member hmem
      omega
    have hrest := ih (hsorted.filter (!·.1 == number)) hbounds
    rw [List.range'_succ, List.flatMap_cons, List.flatMap_congr hlater, hrest, members,
      ← List.map_append, ← hsplit]

end Members

/-! ### Services -/

section Services

variable {resolver : Resolver} {markers : Markers} {source : List Char}

/-- The number of a match tells its region. -/
theorem ownerOf_eq_iff {found : Match Part} (hmem : found ∈ Shape.method.findAll source)
    {number : Nat} (hnumber : number < (Shape.service.findAll source).length) :
    ownerOf (Shape.service.findAll source) found.start = number ↔ InRegion source number found := by
  have hstarts : ((Shape.service.findAll source).map (·.start.left)).Pairwise fun a b => b < a :=
    List.pairwise_map.2 (pairwise_left_findAll Shape.service source)
  rw [ownerOf_eq_ownerAmong, ownerAmong_eq_iff hstarts (by simpa using hnumber), InRegion]
  have hle := left_le_of_mem_findAll hmem
  simp only [List.getElem?_map, Option.mem_def, Option.map_eq_some_iff, forall_exists_index,
    and_imp, forall_apply_eq_imp_iff₂]
  -- the same two bounds, told as offsets
  refine and_congr (or_congr_right ?_) ?_
  · refine forall₂_congr fun header hheader => ?_
    have := left_le_of_mem_findAll (List.mem_of_getElem? hheader)
    unfold offsetIn
    omega
  · refine forall₂_congr fun header hheader => ?_
    have := left_le_of_mem_findAll (List.mem_of_getElem? hheader)
    unfold offsetIn
    omega

/-- Methods that are read one by one are read together, each with a number. -/
theorem mapM_methodAt_eq {headers found : List (Match Part)} {methods : List Method}
    (h : AreReadOff resolver markers methods found) :
    (found.mapM fun found => do
      return (ownerOf headers found.start, ← methodAt resolver markers found)) =
        .ok ((found.map (ownerOf headers ·.start)).zip methods) := by
  refine mapM_eq_ok_of_forall₂ ?_
  induction h with
  | nil => exact .nil
  | cons hmethod _ ih => exact .cons (by rw [hmethod]; rfl) ih

/-- The methods with a number are read off the matches with this number. -/
theorem areReadOff_members {headers found : List (Match Part)} {methods : List Method}
    (h : AreReadOff resolver markers methods found) (number : Nat) :
    AreReadOff resolver markers
      (members number ((found.map (ownerOf headers ·.start)).zip methods))
      (found.filter (ownerOf headers ·.start == number)) := by
  unfold members
  induction h with
  | nil => exact .nil
  | @cons method found methods others hmethod _ ih =>
    rw [List.map_cons, List.zip_cons_cons]
    simp only [List.filter_cons]
    split
    · exact .cons hmethod ih
    · exact ih

/-- Further on in a source the numbers of the methods do not fall. -/
theorem pairwise_withNumbers {methods : List Method}
    (h : AreReadOff resolver markers methods (Shape.method.findAll source)) :
    (withNumbers source methods).Pairwise fun a b => a.1 ≤ b.1 := by
  have hnumbers : ((Shape.method.findAll source).map
      (ownerOf (Shape.service.findAll source) ·.start)).Pairwise (· ≤ ·) := by
    refine List.pairwise_map.2 ((pairwise_left_findAll Shape.method source).imp fun hlt => ?_)
    rw [ownerOf_eq_ownerAmong, ownerOf_eq_ownerAmong]
    exact ownerAmong_mono _ hlt.le
  refine List.pairwise_map (f := Prod.fst).1 ?_
  rwa [withNumbers, List.map_fst_zip (by rw [List.length_map, List.Forall₂.length_eq h])]

theorem ownerOf_lt {headers : List (Match Part)} (hne : headers ≠ []) (place : Cursor) :
    ownerOf headers place < headers.length := by
  have hlt := @ownerAmong_lt (headers.map (·.start.left)) (by simpa using hne) place.left
  rwa [List.length_map, ← ownerOf_eq_ownerAmong] at hlt

/-- The numbers of methods are numbers of headers. -/
theorem number_lt_length (hne : Shape.service.findAll source ≠ []) {methods : List Method}
    {read : Nat × Method} (hmem : read ∈ withNumbers source methods) :
    read.1 < (Shape.service.findAll source).length := by
  obtain ⟨found, -, heq⟩ := List.mem_map.1 (List.of_mem_zip hmem).1
  exact heq ▸ ownerOf_lt hne found.start

theorem exists_areReadOff {all : List (Match Part)}
    (h : ∀ found ∈ all, ∃ method, methodAt resolver markers found = .ok method) :
    ∃ methods, AreReadOff resolver markers methods all := by
  induction all with
  | nil => exact ⟨[], .nil⟩
  | cons found others ih =>
    obtain ⟨⟨method, hmethod⟩, hothers⟩ := List.forall_mem_cons.1 h
    obtain ⟨methods, hmethods⟩ := ih hothers
    exact ⟨method :: methods, .cons hmethod hmethods⟩

/-- The services of a source if all of its methods can be read. -/
theorem servicesOf_of_areReadOff (hne : Shape.service.findAll source ≠ []) {methods : List Method}
    (h : AreReadOff resolver markers methods (Shape.method.findAll source)) :
    servicesOf resolver markers source =
      .ok ((Shape.service.findAll source).zipIdx.map fun header =>
        serviceAt resolver header.1 (members header.2 (withNumbers source methods))) := by
  unfold servicesOf
  rw [if_neg (by simpa using hne), mapM_methodAt_eq h]
  rfl

/-- If a method cannot be read, the first one of this kind is the error. -/
theorem servicesOf_eq_error (hne : Shape.service.findAll source ≠ [])
    {before after : List (Match Part)} {failing : Match Part} {fault : MalformedParameter}
    (hfound : Shape.method.findAll source = before ++ failing :: after)
    (hbefore : ∀ earlier ∈ before, ∃ method, methodAt resolver markers earlier = .ok method)
    (hfailing : methodAt resolver markers failing = .error fault) :
    servicesOf resolver markers source = .error fault := by
  unfold servicesOf
  rw [if_neg (by simpa using hne), hfound, mapM_append_cons_eq_error _ (by rw [hfailing]; rfl)]
  · rfl
  · intro earlier hmem
    obtain ⟨method, hmethod⟩ := hbefore earlier hmem
    exact ⟨_, by rw [hmethod]; rfl⟩

/-- The methods of all services together are those of the source in order. -/
theorem flatMap_methods_eq (hne : Shape.service.findAll source ≠ []) {methods : List Method}
    (h : AreReadOff resolver markers methods (Shape.method.findAll source)) :
    (((Shape.service.findAll source).zipIdx.map fun header =>
      serviceAt resolver header.1 (members header.2 (withNumbers source methods))).flatMap
        (·.methods)) = methods := by
  -- the numbers of the headers are all the numbers that methods are given
  have hnumbers : ∀ read ∈ withNumbers source methods,
      0 ≤ read.1 ∧ read.1 < 0 + (Shape.service.findAll source).length := fun read hmem =>
    ⟨Nat.zero_le _, by rw [Nat.zero_add]; exact number_lt_length hne hmem⟩
  have hflat := flatMap_members (pairwise_withNumbers h) hnumbers
  rw [← List.zipIdx_map_snd, List.flatMap_map, withNumbers,
    List.map_snd_zip (by rw [List.length_map, List.Forall₂.length_eq h])] at hflat
  rw [List.flatMap_map]
  exact hflat

/-- The methods with the number of a header are those of its region. -/
theorem areReadOff_methodsIn {methods : List Method}
    (h : AreReadOff resolver markers methods (Shape.method.findAll source)) {number : Nat}
    (hnumber : number < (Shape.service.findAll source).length) :
    AreReadOff resolver markers (members number (withNumbers source methods))
      (methodsIn source number) := by
  have hfilter : methodsIn source number = (Shape.method.findAll source).filter
      (ownerOf (Shape.service.findAll source) ·.start == number) := by
    refine List.filter_congr fun found hmem => ?_
    rw [← decide_eq_decide.2 (ownerOf_eq_iff hmem hnumber)]
    rfl
  rw [hfilter]
  exact areReadOff_members h number

/-- **Each service has the methods of its region.**  Headers and methods are found one behind the
other.  If all methods can be read there is one service for each header, the methods of all services
together are those of the source in order, and those of a service are those of the region of its
header.  Otherwise the first method that cannot be read is the error. -/
theorem servicesOf_by_region (resolver : Resolver) (markers : Markers)
    (hheaders : Shape.service.findAll source ≠ []) :
    ((Shape.service.findAll source).Pairwise fun a b => offsetIn source a < offsetIn source b) ∧
    ((Shape.method.findAll source).Pairwise fun a b => offsetIn source a < offsetIn source b) ∧
    ((∀ found ∈ Shape.method.findAll source, ∃ method,
        methodAt resolver markers found = .ok method) →
      ∃ services, servicesOf resolver markers source = .ok services ∧
        List.Forall₂ (IsServiceOf resolver) services (Shape.service.findAll source) ∧
        AreReadOff resolver markers (services.flatMap (·.methods)) (Shape.method.findAll source) ∧
        ∀ number service, services[number]? = some service →
          AreReadOff resolver markers service.methods (methodsIn source number)) ∧
    ∀ before failing after fault, Shape.method.findAll source = before ++ failing :: after →
      (∀ earlier ∈ before, ∃ method, methodAt resolver markers earlier = .ok method) →
        methodAt resolver markers failing = .error fault →
          servicesOf resolver markers source = .error fault := by
  refine ⟨pairwise_offsetIn_findAll _ _, pairwise_offsetIn_findAll _ _, fun hall => ?_,
    fun before failing after fault hfound hbefore hfailing =>
      servicesOf_eq_error hheaders hfound hbefore hfailing⟩
  obtain ⟨methods, hmethods⟩ := exists_areReadOff hall
  have hservices := servicesOf_of_areReadOff hheaders hmethods
  refine ⟨_, hservices, forall₂_headers_of_servicesOf hservices, ?_, ?_⟩
  · rwa [flatMap_methods_eq hheaders hmethods]
  · intro number service hservice
    rw [List.getElem?_map, Option.map_eq_some_iff] at hservice
    obtain ⟨header, hheader, rfl⟩ := hservice
    rw [List.getElem?_zipIdx, Option.map_eq_some_iff] at hheader
    obtain ⟨header, hheader, rfl⟩ := hheader
    rw [Nat.zero_add]
    exact areReadOff_methodsIn hmethods (List.getElem?_eq_some_iff.1 hheader).1

/-- The first service also has the method in front of its header. -/
theorem servicesOf_by_region_example :
    let resolver : Resolver := ⟨{ package := "p" }, TypeIndex.empty⟩
    let front : List Char := "@RpcMethod(\"0\")fun z()@RpcService(\"a\")interface A".toList
    let source : List Char :=
      front ++ "@RpcService(\"b\")interface B@RpcMethod(\"1\")fun b(id: Int)".toList
    let stuck : List Char := front ++ "@RpcMethod(\"1\")fun b(id)".toList
    Shape.service.findAll source ≠ [] ∧ Shape.service.findAll stuck ≠ [] ∧
      (∃ services, servicesOf resolver [] source = .ok services ∧
        AreReadOff resolver [] (services.flatMap (·.methods)) (Shape.method.findAll source) ∧
        services.map (fun service => (service.route, service.methods.map (·.id))) =
          [("a", ["0"]), ("b", ["1"])]) ∧
      servicesOf resolver [] stuck = .error ⟨"id"⟩ := by
  intro resolver front source stuck
  obtain ⟨hsource, hread, hservices⟩ : Shape.service.findAll source ≠ [] ∧
      (∀ found ∈ Shape.method.findAll source,
        errorOf? (methodAt resolver [] found) = none) ∧
      (servicesOf resolver [] source).map (·.map fun service =>
        (service.route, service.methods.map (·.id))) = .ok [("a", ["0"]), ("b", ["1"])] := by
    decide +kernel
  -- the last method is the first that cannot be read
  obtain ⟨hstuck, hne, hbefore, hfailing⟩ : Shape.service.findAll stuck ≠ [] ∧
      ∃ hne : Shape.method.findAll stuck ≠ [],
        (∀ earlier ∈ (Shape.method.findAll stuck).dropLast,
          errorOf? (methodAt resolver [] earlier) = none) ∧
        methodAt resolver [] ((Shape.method.findAll stuck).getLast hne) = .error ⟨"id"⟩ := by
    decide +kernel
  obtain ⟨services, hok, -, hmethods, -⟩ := (servicesOf_by_region resolver [] hsource).2.2.1
    fun found hmem => errorOf?_eq_none.1 (hread found hmem)
  rw [hok] at hservices
  refine ⟨hsource, hstuck, ⟨services, hok, hmethods, Except.ok.inj hservices⟩, ?_⟩
  exact (servicesOf_by_region resolver [] hstuck).2.2.2 _ _ [] _
    (List.dropLast_append_getLast hne).symm
    (fun earlier hmem => errorOf?_eq_none.1 (hbefore earlier hmem)) hfailing

end Services

end RpcBinder.Declaration
