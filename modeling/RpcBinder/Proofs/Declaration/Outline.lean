import RpcBinder.Proofs.Declaration.Services

/-!
# The outline of a text

What counts in a text for its services are the headers and the methods, in their order.  Between
them there may be anything in which neither begins, so the services of a text depend on its
outline alone.

## Main definitions

* `Entry` — a header or a method.
* `HasOutline` — a text with these headers and methods.
* `servicesIn` — the services of an outline.

## Main results

* `HasOutline.exists_finds` — what is found in a text with an outline.
* `HasOutline.servicesOf_eq` — **the services of a text are those of its outline.**
-/

namespace RpcBinder.Declaration

open Pattern

/-- What counts in a text for its services. -/
inductive Entry
  /-- The header of a service. -/
  | header (route name : List Char)
  /-- A method. -/
  | method (read : Method)

/-! ### The services of an outline -/

namespace Entry

/-- The methods in front of the first header. -/
def leading : List Entry → List Method
  | [] => []
  | .header _ _ :: _ => []
  | .method read :: entries => read :: leading entries

/-- The services of the headers, each with the methods between its header and the next one. -/
def services (package : String) : List Entry → List Service
  | [] => []
  | .header route name :: entries =>
      ⟨String.ofList route, package, String.ofList name, leading entries⟩ ::
        services package entries
  | .method _ :: entries => services package entries

end Entry

/-- The services of an outline: a method belongs to the last header before it, or to the first
header if there is none before it. -/
def servicesIn (package : String) (entries : List Entry) : List Service :=
  match Entry.services package entries with
  | [] => []
  | first :: others => { first with methods := Entry.leading entries ++ first.methods } :: others

/-- Methods stand in front of a header together with those that follow them. -/
theorem Entry.leading_methods (read : List Method) (entries : List Entry) :
    Entry.leading (read.map .method ++ entries) = read ++ Entry.leading entries := by
  induction read with
  | nil => rfl
  | cons first others ih => exact congrArg (List.cons first) ih

theorem Entry.services_methods (package : String) (read : List Method) (entries : List Entry) :
    Entry.services package (read.map .method ++ entries) = Entry.services package entries := by
  induction read with
  | nil => rfl
  | cons first others ih => exact ih

/-- Where each header is followed by methods of its own, these are the methods of its service. -/
theorem servicesIn_flatMap {α : Type} (package : String) (route name : α → List Char)
    (read : α → List Method) (as : List α) :
    servicesIn package (as.flatMap fun a => .header (route a) (name a) :: (read a).map .method) =
      as.map fun a => ⟨String.ofList (route a), package, String.ofList (name a), read a⟩ := by
  -- no method stands in front of the first header
  have hleading (as : List α) : Entry.leading
      (as.flatMap fun a => .header (route a) (name a) :: (read a).map .method) = [] := by
    cases as with
    | nil => rfl
    | cons a as => rfl
  have hservices : Entry.services package
      (as.flatMap fun a => .header (route a) (name a) :: (read a).map .method) =
        as.map fun a => ⟨String.ofList (route a), package, String.ofList (name a), read a⟩ := by
    induction as with
    | nil => rfl
    | cons a as ih =>
      rw [List.flatMap_cons, List.cons_append, Entry.services, Entry.leading_methods,
        Entry.services_methods, ih, hleading, List.append_nil, List.map_cons]
  unfold servicesIn
  rw [hservices, hleading]
  cases as with
  | nil => rfl
  | cons a as => rfl

/-- There is a service for each header. -/
theorem length_servicesIn (package : String) (entries : List Entry) :
    (servicesIn package entries).length = (Entry.services package entries).length := by
  unfold servicesIn
  cases Entry.services package entries with
  | nil => rfl
  | cons first others => rfl

/-- The methods, each with the number of its header if there are as many headers before. -/
def numberedMethods : Nat → List Entry → List (Nat × Method)
  | _, [] => []
  | number, .header _ _ :: entries => numberedMethods (number + 1) entries
  | number, .method read :: entries => (number - 1, read) :: numberedMethods number entries

/-- Methods in front of the first header count to the last one before, and behind it each group
has a number of its own. -/
theorem numberedMethods_eq (package : String) (number : Nat) (entries : List Entry) :
    numberedMethods number entries =
      (Entry.leading entries).map (fun read => (number - 1, read)) ++
        numbered number ((Entry.services package entries).map (·.methods)) := by
  induction entries generalizing number with
  | nil => rfl
  | cons entry entries ih =>
    cases entry with
    | header route name => exact ih (number + 1)
    | method read => exact congrArg (List.cons _) (ih number)

/-- With no header before, they count to the first group. -/
theorem numberedMethods_zero {package : String} {entries : List Entry}
    (h : Entry.services package entries ≠ []) :
    numberedMethods 0 entries = numbered 0 ((servicesIn package entries).map (·.methods)) := by
  rw [numberedMethods_eq package]
  unfold servicesIn
  cases hservices : Entry.services package entries with
  | nil => exact absurd hservices h
  | cons first others =>
    rw [List.map_cons, List.map_cons, numbered, numbered, List.map_append, List.append_assoc]

/-! ### Texts with an outline -/

section

variable (resolver : Resolver) (markers : Markers)

/-- The text has these headers and methods, and no others. -/
inductive HasOutline : List Char → List Entry → Prop
  | nil : HasOutline [] []
  /-- Some text in which no header and no method begins. -/
  | gap {s text : List Char} {entries : List Entry} (hservice : Shape.service.IsClear s text)
      (hmethod : Shape.method.IsClear s text) (hrest : HasOutline text entries) :
      HasOutline (s ++ text) entries
  /-- A header; no method begins in it. -/
  | header {s text route name : List Char} {entries : List Entry}
      (hreads : Shape.service.Reads s text [(.route, route), (.name, name)]) (hne : s ≠ [])
      (hmethod : Shape.method.IsClear s text) (hrest : HasOutline text entries) :
      HasOutline (s ++ text) (.header route name :: entries)
  /-- The head of a method that can be read; no header begins in it. -/
  | method {s text : List Char} {parts : List (Part × List Char)} {read : Method}
      {entries : List Entry} (hreads : Shape.method.Reads s text parts) (hne : s ≠ [])
      (hservice : Shape.service.IsClear s text)
      (hread : ∀ actual, Found.Describes ⟨s ++ text, text, parts⟩ actual →
        methodAt resolver markers actual = .ok read)
      (hrest : HasOutline text entries) : HasOutline (s ++ text) (.method read :: entries)

/-- What is found has the route and the name of the service. -/
def IsHeaderOf (service : Service) (found : Found Part) : Prop :=
  ∀ actual, found.Describes actual → ∀ methods,
    serviceAt resolver actual methods = { service with methods }

variable {resolver markers} {text : List Char} {entries : List Entry}

/-- In a text with an outline its headers are found, and its methods behind them.  There may be
headers in front of the text, which begin with `before` bytes left. -/
theorem HasOutline.exists_finds (h : HasOutline resolver markers text entries) :
    ∃ headers methods, Shape.service.Finds text headers ∧ Shape.method.Finds text methods ∧
      List.Forall₂ (IsHeaderOf resolver) (Entry.services resolver.scope.package entries)
        headers ∧
      ∀ before : List Nat, (∀ start ∈ before, byteLength text ≤ start) →
        List.Forall₂ (IsRead resolver markers (before ++ headers.map (byteLength ·.start)))
          (numberedMethods before.length entries) methods := by
  induction h with
  | nil =>
    have hservice : Shape.service.Misses [] := misses_service (by decide)
    have hmethod : Shape.method.Misses [] := misses_method (by decide)
    exact ⟨[], [], .nil hservice, .nil hmethod, .nil, fun _ _ => .nil⟩
  | @gap s text entries hservice hmethod hrest ih =>
    obtain ⟨headers, methods, hheaders, hmethods, hservices, hread⟩ := ih
    refine ⟨headers, methods, hservice.finds hheaders, hmethod.finds hmethods, hservices, ?_⟩
    intro before hbefore
    apply hread
    intro start hmem
    have hle := hbefore start hmem
    rw [byteLength_append] at hle
    omega
  | @header s text route name entries hreads hne hmethod hrest ih =>
    obtain ⟨headers, methods, hheaders, hmethods, hservices, hread⟩ := ih
    refine ⟨_ :: headers, methods, .take hreads hne hheaders, hmethod.finds hmethods,
      .cons ?_ hservices, ?_⟩
    · intro actual hactual methods
      unfold serviceAt Match.part
      rw [hactual.part?, hactual.part?]
      rfl
    · intro before hbefore
      -- this header joins those in front of the rest
      have hrest := hread (before ++ [byteLength (s ++ text)]) (by
        intro start hmem
        have hle : byteLength (s ++ text) ≤ start := by
          rcases List.mem_append.1 hmem with hmem | hmem
          · exact hbefore start hmem
          · exact Nat.le_of_eq (List.mem_singleton.1 hmem).symm
        rw [byteLength_append] at hle
        omega)
      rw [List.append_assoc, List.length_append] at hrest
      exact hrest
  | @method s text parts read entries hreads hne hservice hmethod hrest ih =>
    obtain ⟨headers, methods, hheaders, hmethods, hservices, hread⟩ := ih
    refine ⟨headers, _ :: methods, hservice.finds hheaders, .take hreads hne hmethods,
      hservices, ?_⟩
    intro before hbefore
    have hlt : byteLength text < byteLength (s ++ text) := by
      obtain ⟨c, s, rfl⟩ := List.exists_cons_of_ne_nil hne
      have hsize := c.utf8Size_pos
      rw [byteLength_append, byteLength_cons]
      omega
    -- only the headers in front of the text have as many bytes left as the method
    have howner : ownerAmong (before ++ headers.map (byteLength ·.start))
        (byteLength (s ++ text)) = before.length - 1 := by
      apply ownerAmong_append_of_lt hbefore
      intro later hlater
      obtain ⟨found, hfound, rfl⟩ := List.mem_map.1 (List.mem_of_mem_head? hlater)
      have hle := hheaders.byteLength_start_le found hfound
      omega
    refine .cons ⟨howner, hmethod⟩ (hread before ?_)
    intro start hmem
    have hle := hbefore start hmem
    omega

theorem forall₂_servicesIn {package : String} {R : Service → Match Part → Prop}
    {headers : List (Match Part)} (hR : ∀ service header methods, R service header →
      R { service with methods } header)
    (h : List.Forall₂ R (Entry.services package entries) headers) :
    List.Forall₂ R (servicesIn package entries) headers := by
  unfold servicesIn
  generalize Entry.services package entries = services at h
  cases h with
  | nil => exact .nil
  | cons hfirst hothers => exact .cons (hR _ _ _ hfirst) hothers

/-- **The services of a text are those of its outline.** -/
theorem HasOutline.servicesOf_eq (h : HasOutline resolver markers text entries) :
    servicesOf resolver markers text = .ok (servicesIn resolver.scope.package entries) := by
  obtain ⟨foundHeaders, foundMethods, hfinds, hfinds', hservices, hread⟩ := h.exists_finds
  have hheaders := hfinds.forall₂_findAll
  have hmethods := hfinds'.forall₂_findAll
  have hread := hread [] (List.forall_mem_nil _)
  unfold servicesOf
  generalize Shape.service.findAll text = headers at hheaders ⊢
  generalize Shape.method.findAll text = methods at hmethods ⊢
  -- the services as their headers give them, whatever methods they are given
  have hnamed : List.Forall₂ (fun service header => ∀ methods,
      serviceAt resolver header methods = { service with methods })
        (servicesIn resolver.scope.package entries) headers := by
    apply forall₂_servicesIn
    · intro service header methods hservice
      exact hservice
    · exact forall₂_comp hservices hheaders fun service found actual hfound hactual =>
        hfound actual hactual
  -- without a header nothing is read; otherwise the methods go to their owners
  cases headers with
  | nil =>
    rw [List.forall₂_nil_right_iff.1 hnamed]
    rfl
  | cons first others =>
    have hne : Entry.services resolver.scope.package entries ≠ [] := by
      intro hnone
      rw [servicesIn, hnone] at hnamed
      cases hnamed
    have hmapM := mapM_eq_ok_of_forall₂ (forall₂_comp hread hmethods
      fun read found actual => owner_methodAt_of_isRead resolver markers hheaders)
    have hlength : (first :: others).length =
        ((servicesIn resolver.scope.package entries).map (·.methods)).length := by
      rw [List.length_map, hnamed.length_eq]
    have hcollected := map_members_numbered hlength 0 (serviceAt resolver)
    have hservices := zipWith_eq_map_of_forall₂ hnamed (f := serviceAt resolver)
      (g := (·.methods)) (k := id) fun service header hheader => hheader service.methods
    rw [List.map_id] at hservices
    dsimp only
    rw [hmapM, List.isEmpty_cons, List.length_nil, numberedMethods_zero hne]
    exact congrArg Except.ok (hcollected.trans hservices)

end

end RpcBinder.Declaration
