import RpcBinder.Proofs.Declaration.Outline
import RpcBinder.Proofs.Declaration.TaggedSource

/-!
# Services with further tags are read off their text

A header or a method counts if its further tags are readable, and is passed over with them if
they get stuck.  So the outline of printed services leaves out what is behind stuck tags, and the
methods of a header that is left out go to the one before it.

## Main definitions

* `TaggedService.entries` — what counts of a service.

## Main results

* `hasOutline_sourceAll` — the outline of printed services.
* `servicesOf_eq_bare_iff` — **nothing is dropped if and only if all further tags are readable.**
-/

namespace RpcBinder.Declaration

open Pattern

section

variable (resolver : Resolver) (markers : Markers)

/-- The methods with readable tags, in order. -/
def readableMethods (methods : List TaggedMethod) : List Method :=
  (methods.filter (·.between.IsReadable)).map (·.declared.method resolver markers)

/-- What counts of a service. -/
def TaggedService.entries (service : TaggedService) : List Entry :=
  (if service.between.IsReadable then [.header service.route service.name] else []) ++
    (readableMethods resolver markers service.methods).map .method

variable {resolver markers} {layout : Layout} {text : List Char} {entries : List Entry}

/-! ### The outline of printed services -/

/-- Text without a sign is passed over. -/
theorem HasOutline.gap_of_notMem {s : List Char} (hs : '@' ∉ s)
    (h : HasOutline resolver markers text entries) :
    HasOutline resolver markers (s ++ text) entries :=
  .gap (beginsWithTag_service.isClear_of_notMem hs text)
    (beginsWithTag_method.isClear_of_notMem hs text) h

theorem isNext_taggedMethods {methods : List TaggedMethod} (hlayout : layout.IsBlank)
    (htext : IsNext text) : IsNext (methods.flatMap (·.source layout) ++ text) := by
  cases methods with
  | nil => exact htext
  | cons method methods =>
    rw [List.flatMap_cons, TaggedMethod.source, TaggedMethod.head, lead_eq]
    simp only [List.append_assoc]
    exact ⟨layout.indent, '@', _, hlayout.indent, Or.inl rfl, rfl⟩

/-! ### Methods -/

namespace TaggedMethod

variable {method : TaggedMethod}

theorem notMem_words (hwf : method.IsWellFormed) : '@' ∉ method.words := by
  have hname : '@' ∉ method.declared.name := hwf.declared.name.notMem (by decide)
  unfold words
  cases method.declared.suspending <;> simp [hname]

/-- The head of a method is found if its further tags are readable. -/
theorem reads_head (hwf : method.IsWellFormed) (hreadable : method.between.IsReadable)
    (rest : List Char) : Shape.method.Reads method.head rest
      [(.id, method.declared.id), (.name, method.declared.name)] := by
  have hfirst : ∀ keyword ∈ ["suspend", "fun"], ∃ c word, keyword.toList = c :: word ∧
      isSpace c = false ∧ c ≠ '@' := by
    simp only [List.forall_mem_cons]
    exact ⟨⟨_, _, rfl, by decide⟩, ⟨_, _, rfl, by decide⟩, List.forall_mem_nil _⟩
  have htags : ∀ keyword ∈ ["suspend", "fun"], ∀ rest,
      Reads (Shape.quotedTag "@RpcMethod" .id ++ Shape.tags)
        (lead "RpcMethod" method.declared.id method.between) (keyword.toList ++ rest)
          [(.id, method.declared.id)] := by
    intro keyword hkeyword rest
    obtain ⟨c, word, hword, hspace, hsign⟩ := hfirst keyword hkeyword
    rw [hword]
    exact Between.reads (by decide) hwf.declared.id hwf.between hreadable (by simpa using hspace)
      (by simpa using hsign)
  have hreads := Shape.reads_method_of_tags htags hwf.declared.name method.declared.suspending rest
  rwa [List.append_assoc] at hreads

/-- No service begins in the head of a method. -/
theorem isClear_head (hwf : method.IsWellFormed) (rest : List Char) :
    Shape.service.IsClear method.head rest := by
  have hfirst : Shape.service.Misses
      (lead "RpcMethod" method.declared.id method.between ++ (method.words ++ rest)) :=
    beginsWithTag_service.misses_lead (by decide) (by decide) _ _ _
  exact beginsWithTag_service.isClear_head (by decide) hwf.declared.id hwf.between hwf.further
    (notMem_words hwf) hfirst

/-- Behind tags that get stuck the method itself does not begin either. -/
theorem isClear_head_of_isStuck (hwf : method.IsWellFormed) (hstuck : method.between.IsStuck "fun")
    (hfurther : ∀ tag ∈ method.between.tags, tag.IsFurther "RpcMethod") (rest : List Char) :
    Shape.method.IsClear method.head rest := by
  have hmisses : (declarationHead "@RpcMethod" .id ["public", "abstract", "open", "override"]
      "suspend" "fun").Misses
        (lead "RpcMethod" method.declared.id method.between ++ (method.words ++ rest)) :=
    Between.misses (by decide) (by decide) hwf.declared.id hstuck _
  have hfirst : Shape.method.Misses
      (lead "RpcMethod" method.declared.id method.between ++ (method.words ++ rest)) :=
    ((hmisses.seq _).seq _).seq _
  exact beginsWithTag_method.isClear_head (by decide) hwf.declared.id hwf.between hfurther
    (notMem_words hwf) hfirst

end TaggedMethod

/-- The methods that count are those behind readable tags. -/
theorem hasOutline_methods (hlayout : layout.IsBlank) {methods : List TaggedMethod}
    (hwf : ∀ method ∈ methods, method.IsWellFormed)
    (hdecided : ∀ method ∈ methods, method.between.IsDecided "RpcMethod" "fun")
    (htext : IsNext text) (h : HasOutline resolver markers text entries) :
    HasOutline resolver markers (methods.flatMap (·.source layout) ++ text)
      ((readableMethods resolver markers methods).map .method ++ entries) := by
  induction methods with
  | nil => exact h
  | cons method methods ih =>
    obtain ⟨hmethod, hmethods⟩ := List.forall_mem_cons.1 hwf
    obtain ⟨hfirst, hothers⟩ := List.forall_mem_cons.1 hdecided
    have hnext : IsNext (methods.flatMap (·.source layout) ++ text) :=
      isNext_taggedMethods hlayout htext
    have hbehind := HasOutline.gap_of_notMem (MethodDecl.notMem_signature hmethod.declared)
      (ih hmethods hothers)
    rw [List.flatMap_cons, TaggedMethod.source, readableMethods]
    simp only [List.append_assoc] at hbehind ⊢
    refine HasOutline.gap_of_notMem (notMem_of_isBlank hlayout.indent (by decide)) ?_
    by_cases hreadable : method.between.IsReadable
    · -- the method is read, with all of its tags
      rw [List.filter_cons_of_pos (by simpa using hreadable)]
      refine .method (TaggedMethod.reads_head hmethod hreadable _) ?_
        (TaggedMethod.isClear_head hmethod _) ?_ hbehind
      · simp [TaggedMethod.head, lead_eq]
      · intro actual hactual
        exact MethodDecl.methodAt_of_describes resolver markers hmethod.declared hnext hactual
    · -- the match is stuck at a tag, so the method is passed over
      rw [List.filter_cons_of_neg (by simpa using hreadable)]
      obtain ⟨hstuck, hfurther⟩ := hfirst.resolve_left hreadable
      exact .gap (TaggedMethod.isClear_head hmethod _)
        (TaggedMethod.isClear_head_of_isStuck hmethod hstuck hfurther _) hbehind

/-! ### Services -/

namespace TaggedService

variable {service : TaggedService}

theorem notMem_words (hwf : service.IsWellFormed) :
    '@' ∉ "interface".toList ++ ' ' :: service.name := by
  have hname : '@' ∉ service.name := hwf.name.notMem (by decide)
  simp [hname]

/-- The header of a service is found if its further tags are readable. -/
theorem reads_head (hwf : service.IsWellFormed) (hreadable : service.between.IsReadable)
    {rest : List Char} (hrest : ∀ c ∈ rest.head?, isWord c = false) :
    Shape.service.Reads service.head rest [(.route, service.route), (.name, service.name)] := by
  have htags (rest : List Char) : Reads (Shape.quotedTag "@RpcService" .route ++ Shape.tags)
      (lead "RpcService" service.route service.between) ("interface".toList ++ rest)
        [(.route, service.route)] := by
    have hspace : isSpace 'i' = false := by decide
    exact Between.reads (by decide) hwf.route hwf.between hreadable (by simpa using hspace)
      (by simp)
  exact Shape.reads_service_of_tags htags hwf.name hrest

/-- No method begins in the header of a service. -/
theorem isClear_head (hwf : service.IsWellFormed) (rest : List Char) :
    Shape.method.IsClear service.head rest := by
  have hfirst : Shape.method.Misses (lead "RpcService" service.route service.between ++
      (("interface".toList ++ ' ' :: service.name) ++ rest)) :=
    beginsWithTag_method.misses_lead (by decide) (by decide) _ _ _
  exact beginsWithTag_method.isClear_head (by decide) hwf.route hwf.between hwf.further
    (notMem_words hwf) hfirst

/-- Behind tags that get stuck the service itself does not begin either. -/
theorem isClear_head_of_isStuck (hwf : service.IsWellFormed)
    (hstuck : service.between.IsStuck "interface")
    (hfurther : ∀ tag ∈ service.between.tags, tag.IsFurther "RpcService") (rest : List Char) :
    Shape.service.IsClear service.head rest := by
  have hmisses : (declarationHead "@RpcService" .route ["public", "internal", "private"] "fun"
      "interface").Misses (lead "RpcService" service.route service.between ++
        (("interface".toList ++ ' ' :: service.name) ++ rest)) :=
    Between.misses (by decide) (by decide) hwf.route hstuck _
  have hfirst : Shape.service.Misses (lead "RpcService" service.route service.between ++
      (("interface".toList ++ ' ' :: service.name) ++ rest)) := hmisses.seq _
  exact beginsWithTag_service.isClear_head (by decide) hwf.route hwf.between hfurther
    (notMem_words hwf) hfirst

end TaggedService

/-- **The outline of printed services** has what stands behind readable tags. -/
theorem hasOutline_sourceAll (hlayout : layout.IsBlank) {services : List TaggedService}
    (hwf : ∀ service ∈ services, service.IsWellFormed)
    (hdecided : ∀ service ∈ services, service.IsDecided) :
    HasOutline resolver markers (TaggedService.sourceAll layout services)
      (services.flatMap (·.entries resolver markers)) := by
  induction services with
  | nil => exact .nil
  | cons service services ih =>
    obtain ⟨hservice, hservices⟩ := List.forall_mem_cons.1 hwf
    obtain ⟨⟨hfirst, hmethods⟩, hothers⟩ := List.forall_mem_cons.1 hdecided
    have hending := HasOutline.gap_of_notMem (ServiceDecl.notMem_ending hlayout)
      (ih hservices hothers)
    have hnext : IsNext (ServiceDecl.ending layout ++ TaggedService.sourceAll layout services) :=
      ⟨[], '}', _, rfl, Or.inr rfl, rfl⟩
    have hinner := hasOutline_methods hlayout hservice.methods hmethods hnext hending
    have hbehind := HasOutline.gap_of_notMem (s := [' ', '{', '\n']) (by decide) hinner
    rw [TaggedService.sourceAll, List.flatMap_cons, List.flatMap_cons, TaggedService.source,
      TaggedService.entries]
    simp only [List.append_assoc] at hbehind ⊢
    by_cases hreadable : service.between.IsReadable
    · -- the header is read, and its methods go to it
      rw [if_pos hreadable]
      refine .header (TaggedService.reads_head hservice hreadable ?_) ?_
        (TaggedService.isClear_head hservice _) hbehind
      · simp; decide
      · simp [TaggedService.head, lead_eq]
    · -- the match is stuck at a tag, so the methods are left to the header in front
      rw [if_neg hreadable]
      obtain ⟨hstuck, hfurther⟩ := hfirst.resolve_left hreadable
      exact .gap (TaggedService.isClear_head_of_isStuck hservice hstuck hfurther _)
        (TaggedService.isClear_head hservice _) hbehind

/-! ### What is dropped -/

theorem length_services_entries (package : String) (services : List TaggedService) :
    (Entry.services package (services.flatMap (·.entries resolver markers))).length =
      services.countP (·.between.IsReadable) := by
  induction services with
  | nil => rfl
  | cons service services ih =>
    have hmethods := Entry.services_methods package
      (readableMethods resolver markers service.methods)
      (services.flatMap (·.entries resolver markers))
    rw [List.flatMap_cons, TaggedService.entries, List.append_assoc]
    by_cases hreadable : service.between.IsReadable
    · rw [if_pos hreadable, List.countP_cons_of_pos (by simpa using hreadable), ← ih, ← hmethods]
      rfl
    · rw [if_neg hreadable, List.countP_cons_of_neg (by simpa using hreadable), ← ih, ← hmethods]
      rfl

theorem length_readableMethods (methods : List TaggedMethod) :
    (readableMethods resolver markers methods).length =
      methods.countP (·.between.IsReadable) := by
  rw [readableMethods, List.length_map, List.countP_eq_length_filter]

/-- If all headers are found, each service has the methods that are. -/
theorem servicesIn_entries (package : String) {services : List TaggedService}
    (hheaders : ∀ service ∈ services, service.between.IsReadable) :
    servicesIn package (services.flatMap (·.entries resolver markers)) =
      services.map fun service => ⟨String.ofList service.route, package,
        String.ofList service.name, readableMethods resolver markers service.methods⟩ := by
  rw [← servicesIn_flatMap]
  congr 1
  refine List.flatMap_congr fun service hmem => ?_
  rw [TaggedService.entries, if_pos (hheaders service hmem)]
  rfl

/-- The services of the outline are those that were printed if and only if all further tags are
readable. -/
theorem servicesIn_entries_eq_iff {services : List TaggedService} :
    servicesIn resolver.scope.package (services.flatMap (·.entries resolver markers)) =
        services.map (·.declared.service resolver markers) ↔
      ∀ service ∈ services, service.IsReadable := by
  constructor
  · intro heq
    -- a header that is missing makes too few services
    have hlength := congrArg List.length heq
    rw [length_servicesIn, length_services_entries, List.length_map] at hlength
    have hheaders : ∀ service ∈ services, service.between.IsReadable := by
      simpa using List.countP_eq_length.1 hlength
    rw [servicesIn_entries _ hheaders, List.map_inj_left] at heq
    intro service hmem
    refine ⟨hheaders service hmem, ?_⟩
    -- and a method that is missing makes too few methods of its service
    have hmethods := congrArg (fun service => service.methods.length) (heq service hmem)
    dsimp only [TaggedService.declared, ServiceDecl.service] at hmethods
    rw [length_readableMethods, List.length_map, List.length_map] at hmethods
    simpa using List.countP_eq_length.1 hmethods
  · intro hreadable
    rw [servicesIn_entries _ fun service hmem => (hreadable service hmem).1]
    refine List.map_congr_left fun service hmem => ?_
    have hall : service.methods.filter (·.between.IsReadable) = service.methods := by
      simpa using (hreadable service hmem).2
    unfold readableMethods
    rw [hall]
    simp [TaggedService.declared, ServiceDecl.service]

variable (resolver markers)

/-- **Nothing is dropped if and only if all further tags are readable**: then the services are
read as they are without further tags, all of them in order, each with all of its methods in
order. -/
theorem servicesOf_eq_bare_iff (hlayout : layout.IsBlank) {services : List TaggedService}
    (hwf : ∀ service ∈ services, service.IsWellFormed)
    (hdecided : ∀ service ∈ services, service.IsDecided) :
    servicesOf resolver markers (TaggedService.sourceAll layout (services.map (·.bare))) =
        .ok (services.map (·.declared.service resolver markers)) ∧
      (servicesOf resolver markers (TaggedService.sourceAll layout services) =
          servicesOf resolver markers (TaggedService.sourceAll layout (services.map (·.bare))) ↔
        ∀ service ∈ services, service.IsReadable) := by
  -- without further tags every service is readable, so all of them are found
  have hbare : servicesOf resolver markers
      (TaggedService.sourceAll layout (services.map (·.bare))) =
        .ok (services.map (·.declared.service resolver markers)) := by
    have hwfBare : ∀ service ∈ services.map (·.bare), service.IsWellFormed := by
      intro service hmem
      obtain ⟨service, hservice, rfl⟩ := List.mem_map.1 hmem
      exact (hwf service hservice).bare
    have hreadable : ∀ service ∈ services.map (·.bare), service.IsReadable := by
      intro service hmem
      obtain ⟨service, -, rfl⟩ := List.mem_map.1 hmem
      exact service.bare_isReadable
    have houtline : HasOutline resolver markers
        (TaggedService.sourceAll layout (services.map (·.bare)))
        ((services.map (·.bare)).flatMap (·.entries resolver markers)) :=
      hasOutline_sourceAll hlayout hwfBare fun service hmem => (hreadable service hmem).isDecided
    rw [houtline.servicesOf_eq, servicesIn_entries_eq_iff.2 hreadable, List.map_map]
    congr 1
    refine List.map_congr_left fun service _ => ?_
    rw [Function.comp_apply, service.declared_bare]
  refine ⟨hbare, ?_⟩
  rw [hbare, (hasOutline_sourceAll hlayout hwf hdecided).servicesOf_eq, Except.ok.injEq]
  exact servicesIn_entries_eq_iff

end

theorem servicesOf_eq_bare_iff_example :
    let markers : Markers := [⟨"Unit", "k.Unit", false⟩, ⟨"Flow", "k.Flow", true⟩]
    let resolver : Resolver := ⟨{ package := "p" }, TypeIndex.empty.seed markers⟩
    let layout : Layout := ⟨[' ', ' '], []⟩
    let doc : Tag := ⟨"Doc".toList, some "\"at (a@b\"".toList, ['\n']⟩
    let internal : Tag := ⟨"k.Internal".toList, none, ['\n', ' ', ' ']⟩
    let level : Tag := ⟨"Level".toList, some "1, 2".toList, [' ']⟩
    let services : List TaggedService :=
      [⟨"users".toList, "Users".toList, ⟨['\n'], [doc]⟩,
        [⟨⟨"1".toList, true, "get".toList, [], none⟩, ⟨[' '], [internal, level]⟩⟩]⟩]
    let lines : List String :=
      ["@RpcService(\"users\")\n", "@Doc(\"at (a@b\")\n", "interface Users \x7b\n",
        "  @RpcMethod(\"1\") @k.Internal\n", "  @Level(1, 2) suspend fun get()\n", "\x7d\n"]
    layout.IsBlank ∧ (∀ service ∈ services, service.IsWellFormed) ∧
      (∀ service ∈ services, service.IsDecided) ∧
        servicesOf resolver markers (lines.flatMap String.toList) =
          .ok [⟨"users", "p", "Users", [⟨"1", "get", [], "k.Unit", false⟩]⟩] := by
  intro markers resolver layout doc internal level services lines
  have hlayout : layout.IsBlank := ⟨rfl, rfl⟩
  have hwf : ∀ service ∈ services, service.IsWellFormed := by decide +kernel
  have hreadable : ∀ service ∈ services, service.IsReadable := by decide +kernel
  have hdecided : ∀ service ∈ services, service.IsDecided :=
    fun service hmem => (hreadable service hmem).isDecided
  have hsource : TaggedService.sourceAll layout services = lines.flatMap String.toList := by
    decide +kernel
  obtain ⟨hbare, hiff⟩ := servicesOf_eq_bare_iff resolver markers hlayout hwf hdecided
  have hread := (hiff.2 hreadable).trans hbare
  rw [hsource] at hread
  refine ⟨hlayout, hwf, hdecided, hread.trans ?_⟩
  decide +kernel

/-- Something that is called in the arguments of a further tag, or a parenthesis in a quoted
text: the method is gone, and so is the service, whose other method goes to the one before it. -/
theorem servicesOf_drops_nested :
    let markers : Markers := [⟨"Unit", "k.Unit", false⟩]
    let resolver : Resolver := ⟨{ package := "p" }, TypeIndex.empty.seed markers⟩
    let layout : Layout := ⟨[' ', ' '], []⟩
    let doc : Tag := ⟨"Doc".toList, some "\"1) first\"".toList, ['\n', ' ', ' ']⟩
    let role : Tag := ⟨"Role".toList, some "any()".toList, ['\n']⟩
    let method (id name : String) (tags : List Tag) : TaggedMethod :=
      ⟨⟨id.toList, false, name.toList, [], none⟩, ⟨['\n', ' ', ' '], tags⟩⟩
    let services : List TaggedService :=
      [⟨"a".toList, "A".toList, ⟨['\n'], []⟩, [method "1" "one" [doc]]⟩,
        ⟨"b".toList, "B".toList, ⟨['\n'], [role]⟩, [method "2" "two" []]⟩]
    let lines : List String :=
      ["@RpcService(\"a\")\n", "interface A \x7b\n", "  @RpcMethod(\"1\")\n",
        "  @Doc(\"1) first\")\n", "  fun one()\n", "\x7d\n", "@RpcService(\"b\")\n",
        "@Role(any())\n", "interface B \x7b\n", "  @RpcMethod(\"2\")\n", "  fun two()\n",
        "\x7d\n"]
    TaggedService.sourceAll layout services = lines.flatMap String.toList ∧
      servicesOf resolver markers (TaggedService.sourceAll layout services) =
        .ok [⟨"a", "p", "A", [⟨"2", "two", [], "k.Unit", false⟩]⟩] ∧
      servicesOf resolver markers (TaggedService.sourceAll layout (services.map (·.bare))) =
        .ok [⟨"a", "p", "A", [⟨"1", "one", [], "k.Unit", false⟩]⟩,
          ⟨"b", "p", "B", [⟨"2", "two", [], "k.Unit", false⟩]⟩] := by
  intro markers resolver layout doc role method services lines
  have hlayout : layout.IsBlank := ⟨rfl, rfl⟩
  have houtline : ∀ services : List TaggedService, (∀ service ∈ services, service.IsWellFormed) →
      (∀ service ∈ services, service.IsDecided) →
        servicesOf resolver markers (TaggedService.sourceAll layout services) =
          .ok (servicesIn "p" (services.flatMap (·.entries resolver markers))) :=
    fun services hwf hdecided => (hasOutline_sourceAll hlayout hwf hdecided).servicesOf_eq
  refine ⟨?_, (houtline _ ?_ ?_).trans ?_, (houtline _ ?_ ?_).trans ?_⟩ <;> decide +kernel

end RpcBinder.Declaration
