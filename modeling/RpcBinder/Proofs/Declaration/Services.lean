import RpcBinder.Proofs.Declaration.Methods
import RpcBinder.Proofs.Declaration.Owners

/-!
# Services are read off their text

The only tags in printed services are those of the services and of their methods, so searching
for either finds them one by one and nothing in between.  Each method begins behind the header of
its own service and in front of the next one.

## Main definitions

* `foundHeaders`, `foundMethods` — what is found in printed services.

## Main results

* `finds_service`, `finds_method` — the searches find just that.
* `forall₂_foundMethods` — each method is owned by its service and read as it was declared.
* `servicesOf_sourceAll` — **the printed services are read**, all of them and in order.
-/

namespace RpcBinder.Declaration

open Pattern

variable {layout : Layout}

/-! ### What is found -/

def MethodDecl.found (layout : Layout) (method : MethodDecl) (tail : List Char) : Found Part :=
  let stop := method.block ++ ')' :: (method.ending ++ tail)
  ⟨method.head layout ++ stop, stop, [(.id, method.id), (.name, method.name)]⟩

/-- The methods that are found in front of a text. -/
def foundIn (layout : Layout) : List MethodDecl → List Char → List (Found Part)
  | [], _ => []
  | method :: methods, tail =>
      method.found layout (methods.flatMap (·.source layout) ++ tail) ::
        foundIn layout methods tail

/-- The methods that are found in services. -/
def foundMethods (layout : Layout) : List ServiceDecl → List (Found Part)
  | [] => []
  | service :: services =>
      foundIn layout service.methods
          (ServiceDecl.ending layout ++ ServiceDecl.sourceAll layout services) ++
        foundMethods layout services

/-- The headers that are found in services. -/
def foundHeaders (layout : Layout) : List ServiceDecl → List (Found Part)
  | [] => []
  | service :: services =>
      let stop := ' ' :: '{' :: '\n' :: (service.methods.flatMap (·.source layout) ++
        (ServiceDecl.ending layout ++ ServiceDecl.sourceAll layout services))
      ⟨service.head ++ stop, stop, [(.route, service.route), (.name, service.name)]⟩ ::
        foundHeaders layout services

theorem MethodDecl.source_append (method : MethodDecl) (tail : List Char) :
    method.source layout ++ tail = layout.indent ++ (method.found layout tail).start := by
  simp [source, found]

theorem ServiceDecl.sourceAll_cons (service : ServiceDecl) (services : List ServiceDecl) :
    sourceAll layout (service :: services) = service.head ++ (' ' :: '{' :: '\n' ::
      (service.methods.flatMap (·.source layout) ++
        (ending layout ++ sourceAll layout services))) := by
  simp [sourceAll, source]

/-! ### Where there is no tag -/

/-- The line of a tag holds no other tag. -/
theorem tagLine_eq (name : String) (word : List Char) {argument indent : List Char}
    (hname : name.toList = '@' :: word) (hword : '@' ∉ word) (hargument : IsArgument argument)
    (hindent : isBlank indent = true) :
    ∃ line, tagLine name argument indent = '@' :: line ∧ '@' ∉ line := by
  refine ⟨word ++ '(' :: '"' :: (argument ++ '"' :: ')' :: '\n' :: indent), ?_, ?_⟩
  · rw [tagLine, hname, List.cons_append]
  · have hin : '@' ∉ argument := hargument.notMem (by decide)
    have hblank : '@' ∉ indent := notMem_of_isBlank hindent (by decide)
    simp [hword, hin, hblank]

theorem MethodDecl.head_eq (hlayout : layout.IsBlank) {method : MethodDecl}
    (hwf : method.IsWellFormed) : ∃ rest, method.head layout = '@' :: rest ∧ '@' ∉ rest := by
  obtain ⟨line, hline, htag⟩ := tagLine_eq "@RpcMethod" "RpcMethod".toList
    (by decide) (by decide) hwf.id hlayout.indent
  have hname : '@' ∉ method.name := hwf.name.notMem (by decide)
  unfold head
  rw [hline]
  refine ⟨_, rfl, ?_⟩
  cases method.suspending <;> simp [htag, hname]

theorem ServiceDecl.head_eq {service : ServiceDecl} (hwf : service.IsWellFormed) :
    ∃ rest, service.head = '@' :: rest ∧ '@' ∉ rest := by
  obtain ⟨line, hline, htag⟩ : ∃ line, tagLine "@RpcService" service.route [] = '@' :: line ∧
      '@' ∉ line :=
    tagLine_eq "@RpcService" "RpcService".toList (by decide) (by decide) hwf.route rfl
  have hname : '@' ∉ service.name := hwf.name.notMem (by decide)
  unfold head
  rw [hline]
  exact ⟨_, rfl, by simp [htag, hname]⟩

theorem MethodDecl.notMem_signature {method : MethodDecl} (hwf : method.IsWellFormed) :
    '@' ∉ method.block ++ ')' :: method.ending := by
  have hblock : '@' ∉ method.block := fun hmem =>
    ne_of_class (forall_char_block hwf _ hmem) (by decide : isBlockChar '@' = false) rfl
  have hending : '@' ∉ method.ending := by
    unfold ending
    cases hreturns : method.returns? with
    | none => simp
    | some type =>
      have htype : '@' ∉ type.canonical := fun hmem =>
        ne_of_class (forall_char_canonical (hwf.returns type hreturns) _ hmem)
          (by decide : isTypeLineChar '@' = false) rfl
      simp [htype]
  simp [hblock, hending]

theorem ServiceDecl.notMem_ending (hlayout : layout.IsBlank) : '@' ∉ ending layout := by
  have hgap : '@' ∉ layout.gap := notMem_of_isBlank hlayout.gap (by decide)
  simp [ending, hgap]

/-! ### Searching -/

theorem misses_service {text : List Char} (h : ¬ "@RpcService".toList <+: text) :
    Shape.service.Misses text :=
  (((((Shape.misses_quotedTag h).seq _).seq _).seq _).seq _).seq _ |>.seq _

theorem misses_method {text : List Char} (h : ¬ "@RpcMethod".toList <+: text) :
    Shape.method.Misses text :=
  ((((((Shape.misses_quotedTag h).seq _).seq _).seq _).seq _).seq _).seq _ |>.seq _ |>.seq _

/-- What begins with a tag is found nowhere else. -/
theorem finds_append_of_notMem {pattern : Pattern Part} {name : String} (word : List Char)
    (hname : name.toList = '@' :: word)
    (hmiss : ∀ {text : List Char}, ¬ name.toList <+: text → pattern.Misses text)
    {s text : List Char} (hs : '@' ∉ s) {founds : List (Found Part)}
    (h : pattern.Finds text founds) : pattern.Finds (s ++ text) founds := by
  refine h.append fun c hc rest => hmiss fun hfront => ?_
  rw [hname] at hfront
  exact hs ((List.cons_prefix_cons.1 hfront).1 ▸ hc)

theorem finds_service_append {s text : List Char} (hs : '@' ∉ s) {founds : List (Found Part)}
    (h : Shape.service.Finds text founds) : Shape.service.Finds (s ++ text) founds :=
  finds_append_of_notMem "RpcService".toList (by decide) misses_service hs h

theorem finds_method_append {s text : List Char} (hs : '@' ∉ s) {founds : List (Found Part)}
    (h : Shape.method.Finds text founds) : Shape.method.Finds (s ++ text) founds :=
  finds_append_of_notMem "RpcMethod".toList (by decide) misses_method hs h

/-- A method's tag is not that of a service. -/
theorem MethodDecl.not_prefix_head (method : MethodDecl) (rest : List Char) :
    ¬ "@RpcService".toList <+: method.head layout ++ rest := by
  unfold head tagLine
  simp only [List.append_assoc]
  exact not_prefix_of_clashes (by decide) _

/-- A service's tag is not that of a method. -/
theorem ServiceDecl.not_prefix_head (service : ServiceDecl) (rest : List Char) :
    ¬ "@RpcMethod".toList <+: service.head ++ rest := by
  unfold head tagLine
  simp only [List.append_assoc]
  exact not_prefix_of_clashes (by decide) _

theorem MethodDecl.flatMap_source_cons (method : MethodDecl) (methods : List MethodDecl)
    (tail : List Char) : (method :: methods).flatMap (·.source layout) ++ tail =
      layout.indent ++ (method.head layout ++ ((method.block ++ ')' :: method.ending) ++
        (methods.flatMap (·.source layout) ++ tail))) := by
  rw [List.flatMap_cons, source]
  simp only [List.append_assoc]

/-- No service is found in methods. -/
theorem finds_service_methods (hlayout : layout.IsBlank) {methods : List MethodDecl}
    (hwf : ∀ method ∈ methods, method.IsWellFormed) {tail : List Char}
    {founds : List (Found Part)} (h : Shape.service.Finds tail founds) :
    Shape.service.Finds (methods.flatMap (·.source layout) ++ tail) founds := by
  induction methods with
  | nil => exact h
  | cons method methods ih =>
    have hmethod := hwf method List.mem_cons_self
    have hrest := ih fun other hmem => hwf other (List.mem_cons_of_mem _ hmem)
    have hsignature := finds_service_append (MethodDecl.notMem_signature hmethod) hrest
    obtain ⟨line, hline, htag⟩ := MethodDecl.head_eq hlayout hmethod
    rw [MethodDecl.flatMap_source_cons]
    refine finds_service_append (notMem_of_isBlank hlayout.indent (by decide)) ?_
    -- the tag itself is passed over, and behind it there is none
    have hmiss : Shape.service.Misses (method.head layout ++ ((method.block ++ ')' :: method.ending)
        ++ (methods.flatMap (·.source layout) ++ tail))) :=
      misses_service (MethodDecl.not_prefix_head method _)
    rw [hline] at hmiss ⊢
    exact .skip hmiss (finds_service_append htag hsignature)

/-- Each method is found at its tag. -/
theorem finds_method_methods (hlayout : layout.IsBlank) {methods : List MethodDecl}
    (hwf : ∀ method ∈ methods, method.IsWellFormed) {tail : List Char}
    {founds : List (Found Part)} (h : Shape.method.Finds tail founds) :
    Shape.method.Finds (methods.flatMap (·.source layout) ++ tail)
      (foundIn layout methods tail ++ founds) := by
  induction methods with
  | nil => exact h
  | cons method methods ih =>
    have hmethod := hwf method List.mem_cons_self
    have hrest := ih fun other hmem => hwf other (List.mem_cons_of_mem _ hmem)
    have hsignature := finds_method_append (MethodDecl.notMem_signature hmethod) hrest
    obtain ⟨line, hline, -⟩ := MethodDecl.head_eq hlayout hmethod
    -- neither the indent nor the signature holds a sign, so only the head of a method is found
    rw [MethodDecl.flatMap_source_cons]
    refine finds_method_append (notMem_of_isBlank hlayout.indent (by decide)) ?_
    have hstop : (method.block ++ ')' :: method.ending) ++
        (methods.flatMap (·.source layout) ++ tail) = method.block ++
          ')' :: (method.ending ++ (methods.flatMap (·.source layout) ++ tail)) := by
      simp
    rw [hstop] at hsignature ⊢
    exact Finds.take (Shape.reads_method hlayout hmethod) (by rw [hline]; simp) hsignature

/-- **The headers that are found** are those of the services. -/
theorem finds_service (hlayout : layout.IsBlank) {services : List ServiceDecl}
    (hwf : ∀ service ∈ services, service.IsWellFormed) :
    Shape.service.Finds (ServiceDecl.sourceAll layout services) (foundHeaders layout services) := by
  induction services with
  | nil => exact .nil (misses_service (by decide))
  | cons service services ih =>
    have hservice := hwf service List.mem_cons_self
    have hrest := ih fun other hmem => hwf other (List.mem_cons_of_mem _ hmem)
    have hending := finds_service_append (ServiceDecl.notMem_ending hlayout) hrest
    have hmethods := finds_service_methods hlayout hservice.methods hending
    have hopen := finds_service_append (s := [' ', '{', '\n']) (by decide) hmethods
    obtain ⟨line, hline, -⟩ := ServiceDecl.head_eq hservice
    rw [ServiceDecl.sourceAll_cons]
    exact Finds.take (Shape.reads_service hservice (by simp; decide)) (by rw [hline]; simp) hopen

/-- **The methods that are found** are those of the services. -/
theorem finds_method (hlayout : layout.IsBlank) {services : List ServiceDecl}
    (hwf : ∀ service ∈ services, service.IsWellFormed) :
    Shape.method.Finds (ServiceDecl.sourceAll layout services) (foundMethods layout services) := by
  induction services with
  | nil => exact .nil (misses_method (by decide))
  | cons service services ih =>
    have hservice := hwf service List.mem_cons_self
    have hrest := ih fun other hmem => hwf other (List.mem_cons_of_mem _ hmem)
    have hending := finds_method_append (ServiceDecl.notMem_ending hlayout) hrest
    have hmethods := finds_method_methods hlayout hservice.methods hending
    have hopen := finds_method_append (s := [' ', '{', '\n']) (by decide) hmethods
    obtain ⟨line, hline, htag⟩ := ServiceDecl.head_eq hservice
    -- the header of a service is no method, and nothing up to the first method is one
    have hmiss := misses_method (ServiceDecl.not_prefix_head service (' ' :: '{' :: '\n' ::
      (service.methods.flatMap (·.source layout) ++
        (ServiceDecl.ending layout ++ ServiceDecl.sourceAll layout services))))
    rw [ServiceDecl.sourceAll_cons]
    rw [hline] at hmiss ⊢
    exact .skip hmiss (finds_method_append htag hopen)

/-! ### Owners -/

/-- How many bytes are left where the services begin. -/
def startsOf (layout : Layout) (services : List ServiceDecl) : List Nat :=
  (foundHeaders layout services).map fun found => byteLength found.start

theorem startsOf_cons (service : ServiceDecl) (services : List ServiceDecl) :
    startsOf layout (service :: services) =
      byteLength (ServiceDecl.sourceAll layout (service :: services)) ::
        startsOf layout services := by
  rw [startsOf, ServiceDecl.sourceAll_cons]
  rfl

/-- The first service begins where all of them do. -/
theorem head?_startsOf {services : List ServiceDecl} {start : Nat}
    (h : start ∈ (startsOf layout services).head?) :
    start = byteLength (ServiceDecl.sourceAll layout services) := by
  cases services with
  | nil => simp [startsOf, foundHeaders] at h
  | cons service services =>
    rw [startsOf_cons] at h
    exact (Option.some.inj h).symm

theorem isNext_methods {methods : List MethodDecl} (hlayout : layout.IsBlank)
    (hwf : ∀ method ∈ methods, method.IsWellFormed) {tail : List Char} (htail : IsNext tail) :
    IsNext (methods.flatMap (·.source layout) ++ tail) := by
  cases methods with
  | nil => exact htail
  | cons method methods =>
    obtain ⟨line, hline, -⟩ := MethodDecl.head_eq hlayout (hwf method List.mem_cons_self)
    rw [MethodDecl.flatMap_source_cons, hline]
    exact ⟨layout.indent, '@', _, hlayout.indent, Or.inl rfl, rfl⟩

section

variable (resolver : Resolver) (markers : Markers)

/-- What is found is owned by a header and read as a method. -/
def IsRead (starts : List Nat) (read : Nat × Method) (found : Found Part) : Prop :=
  ownerAmong starts (byteLength found.start) = read.1 ∧
    ∀ actual, found.Describes actual → methodAt resolver markers actual = .ok read.2

/-- The methods of a service are owned by it if everything between its header and the next one
is. -/
theorem forall₂_foundIn (hlayout : layout.IsBlank) {methods : List MethodDecl}
    (hwf : ∀ method ∈ methods, method.IsWellFormed) {tail : List Char} (htail : IsNext tail)
    {starts : List Nat} {number : Nat}
    (howner : ∀ left, byteLength tail < left →
      left ≤ byteLength (methods.flatMap (·.source layout) ++ tail) →
        ownerAmong starts left = number) :
    List.Forall₂ (IsRead resolver markers starts)
      (methods.map fun method => (number, method.method resolver markers))
      (foundIn layout methods tail) := by
  induction methods with
  | nil => exact List.Forall₂.nil
  | cons method methods ih =>
    have hmethod := hwf method List.mem_cons_self
    have hothers : ∀ other ∈ methods, other.IsWellFormed :=
      fun other hmem => hwf other (List.mem_cons_of_mem _ hmem)
    -- the head stands between what follows and the whole, where the owner is known
    have hlength : byteLength ((method :: methods).flatMap (·.source layout) ++ tail) =
        byteLength layout.indent + byteLength (method.found layout
          (methods.flatMap (·.source layout) ++ tail)).start := by
      rw [List.flatMap_cons, List.append_assoc, MethodDecl.source_append, byteLength_append]
    have hinside : byteLength (methods.flatMap (·.source layout) ++ tail) <
        byteLength (method.found layout (methods.flatMap (·.source layout) ++ tail)).start := by
      have hclose := Char.utf8Size_pos ')'
      simp only [MethodDecl.found, byteLength_append, byteLength_cons]
      omega
    have htails : byteLength tail ≤ byteLength (methods.flatMap (·.source layout) ++ tail) := by
      rw [byteLength_append]
      omega
    refine List.Forall₂.cons ⟨howner _ (by omega) (by omega), fun actual hactual => ?_⟩
      (ih hothers fun left hlow hhigh => howner left hlow (by omega))
    exact MethodDecl.methodAt_of_describes resolver markers hmethod
      (isNext_methods hlayout hothers htail) hactual

/-- **Each method is owned by its service and read as it was declared.** -/
theorem forall₂_foundMethods (hlayout : layout.IsBlank) {services : List ServiceDecl}
    (hwf : ∀ service ∈ services, service.IsWellFormed) (before : List Nat)
    (hbefore : ∀ start ∈ before, byteLength (ServiceDecl.sourceAll layout services) ≤ start) :
    List.Forall₂ (IsRead resolver markers (before ++ startsOf layout services))
      (numbered before.length
        (services.map fun service => service.methods.map (·.method resolver markers)))
      (foundMethods layout services) := by
  induction services generalizing before with
  | nil => exact List.Forall₂.nil
  | cons service services ih =>
    let tail := ServiceDecl.ending layout ++ ServiceDecl.sourceAll layout services
    let start := byteLength (ServiceDecl.sourceAll layout (service :: services))
    have hservice := hwf service List.mem_cons_self
    have htail : IsNext tail := ⟨[], '}', _, rfl, Or.inr rfl, rfl⟩
    have htailLength : byteLength (ServiceDecl.sourceAll layout services) ≤ byteLength tail := by
      simp only [tail, byteLength_append]
      omega
    have hstart : byteLength (service.methods.flatMap (·.source layout) ++ tail) ≤ start := by
      simp only [start, tail, ServiceDecl.sourceAll_cons, byteLength_append, byteLength_cons]
      omega
    have htailStart : byteLength tail ≤ start := by
      rw [byteLength_append] at hstart
      omega
    have hbeforeStart : ∀ earlier ∈ before, start ≤ earlier := hbefore
    have howner : ∀ left, byteLength tail < left →
        left ≤ byteLength (service.methods.flatMap (·.source layout) ++ tail) →
          ownerAmong (before ++ startsOf layout (service :: services)) left = before.length := by
      intro left hlow hhigh
      rw [startsOf_cons]
      refine ownerAmong_append (fun earlier hmem => ?_) (hhigh.trans hstart) fun later hlater => ?_
      · have := hbeforeStart earlier hmem
        omega
      · rw [head?_startsOf hlater]
        omega
    have hfirst := forall₂_foundIn resolver markers hlayout hservice.methods htail howner
    -- the start of this service joins those in front of the others
    have hrest := ih (fun other hmem => hwf other (List.mem_cons_of_mem _ hmem))
      (before ++ [start]) (by
        intro earlier hmem
        rcases List.mem_append.1 hmem with hmem | hmem
        · have := hbeforeStart earlier hmem
          omega
        · rw [List.mem_singleton.1 hmem]
          omega)
    rw [List.append_assoc, List.singleton_append, List.length_append] at hrest
    rw [startsOf_cons] at hfirst ⊢
    rw [List.map_cons, numbered, List.map_map]
    exact List.rel_append hfirst hrest

/-- The headers carry the routes and the names of the services. -/
theorem forall₂_headers {services : List ServiceDecl} {headers : List (Match Part)}
    (h : List.Forall₂ Found.Describes (foundHeaders layout services) headers) :
    List.Forall₂ (fun service header => header.part .route = service.route ∧
      header.part .name = service.name) services headers := by
  induction services generalizing headers with
  | nil =>
    cases h
    exact List.Forall₂.nil
  | cons service services ih =>
    cases h with
    | cons hheader hrest =>
      refine List.Forall₂.cons ⟨?_, ?_⟩ (ih hrest)
      · unfold Match.part
        rw [hheader.part?]
        rfl
      · unfold Match.part
        rw [hheader.part?]
        rfl

/-- What is found among the headers is counted by them. -/
theorem owner_methodAt_of_isRead {founds : List (Found Part)} {headers : List (Match Part)}
    (hheaders : List.Forall₂ Found.Describes founds headers)
    {read : Nat × Method} {found : Found Part} {actual : Match Part}
    (h : IsRead resolver markers (founds.map fun found => byteLength found.start) read found)
    (hactual : found.Describes actual) :
    (do return (ownerOf headers actual.start, ← methodAt resolver markers actual) :
      Except MalformedParameter (Nat × Method)) = .ok read := by
  obtain ⟨howner, hmethod⟩ := h
  have hstarts : headers.map (·.start.left) = founds.map fun found => byteLength found.start :=
    map_eq_map_of_forall₂ hheaders fun _ _ _ h => h.left
  rw [ownerOf_eq_ownerAmong, hstarts, hactual.left, howner, hmethod actual hactual]
  rfl

/-- **Printed services are read**: all of them in order, with the package of the scope, each with
its own methods in order, and these with all their parameters and with qualified types. -/
theorem servicesOf_sourceAll (hlayout : layout.IsBlank) {services : List ServiceDecl}
    (hwf : ∀ service ∈ services, service.IsWellFormed) :
    servicesOf resolver markers (ServiceDecl.sourceAll layout services) =
      .ok (services.map (·.service resolver markers)) := by
  have hheaders := (finds_service hlayout hwf).forall₂_findAll
  have hmethods := (finds_method hlayout hwf).forall₂_findAll
  have hread := forall₂_foundMethods resolver markers hlayout hwf [] (by simp)
  unfold servicesOf
  generalize Shape.service.findAll (ServiceDecl.sourceAll layout services) = headers at hheaders ⊢
  generalize Shape.method.findAll (ServiceDecl.sourceAll layout services) = methods at hmethods ⊢
  have hnamed := forall₂_headers hheaders
  have hlength : headers.length = (services.map fun service =>
      service.methods.map (·.method resolver markers)).length := by
    rw [List.length_map, hnamed.length_eq]
  -- without services nothing is read; otherwise the methods go to their owners
  cases services with
  | nil =>
    cases hnamed
    rfl
  | cons service services =>
    have hne : headers.isEmpty = false := by
      cases hnamed
      rfl
    have hmapM := mapM_eq_ok_of_forall₂ (forall₂_comp hread hmethods
      fun read found actual => owner_methodAt_of_isRead resolver markers hheaders)
    dsimp only
    rw [hne, hmapM]
    have hcollected := map_members_numbered hlength 0 (serviceAt resolver)
    have hservices := zipWith_eq_map_of_forall₂ hnamed (f := serviceAt resolver)
      (g := fun service => service.methods.map (·.method resolver markers))
      (k := (·.service resolver markers)) fun service header hheader => by
        unfold serviceAt ServiceDecl.service
        rw [hheader.1, hheader.2]
    exact congrArg Except.ok (hcollected.trans hservices)

end

theorem servicesOf_sourceAll_example :
    let markers : Markers := [⟨"Unit", "k.Unit", false⟩, ⟨"Flow", "k.Flow", true⟩]
    let resolver : Resolver :=
      ⟨{ package := "p", explicit := ["q.User"] }, TypeIndex.empty.seed markers⟩
    let layout : Layout := ⟨[' ', ' '], ['\n']⟩
    let user : TypeTree := .nullable (.named "User".toList)
    let services : List ServiceDecl :=
      [⟨"users".toList, "Users".toList,
          [⟨"1".toList, true, "get".toList,
              [⟨"id".toList, .named "Id".toList⟩, ⟨"or".toList, user⟩], some user⟩,
            ⟨"2".toList, false, "all".toList, [], some (.generic "Flow".toList user [])⟩]⟩,
        ⟨"health".toList, "Health".toList, [⟨"3".toList, false, "ping".toList, [], none⟩]⟩]
    let lines : List String :=
      ["@RpcService(\"users\")\n", "interface Users \x7b\n",
        "  @RpcMethod(\"1\")\n", "  suspend fun get(id: Id, or: User?): User?\n",
        "  @RpcMethod(\"2\")\n", "  fun all(): Flow<User?>\n", "\x7d\n", "\n",
        "@RpcService(\"health\")\n", "interface Health \x7b\n",
        "  @RpcMethod(\"3\")\n", "  fun ping()\n", "\x7d\n", "\n"]
    layout.IsBlank ∧ (∀ service ∈ services, service.IsWellFormed) ∧
      servicesOf resolver markers (lines.flatMap String.toList) =
        .ok
          [⟨"users", "p", "Users",
              [⟨"1", "get", [⟨"id", "Id"⟩, ⟨"or", "q.User?"⟩], "q.User?", false⟩,
                ⟨"2", "all", [], "k.Flow<q.User?>", true⟩]⟩,
            ⟨"health", "p", "Health", [⟨"3", "ping", [], "k.Unit", false⟩]⟩] := by
  intro markers resolver layout user services lines
  have hlayout : layout.IsBlank := ⟨rfl, rfl⟩
  have hwf : ∀ service ∈ services, service.IsWellFormed := by decide +kernel
  have hsource : ServiceDecl.sourceAll layout services = lines.flatMap String.toList := by
    decide +kernel
  have hread := servicesOf_sourceAll resolver markers hlayout hwf
  rw [hsource] at hread
  refine ⟨hlayout, hwf, hread.trans ?_⟩
  decide +kernel

end RpcBinder.Declaration
