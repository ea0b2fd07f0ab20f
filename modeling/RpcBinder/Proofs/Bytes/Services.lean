import RpcBinder.Proofs.Bytes.Parens
import RpcBinder.Proofs.Bytes.Types
import RpcBinder.Proofs.Declaration.InCode
import RpcBinder.Proofs.Declaration.Regions
import RpcBinder.Proofs.Pattern.Spans

/-!
# Cuts while services are read

The head of a method ends with the parenthesis that opens its parameters, so this one begins one
byte in front of the end of the match.  The parameters are cut out up to the parenthesis that
closes them, which is one byte as well, and the return type is looked for in the text behind.  The
method is then added to the service with the number of its header, and there is such a service
unless there are no headers at all.

## Main definitions

* `Checked` — what may fail, and may end with a malformed parameter.
* `methodAt?`, `ownerAt?`, `addMethod?` — a method with its cuts, the number of its header, and the
  services with one method more.
* `servicesOf?` — the services of a source, with all that may fail while they are read.

## Main results

* `methodAt?_eq` — no cut fails while a method is read.
* `ownerAt?_eq`, `exists_addMethod?` — a method is added to the service of its header.
* `servicesOf?_eq` — **nothing fails while services are read.**
-/

namespace RpcBinder.Declaration

open Pattern

/-! ### What may fail and what may be malformed -/

/-- What comes to a result or to a malformed parameter, unless an index, a cut or a difference
fails on the way. -/
abbrev Checked := ExceptT MalformedParameter Option

/-- What was come to without a failure. -/
def reached {α : Type} (result : Except MalformedParameter α) : Checked α :=
  ExceptT.mk (some result)

section Checked

variable {α β : Type}

theorem lift_some_bind (a : α) (f : α → Checked β) : (liftM (some a) : Checked α) >>= f = f a :=
  rfl

theorem reached_bind (result : Except MalformedParameter α)
    (f : α → Except MalformedParameter β) :
    (reached result >>= fun a => reached (f a)) = reached (result >>= f) := by
  cases result <;> rfl

theorem mapM_reached (f : α → Except MalformedParameter β) (items : List α) :
    items.mapM (fun a => reached (f a)) = reached (items.mapM f) := by
  induction items with
  | nil => rfl
  | cons a items ih =>
    rw [List.mapM_cons, List.mapM_cons, ih, ← reached_bind]
    congr 1
    funext b
    exact reached_bind _ fun bs => .ok (b :: bs)

end Checked

section Methods

variable (resolver : Resolver) (markers : Markers) {source : List Char} {found : Match Part}

/-! ### Parameters and return types -/

/-- The parameter that an entry of a list gives, with its type cut off and qualified. -/
def parseParam? (entry : List Char) : Checked Param :=
  match splitFirst? ':' entry with
  | none => throw ⟨String.ofList entry⟩
  | some (before, after) => do
      let name := parameterName before
      let type := cleanType (← Lexis.cutTopLevel? '=' after)
      if name.isEmpty || type.isEmpty then throw ⟨String.ofList entry⟩
      else return ⟨String.ofList name, String.ofList (← resolver.qualify? type)⟩

/-- The parameters in a list. -/
def parseParams? (block : List Char) : Checked (List Param) :=
  ((Lexis.splitTopLevel block).filter (!·.isEmpty)).mapM (parseParam? resolver)

/-- The return type behind the parameters of a method as it is written. -/
def writtenReturnType? (after : List Char) : Option (List Char) :=
  match Shape.returnType.matchAt? (Cursor.ofText after) with
  | some found => (found.cutPart? after .returnType).map cleanType
  | none => some []

/-- The qualified return type behind the parameters of a method. -/
def returnTypeOf? (after : List Char) : Option String := do
  let written ← writtenReturnType? after
  let type ← resolver.qualify? (if written.isEmpty then "Unit".toList else written)
  return String.ofList type

theorem parseParam?_eq (entry : List Char) :
    parseParam? resolver entry = reached (parseParam resolver entry) := by
  unfold parseParam? parseParam
  cases splitFirst? ':' entry with
  | none => rfl
  | some parts =>
    simp only [Lexis.cutTopLevel?_eq, resolver.qualify?_eq, lift_some_bind, stripDefault]
    exact (apply_ite reached _ _ _).symm

theorem parseParams?_eq (block : List Char) :
    parseParams? resolver block = reached (parseParams resolver block) := by
  unfold parseParams? parseParams
  rw [← mapM_reached]
  exact congrArg (List.mapM · _) (funext (parseParam?_eq resolver))

theorem writtenReturnType?_eq (after : List Char) :
    writtenReturnType? after = some (writtenReturnType after) := by
  unfold writtenReturnType? writtenReturnType
  cases hfound : Shape.returnType.matchAt? (Cursor.ofText after) with
  | none => rfl
  | some found =>
    simp only [Match.cutPart?_of_matchAt? hfound]
    rfl

theorem returnTypeOf?_eq (after : List Char) :
    returnTypeOf? resolver after = some (returnTypeOf resolver after) := by
  unfold returnTypeOf?
  rw [writtenReturnType?_eq, Option.bind_eq_bind, Option.bind_some, resolver.qualify?_eq]
  rfl

/-! ### Methods -/

/-- The method that begins with a match of its shape in a source, cut out of the source. -/
def methodAt? (source : List Char) (found : Match Part) : Checked Method := do
  let stop ← found.stop.offset? source
  let opening ← sub? stop 1
  match ← Lexis.closingParenBytes? (utf8 source) opening with
  | none => do
      let rest ← slice? source opening (byteLength source)
      throw ⟨String.ofList (trim (rest.takeWhile (· != '\n')))⟩
  | some close => do
      let parameters ← parseParams? resolver (← slice? source (opening + 1) close)
      let returnType ← returnTypeOf? resolver (← slice? source (close + 1) (byteLength source))
      let id ← found.cutPart? source .id
      let name ← found.cutPart? source .name
      return {
        id := String.ofList id
        name := String.ofList name
        parameters
        returnType
        isStreaming := markers.isStreaming returnType }

/-- The head of a method ends with a parenthesis. -/
theorem exists_opening (hfound : found ∈ Shape.method.findAll source) :
    ∃ before, source = before ++ '(' :: found.stop.rest := by
  obtain ⟨p, hwithin⟩ := Kind.method.exists_within_shape
  obtain ⟨before, s, parts, hlies, hrest, htakes, -⟩ := hwithin.exists_takes hfound
  obtain ⟨head, last, _, _, rfl, -, -, hlast⟩ := takes_seq.1 htakes
  obtain rfl : last = ['('] := hlast.of_literal
  refine ⟨before ++ head, ?_⟩
  rw [← hlies.text_eq, hrest]
  simp

/-- No cut fails while a method is read. -/
theorem methodAt?_eq (hfound : found ∈ Shape.method.findAll source) :
    methodAt? resolver markers source found = reached (methodAt resolver markers found) := by
  obtain ⟨before, hsource⟩ := exists_opening hfound
  have htext : before ++ ['('] ++ found.stop.rest = source := by
    rw [hsource, List.append_assoc]
    rfl
  have hstop : found.stop.offset? source = some (byteLength before + 1) :=
    (Cursor.offset?_eq htext).trans (congrArg some (byteLength_append before ['(']))
  have hcut := Match.cutPart?_of_mem_findAll hfound
  unfold methodAt? methodAt
  simp only [hstop, lift_some_bind, sub?_succ_one, Lexis.closingParenBytes?_eq]
  -- the search over bytes closes the parenthesis where the text is split
  cases hsplit : Lexis.splitClosing found.stop.rest with
  | none =>
    have hclosing : Lexis.closingParen? source (byteLength before) = none := by
      rw [hsource, Lexis.closingParen?_append, Lexis.closingFrom, ← Lexis.splitClosing, hsplit]
      rfl
    have hline := slice?_back before ('(' :: found.stop.rest)
    rw [← hsource] at hline
    simp only [hclosing, hline, lift_some_bind]
    rfl
  | some parts =>
    obtain ⟨block, after⟩ := parts
    obtain ⟨close, hclosing, hblock, hafter⟩ := Lexis.exists_closingParen? hsplit before
    rw [← hsource] at hclosing hblock hafter
    simp only [hclosing, hblock, hafter, lift_some_bind, parseParams?_eq, returnTypeOf?_eq, hcut]
    exact reached_bind _ _

end Methods

/-! ### The number of a method -/

/-- The number of the last member of a series that is of a class. -/
def lastIndex? {α : Type} (p : α → Bool) : List α → Option Nat
  | [] => none
  | a :: rest =>
      match lastIndex? p rest with
      | some i => some (i + 1)
      | none => if p a then some 0 else none

/-- The number of the header to which a match belongs: the last of those that begin at the offsets
`starts` and not behind the match, or the first. -/
def ownerAt? (source : List Char) (starts : List Nat) (found : Match Part) : Option Nat := do
  let start ← found.start.offset? source
  return (lastIndex? (· ≤ start) starts).getD 0

section Owners

variable {source : List Char} {found : Match Part}

theorem lastIndex?_eq_none {α : Type} {p : α → Bool} {items : List α}
    (h : ∀ a ∈ items, p a = false) : lastIndex? p items = none := by
  induction items with
  | nil => rfl
  | cons a rest ih =>
    obtain ⟨ha, hrest⟩ := List.forall_mem_cons.1 h
    rw [lastIndex?, ih hrest]
    simp [ha]

/-- Where the members of a class stand in front of all others, the last one is behind as many as
they are, less one. -/
theorem lastIndex?_eq {α : Type} {p : α → Bool} {items : List α}
    (h : items.Pairwise fun a b => p b = true → p a = true) :
    lastIndex? p items = sub? (items.takeWhile p).length 1 := by
  induction items with
  | nil => rfl
  | cons a rest ih =>
    obtain ⟨ha, hrest⟩ := List.pairwise_cons.1 h
    by_cases hp : p a = true
    · rw [lastIndex?, ih hrest, List.takeWhile_cons_of_pos hp, List.length_cons, sub?_succ_one]
      cases (rest.takeWhile p).length with
      | zero => simp [sub?, hp]
      | succ n => rw [sub?_succ_one]
    · -- where the condition fails once, it fails for all that follow
      have hnone : ∀ b ∈ a :: rest, p b = false :=
        List.forall_mem_cons.2 ⟨by simpa using hp, fun b hb => by simpa using mt (ha b hb) hp⟩
      rw [lastIndex?_eq_none hnone, List.takeWhile_cons_of_neg hp]
      rfl

theorem offset?_of_mem_findAll {pattern : Pattern Part} (h : found ∈ pattern.findAll source) :
    found.start.offset? source = some (offsetIn source found) :=
  sub?_of_le (left_le_of_mem_findAll h)

theorem takeWhile_congr {α : Type} {p q : α → Bool} {items : List α}
    (h : ∀ a ∈ items, p a = q a) : items.takeWhile p = items.takeWhile q := by
  induction items with
  | nil => rfl
  | cons a items ih =>
    obtain ⟨ha, hitems⟩ := List.forall_mem_cons.1 h
    rw [List.takeWhile_cons, List.takeWhile_cons, ha, ih hitems]

/-- The number of a method is found among the offsets of the headers. -/
theorem ownerAt?_eq (hfound : found ∈ Shape.method.findAll source) :
    ownerAt? source ((Shape.service.findAll source).map (offsetIn source)) found =
      some (ownerOf (Shape.service.findAll source) found.start) := by
  -- the headers stand in order, so those not behind the method are a front of them
  have hstarts : ((Shape.service.findAll source).map (offsetIn source)).Pairwise fun a b =>
      decide (b ≤ offsetIn source found) = true → decide (a ≤ offsetIn source found) = true := by
    refine List.pairwise_map.2 ((pairwise_offsetIn_findAll Shape.service source).imp ?_)
    intro header next hlt hle
    exact decide_eq_true (hlt.le.trans (of_decide_eq_true hle))
  -- counted from the front or from the end, the front is the same
  have hfront : (Shape.service.findAll source).takeWhile
        (fun header => decide (offsetIn source header ≤ offsetIn source found)) =
      (Shape.service.findAll source).takeWhile
        (fun header => decide (found.start.left ≤ header.start.left)) := by
    refine takeWhile_congr fun header hheader => decide_eq_decide.2 ?_
    have := left_le_of_mem_findAll hheader
    have := left_le_of_mem_findAll hfound
    unfold offsetIn
    omega
  rw [ownerAt?, offset?_of_mem_findAll hfound, Option.bind_eq_bind, Option.bind_some,
    lastIndex?_eq hstarts, getD_sub?, List.takeWhile_map, List.length_map]
  exact congrArg (fun front => some (List.length front - 1)) hfront

end Owners

/-! ### Services -/

/-- The services with one method more. -/
def addMethod? (services : List Service) (owner : Nat) (method : Method) :
    Option (List Service) := do
  let service ← services[owner]?
  return services.set owner { service with methods := service.methods ++ [method] }

section Services

variable (resolver : Resolver) (markers : Markers) (source : List Char)

/-- The offset of a header and its service, which has no methods yet. -/
def headerAt? (header : Match Part) : Option (Nat × Service) := do
  let start ← header.start.offset? source
  let route ← header.cutPart? source .route
  let name ← header.cutPart? source .name
  return (start, {
    route := String.ofList route
    package := resolver.scope.package
    interface := String.ofList name
    methods := [] })

/-- The headers of a source with their offsets and services. -/
def headersOf? : Option (List (Nat × Service)) :=
  (Shape.service.findAll source).mapM (headerAt? resolver source)

/-- The services with the method of one more match. -/
def readMethod? (starts : List Nat) (services : List Service) (found : Match Part) :
    Checked (List Service) := do
  let owner ← ownerAt? source starts found
  let method ← methodAt? resolver markers source found
  addMethod? services owner method

/-- The services of a source without comments, in order. -/
def servicesOf? : Checked (List Service) := do
  let headers ← headersOf? resolver source
  if headers.isEmpty then return []
  else
    (Shape.method.findAll source).foldlM (readMethod? resolver markers source (headers.map (·.1)))
      (headers.map (·.2))

variable {resolver markers source}

/-- The services with the methods of their numbers. -/
def withMembers (services : List Service) (methods : List (Nat × Method)) : List Service :=
  services.zipIdx.map fun (service, number) =>
    { service with methods := service.methods ++ members number methods }

theorem getElem?_withMembers (services : List Service) (methods : List (Nat × Method)) (i : Nat) :
    (withMembers services methods)[i]? = services[i]?.map fun service =>
      { service with methods := service.methods ++ members i methods } := by
  rw [withMembers, List.getElem?_map, List.getElem?_zipIdx, Option.map_map, Nat.zero_add]
  rfl

theorem withMembers_nil (services : List Service) : withMembers services [] = services := by
  refine List.ext_getElem? fun i => ?_
  rw [getElem?_withMembers]
  simp [members]

/-- A method is added to the service with its number. -/
theorem exists_addMethod? {services : List Service} {owner : Nat} (h : owner < services.length)
    (method : Method) :
    ∃ more, addMethod? services owner method = some more ∧ more.length = services.length ∧
      ∀ methods, withMembers more methods = withMembers services ((owner, method) :: methods) := by
  refine ⟨_, by rw [addMethod?, List.getElem?_eq_getElem h]; rfl, List.length_set, ?_⟩
  intro methods
  refine List.ext_getElem? fun i => ?_
  rw [getElem?_withMembers, getElem?_withMembers, List.getElem?_set]
  by_cases hi : owner = i
  · subst hi
    simp [h, members]
  · simp [hi, members]

/-- The method of a match with its number. -/
def numberedAt (resolver : Resolver) (markers : Markers) (source : List Char)
    (found : Match Part) : Except MalformedParameter (Nat × Method) := do
  return (ownerOf (Shape.service.findAll source) found.start, ← methodAt resolver markers found)

/-- Services get the methods of a series of matches one by one, up to the first that is malformed.
As there is a service for every header, each method has one. -/
theorem foldlM_readMethod? (hne : Shape.service.findAll source ≠ []) {found : List (Match Part)}
    (hfound : ∀ method ∈ found, method ∈ Shape.method.findAll source) {services : List Service}
    (hlength : services.length = (Shape.service.findAll source).length) :
    found.foldlM (readMethod? resolver markers source
        ((Shape.service.findAll source).map (offsetIn source))) services =
      reached (withMembers services <$> found.mapM (numberedAt resolver markers source)) := by
  induction found generalizing services with
  | nil => rw [List.foldlM_nil, List.mapM_nil, map_pure, withMembers_nil]; rfl
  | cons next found ih =>
    obtain ⟨hnext, hfound⟩ := List.forall_mem_cons.1 hfound
    have howner := hlength ▸ ownerOf_lt hne next.start
    rw [List.foldlM_cons, List.mapM_cons, readMethod?, ownerAt?_eq hnext, lift_some_bind,
      methodAt?_eq resolver markers hnext, numberedAt]
    -- the first fault ends both runs; otherwise the method is added and the others follow
    cases methodAt resolver markers next with
    | error fault => rfl
    | ok method =>
      obtain ⟨more, hadd, hmore, hmembers⟩ := exists_addMethod? howner method
      have hrest := ih hfound (hmore.trans hlength)
      show (liftM (addMethod? services (ownerOf (Shape.service.findAll source) next.start)
        method) : Checked _) >>= _ = _
      rw [hadd, lift_some_bind, hrest]
      cases found.mapM (numberedAt resolver markers source) with
      | error fault => rfl
      | ok methods => exact congrArg (fun services => reached (.ok services)) (hmembers methods)

/-- **Nothing fails while services are read.** -/
theorem servicesOf?_eq (resolver : Resolver) (markers : Markers) (source : List Char) :
    servicesOf? resolver markers source = reached (servicesOf resolver markers source) := by
  have hheaders : headersOf? resolver source = some ((Shape.service.findAll source).map
      fun header => (offsetIn source header, serviceAt resolver header [])) := by
    refine mapM_eq_some fun header hheader => ?_
    rw [headerAt?, offset?_of_mem_findAll hheader]
    simp only [Match.cutPart?_of_mem_findAll hheader]
    rfl
  rw [servicesOf?, hheaders, lift_some_bind, servicesOf]
  -- without a header there is nothing that a method could be added to
  by_cases hne : Shape.service.findAll source = []
  · rw [hne]
    rfl
  · have hservices := @foldlM_readMethod? resolver markers source hne _ (fun _ => id)
      ((Shape.service.findAll source).map (serviceAt resolver · [])) (List.length_map _)
    have hmembers (methods : List (Nat × Method)) :
        withMembers ((Shape.service.findAll source).map (serviceAt resolver · [])) methods =
          (Shape.service.findAll source).zipIdx.map fun header =>
            serviceAt resolver header.1 (members header.2 methods) := by
      rw [withMembers, List.zipIdx_map, List.map_map]
      rfl
    rw [funext hmembers] at hservices
    rw [if_neg (by simpa using hne), if_neg (by simpa using hne), List.map_map, List.map_map]
    exact hservices.trans (congrArg reached (map_eq_pure_bind _ _))

end Services

end RpcBinder.Declaration
