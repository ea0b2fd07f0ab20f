import Mathlib.Data.List.Nodup
import RpcBinder.Json.Model
import RpcBinder.Project
import RpcBinder.Proofs.Json.Reading

/-!
# Models and their texts

A record is written with its fields in order, each under its name, and read by the same names, so
every model is read back from its text.  A file that holds the text of settings has these settings
if they pass the check.

## Main definitions

* `RoundTrips` — a model that is read back from its text.

## Main results

* `Json.fields?_zip` — the fields of a record are found under their names.
* `Service.ofJson?_toJson` and its like — each model is the one that its value describes.
* `models_round_trip` — **every model is read back from its text, and settings from a file.**
-/

namespace RpcBinder

namespace Json

/-- Texts of things that can be read are read one by one. -/
theorem mapM_map_eq_some {α β : Type} {f : α → β} {g : β → Option α}
    (h : ∀ a, g (f a) = some a) (as : List α) : (as.map f).mapM g = some as := by
  induction as with
  | nil => rfl
  | cons a as ih =>
    rw [List.map_cons, List.mapM_cons, h, ih]
    rfl

/-! ### Records -/

section Records

variable {members : List (String × Json)} (h : (members.map Prod.fst).Nodup)

include h

/-- A field stands in a record at most once. -/
theorem length_filter_le_one (name : String) : (members.filter (·.1 == name)).length ≤ 1 := by
  have hcount : members.countP (·.1 == name) = (members.map Prod.fst).count name := by
    rw [List.count, List.countP_map]
    rfl
  rw [← List.countP_eq_length_filter, hcount]
  exact List.nodup_iff_count_le_one.1 h name

theorem map_lookup : (members.map Prod.fst).map (members.lookup ·) = members.map (some ·.2) := by
  induction members with
  | nil => rfl
  | cons member members ih =>
    obtain ⟨key, value⟩ := member
    obtain ⟨hnew, hnames⟩ := List.nodup_cons.1 h
    -- a later name is not the first one, so it is not found there
    have hlater (name : String) (hname : name ∈ members.map Prod.fst) :
        ((key, value) :: members).lookup name = members.lookup name := by
      have hne : (name == key) = false := by
        rw [beq_eq_false_iff_ne]
        rintro rfl
        exact hnew hname
      rw [List.lookup_cons, hne]
    rw [List.map_cons, List.map_cons, List.map_congr_left hlater, ih hnames, List.map_cons,
      List.lookup_cons_self]

/-- The fields of an object are looked up by name, in the order in which they are asked for. -/
theorem fields?_eq_map_lookup (names : List String) :
    fields? names (ofMembers members) = some (names.map (members.lookup ·)) := by
  have honce : (names.all fun name => (members.filter (·.1 == name)).length ≤ 1) = true := by
    simp [length_filter_le_one h]
  rw [ofMembers, fields?, mapM_map_eq_some]
  · simp only [Option.bind_eq_bind, Option.bind_some, honce, if_true]
    rfl
  · rintro ⟨key, value⟩
    rfl

theorem fields?_ofMembers :
    fields? (members.map Prod.fst) (ofMembers members) = some (members.map (some ·.2)) := by
  rw [fields?_eq_map_lookup h, map_lookup h]

end Records

/-- The fields of a record are found under their names, in order. -/
theorem fields?_zip {names : List String} (hnames : names.Nodup) (values : List Json)
    (hlength : names.length = values.length) :
    fields? names (ofMembers (names.zip values)) = some (values.map some) := by
  have hfst : (names.zip values).map Prod.fst = names := List.map_fst_zip (by omega)
  have hsnd : (names.zip values).map Prod.snd = values := List.map_snd_zip (by omega)
  have hsome : (names.zip values).map (some ·.2) = values.map some :=
    calc (names.zip values).map (some ·.2)
        = ((names.zip values).map Prod.snd).map some := List.map_map.symm
      _ = values.map some := by rw [hsnd]
  have hfields := fields?_ofMembers (hfst.symm ▸ hnames)
  rwa [hfst, hsome] at hfields

/-! ### Parts of records -/

theorem asList?_map {α : Type} {toJson : α → Json} {ofJson? : Json → Option α}
    (h : ∀ a, ofJson? (toJson a) = some a) (as : List α) :
    asList? ofJson? (.array (as.map toJson)) = some as :=
  mapM_map_eq_some h as

theorem asList?_strings (texts : List String) : asList? asString? (strings texts) = some texts :=
  mapM_map_eq_some (f := string) (fun _ => rfl) texts

theorem optionalString_string? (text? : Option String) :
    optionalString (some (string? text?)) = some text? := by
  cases text? <;> rfl

theorem numberFree_ofMembers {members : List (String × Json)}
    (h : ∀ member ∈ members, member.2.NumberFree) : (ofMembers members).NumberFree := by
  refine .object fun member hmember => ?_
  obtain ⟨member, hmem, rfl⟩ := List.mem_map.1 hmember
  exact h member hmem

theorem numberFree_map {α : Type} {toJson : α → Json} (h : ∀ a, (toJson a).NumberFree)
    (as : List α) : NumberFree (.array (as.map toJson)) := by
  refine .array fun item hitem => ?_
  obtain ⟨a, -, rfl⟩ := List.mem_map.1 hitem
  exact h a

theorem numberFree_string (text : String) : (string text).NumberFree := .literal _

theorem numberFree_string? (text? : Option String) : (string? text?).NumberFree := by
  cases text? with
  | none => exact .null
  | some text => exact numberFree_string text

theorem numberFree_strings (texts : List String) : (strings texts).NumberFree :=
  numberFree_map numberFree_string texts

end Json

open Json

/-! ### Models -/

/-- A model is read back from its text. -/
def RoundTrips {α : Type} (toJson : α → Json) (ofJson? : Json → Option α) : Prop :=
  ∀ a, (parse? (toJson a).pretty).bind ofJson? = some a

theorem roundTrips {α : Type} {toJson : α → Json} {ofJson? : Json → Option α}
    (hfree : ∀ a, (toJson a).NumberFree) (h : ∀ a, ofJson? (toJson a) = some a) :
    RoundTrips toJson ofJson? := by
  intro a
  rw [parse?_pretty (hfree a)]
  exact h a

theorem Param.ofJson?_toJson (param : Param) : ofJson? param.toJson = some param := by
  have hfields : param.toJson.fields? ["name", "type"] = _ :=
    fields?_zip (by decide) [string param.name, string param.type] rfl
  rw [ofJson?, hfields]
  rfl

theorem Param.numberFree (param : Param) : param.toJson.NumberFree := by
  refine numberFree_ofMembers ?_
  simp [numberFree_string]

theorem Method.ofJson?_toJson (method : Method) : ofJson? method.toJson = some method := by
  have hfields : method.toJson.fields?
      ["rpcMethodId", "methodName", "parameters", "returnType", "isStreaming"] = _ :=
    fields?_zip (by decide) [string method.id, string method.name,
      .array (method.parameters.map Param.toJson), string method.returnType,
      .bool method.isStreaming] rfl
  have hparameters := asList?_map Param.ofJson?_toJson method.parameters
  rw [ofJson?, hfields]
  simp [required, asString?, asBool?, string, hparameters]

theorem Method.numberFree (method : Method) : method.toJson.NumberFree := by
  refine numberFree_ofMembers ?_
  simp [numberFree_string, numberFree_map Param.numberFree, NumberFree.bool]

theorem Service.ofJson?_toJson (service : Service) : ofJson? service.toJson = some service := by
  have hfields : service.toJson.fields? ["serviceName", "packageName", "interfaceName", "methods"] =
      _ :=
    fields?_zip (by decide) [string service.route, string service.package,
      string service.interface, .array (service.methods.map Method.toJson)] rfl
  have hmethods := asList?_map Method.ofJson?_toJson service.methods
  rw [ofJson?, hfields]
  simp [required, asString?, string, hmethods]

theorem Service.numberFree (service : Service) : service.toJson.NumberFree := by
  refine numberFree_ofMembers ?_
  simp [numberFree_string, numberFree_map Method.numberFree]

theorem Anchor.ofJson?_toJson (anchor : Anchor) : ofJson? anchor.toJson = some anchor := by
  have hfields : anchor.toJson.fields? ["packageName", "abstractClassName", "interfaceFqn",
      "explicitServiceName", "generateFactory"] = _ :=
    fields?_zip (by decide) [string anchor.package, string anchor.className,
      string anchor.interfaceFqn, string? anchor.routeOverride, .bool anchor.generateFactory] rfl
  rw [ofJson?, hfields]
  simp [required, asString?, asBool?, string, optionalString_string?]

theorem Anchor.numberFree (anchor : Anchor) : anchor.toJson.NumberFree := by
  refine numberFree_ofMembers ?_
  simp [numberFree_string, numberFree_string?, NumberFree.bool]

theorem Side.ofJson?_toJson (side : Side) : ofJson? side.toJson = some side := by
  cases side <;> rfl

theorem Marker.ofJson?_toJson (marker : Marker) : ofJson? marker.toJson = some marker := by
  have hfields : marker.toJson.fields? ["simpleName", "fqn", "streaming"] = _ :=
    fields?_zip (by decide) [string marker.simpleName, string marker.fqn,
      .bool marker.streaming] rfl
  rw [ofJson?, hfields]
  rfl

theorem Marker.numberFree (marker : Marker) : marker.toJson.NumberFree := by
  refine numberFree_ofMembers ?_
  simp [numberFree_string, NumberFree.bool]

theorem Config.ofJson?_toJson (config : Config) : ofJson? config.toJson = some config := by
  have hfields : config.toJson.fields? fieldNames = _ :=
    fields?_zip (by decide) [string config.apiRoot.text, string config.clientRoot.text,
      string config.serverRoot.text, string config.outputDir.text, .bool config.obfuscated,
      .bool config.generateClient, .bool config.generateServer, .bool config.debugInfo,
      strings config.includePackages, strings config.excludePackages,
      strings config.sourceExtensions] rfl
  rw [ofJson?, hfields]
  simp [withDefault, pathOf?, asString?, asBool?, string, asList?_strings]

theorem Config.numberFree (config : Config) : config.toJson.NumberFree := by
  refine numberFree_ofMembers ?_
  simp [fieldNames, numberFree_string, numberFree_strings, NumberFree.bool]

/-- A file with the text of settings is read by the rules for settings. -/
theorem Config.load_eq_of_entryAt {tree : FileTree} {path : Path} {config : Config}
    (h : tree.entryAt path = .ok (.text config.toJson.pretty)) :
    Config.load tree path = match config.validate with
      | .ok () => .ok config
      | .error fault => .error (.config fault) := by
  have htext : tree.readText path = .ok config.toJson.pretty := by
    rw [FileTree.readText, h]
    rfl
  have hparse : (parse? config.toJson.pretty).bind ofJson? = some config :=
    roundTrips numberFree ofJson?_toJson config
  cases hvalid : config.validate with
  | ok valid => simp only [load, htext, parse, hparse, hvalid]
  | error fault => simp only [load, htext, parse, hparse, hvalid]

/-- **Every model is read back from its text**, and settings from a file with their text, if they
pass the check.  Anchors of both sides have the same record. -/
theorem models_round_trip :
    RoundTrips Service.toJson Service.ofJson? ∧ RoundTrips Method.toJson Method.ofJson? ∧
    RoundTrips Param.toJson Param.ofJson? ∧ RoundTrips Anchor.toJson Anchor.ofJson? ∧
    RoundTrips Side.toJson Side.ofJson? ∧ RoundTrips Marker.toJson Marker.ofJson? ∧
    RoundTrips Markers.toJson Markers.ofJson? ∧ RoundTrips Config.toJson Config.ofJson? ∧
    ∀ (tree : FileTree) (path : Path) (config : Config),
      tree.entryAt path = .ok (.text config.toJson.pretty) →
        Config.load tree path = match config.validate with
          | .ok () => .ok config
          | .error fault => .error (.config fault) := by
  refine ⟨roundTrips Service.numberFree Service.ofJson?_toJson,
    roundTrips Method.numberFree Method.ofJson?_toJson,
    roundTrips Param.numberFree Param.ofJson?_toJson,
    roundTrips Anchor.numberFree Anchor.ofJson?_toJson,
    roundTrips (fun side => numberFree_string side.word) Side.ofJson?_toJson,
    roundTrips Marker.numberFree Marker.ofJson?_toJson,
    roundTrips (numberFree_map Marker.numberFree) (asList?_map Marker.ofJson?_toJson),
    roundTrips Config.numberFree Config.ofJson?_toJson, ?_⟩
  intro tree path config h
  exact Config.load_eq_of_entryAt h

/-- Settings with marks that are not written as they are, and with a blank filter. -/
def awkwardConfig : Config :=
  { includePackages := ["a\"\n\\", " "] }

theorem models_round_trip_example :
    let tree : FileTree := ⟨[(["rpc.json"], .text awkwardConfig.toJson.pretty)], []⟩
    tree.entryAt ⟨"rpc.json"⟩ = .ok (.text awkwardConfig.toJson.pretty) ∧
      Config.load tree ⟨"rpc.json"⟩ = .error (.config (.blankFilter " ")) := by
  intro tree
  have hentry : tree.entryAt ⟨"rpc.json"⟩ = .ok (.text awkwardConfig.toJson.pretty) := rfl
  obtain ⟨-, -, -, -, -, -, -, -, hload⟩ := models_round_trip
  have hconfig := hload tree ⟨"rpc.json"⟩ awkwardConfig hentry
  exact ⟨hentry, hconfig⟩

end RpcBinder
