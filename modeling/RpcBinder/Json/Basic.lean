/-!
# JSON values

## Main definitions

* `Json` — the values, with the members of an object in order and repeated keys kept.
* `Json.string`, `Json.asString?` and their like — plain values.
* `Json.fields?` — the fields of a record.
-/

namespace RpcBinder

/-- A JSON value.  A string literal may hold the escape of half a surrogate pair; such a
literal is well formed but stands for no text. -/
inductive Json
  /-- The null value. -/
  | null
  /-- A truth value. -/
  | bool (value : Bool)
  /-- A number, as it is written. -/
  | number (digits : List Char)
  /-- A string literal with its text, if it has one. -/
  | literal (text? : Option String)
  /-- An array. -/
  | array (items : List Json)
  /-- An object: the literals of its keys, with their values. -/
  | object (members : List (Option String × Json))
  deriving Repr, Inhabited

namespace Json

/-- A string value. -/
def string (text : String) : Json :=
  .literal (some text)

/-- An array of strings. -/
def strings (texts : List String) : Json :=
  .array (texts.map string)

/-- A string, or null for none. -/
def string? : Option String → Json
  | some text => string text
  | none => .null

/-- An object with the given members. -/
def ofMembers (members : List (String × Json)) : Json :=
  .object (members.map fun (key, value) => (some key, value))

/-- The text of a string value. -/
def asString? : Json → Option String
  | .literal text? => text?
  | _ => none

/-- The truth value of a Boolean. -/
def asBool? : Json → Option Bool
  | .bool value => some value
  | _ => none

/-- The values of an array, each read by `item?`. -/
def asList? {α : Type} (item? : Json → Option α) : Json → Option (List α)
  | .array items => items.mapM item?
  | _ => none

/-- The fields of a record that declares `names` in this order.  In an object a field is found
by its name, may be missing and may not be repeated, and other members do not matter.  In an
array the fields stand in their order and the last ones may be missing. -/
def fields? (names : List String) : Json → Option (List (Option Json))
  | .object members => do
      let members ← members.mapM fun (key?, value) => key?.map (·, value)
      if names.all fun name => (members.filter (·.1 == name)).length ≤ 1 then
        return names.map fun name => members.lookup name
      else none
  | .array items =>
      if items.length ≤ names.length then
        some (items.map some ++ List.replicate (names.length - items.length) none)
      else none
  | _ => none

/-- The value of a field that may not be missing. -/
def required {α : Type} (field? : Option Json) (value? : Json → Option α) : Option α :=
  field?.bind value?

/-- The value of a field that has a default. -/
def withDefault {α : Type} (default : α) (field? : Option Json) (value? : Json → Option α) :
    Option α :=
  match field? with
  | some field => value? field
  | none => some default

/-- The text of a field that may be missing or null. -/
def optionalString (field? : Option Json) : Option (Option String) :=
  match field? with
  | none => some none
  | some .null => some none
  | some field => field.asString?.map some

end Json

end RpcBinder
