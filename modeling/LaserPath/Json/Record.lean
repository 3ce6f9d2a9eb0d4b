import LaserPath.Json.Basic

/-!
# Records in JSON

A record is written as an object, or as an array of its fields in a fixed
order. Members of an object that are not fields are passed over, and a field
that is written twice is refused.

## Main definitions

* `Json.Layout` — the fields of a record in their order.
* `Json.fields?` — the fields of a record that are written.
* `Json.Fields.required?`, `Json.Fields.optional?` — one field.
-/

namespace LaserPath.Json

/-- The fields of a record. -/
structure Layout where
  /-- The names of the fields in the order of the array form. -/
  names : List String
  /-- May fields be missing at the end of the array form? -/
  mayStopEarly : Bool
  deriving DecidableEq, Repr

/-- The fields of a record that are written, each under its name. -/
abbrev Fields := List (String × Json)

/-- The fields of a record that are written, unless the value cannot be such a record. -/
def fields? (layout : Layout) : Json → Option Fields
  | .object members =>
    let known := members.filter fun m => layout.names.contains m.1
    if (known.map Prod.fst).Nodup then some known else none
  | .array items =>
    if items.length = layout.names.length ∨
        (layout.mayStopEarly ∧ items.length ≤ layout.names.length) then
      some (layout.names.zip items)
    else none
  | _ => none

namespace Fields

/-- A field that has to be written. -/
def required? {α : Type} (fields : Fields) (name : String) (value? : Json → Option α) :
    Option α :=
  (fields.lookup name).bind value?

/-- A field with a default for when it is not written. -/
def optional? {α : Type} (fields : Fields) (name : String) (value? : Json → Option α)
    (default : α) : Option α :=
  match fields.lookup name with
  | some json => value? json
  | none => some default

end Fields

end LaserPath.Json
