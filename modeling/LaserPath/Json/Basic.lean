import LaserPath.Decimal.Basic

/-!
# JSON values

A JSON value keeps whole numbers of up to 64 bits apart from all other numbers,
which are doubles. Members of an object stay in the order of the text.

## Main definitions

* `Json` — a value.
* `Json.ofFloat` — a number.
* `Json.float?`, `Json.natBelow?`, … — a value as something of a given type, if
  it is of that type.
-/

namespace LaserPath

/-- A JSON value. -/
inductive Json where
  | null
  | bool (b : Bool)
  /-- A whole number of up to 64 bits, with a sign or without. -/
  | integer (n : Int)
  /-- Any other number. -/
  | real (x : Float)
  | string (s : String)
  | array (items : List Json)
  | object (members : List (String × Json))
  /-- A number out of range, a string with half of a surrogate pair, or an
  object with such a key. It may be passed over but is of no type. -/
  | broken

namespace Json

/-- Does a whole number have at most 64 bits, with a sign or without? -/
def fitsWord (n : Int) : Bool := -(twoTo 63 : Int) ≤ n && n < twoTo 64

/-- A double as a value; one that is not finite is null. -/
def ofFloat (x : Float) : Json := if x.isFinite then .real x else .null

/-- A number as a double. -/
def float? : Json → Option Float
  | .integer n => some (Decimal.ofInt n).toFloat
  | .real x => some x
  | _ => none

/-- A natural below `limit`. -/
def natBelow? (limit : Nat) : Json → Option Nat
  | .integer n => if 0 ≤ n ∧ n < limit then some n.toNat else none
  | _ => none

/-- A truth value. -/
def bool? : Json → Option Bool
  | .bool b => some b
  | _ => none

/-- A text. -/
def string? : Json → Option String
  | .string s => some s
  | _ => none

/-- A list of values that are all of one type. -/
def list? {α : Type} (item? : Json → Option α) : Json → Option (List α)
  | .array items => items.mapM item?
  | _ => none

/-- A value of a type, or null. -/
def orNull? {α : Type} (value? : Json → Option α) : Json → Option (Option α)
  | .null => some none
  | value => (value? value).map some

end Json

end LaserPath
