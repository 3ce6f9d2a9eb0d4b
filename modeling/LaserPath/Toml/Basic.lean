/-!
# TOML values

Tables are built up by headers and dotted keys. How a table came about decides
what may still be added to it, so every table remembers it.

## Main definitions

* `Toml` — a value.
* `Toml.Entries.descend` — changes the table at the end of a path.
* `Toml.Entries.addPair`, `Toml.Entries.openTable`, `Toml.Entries.openItem` —
  what a line of a document does to the tables.
-/

namespace LaserPath

/-- How a table came about. -/
inductive Toml.Origin where
  /-- By its own header; the table of a document counts as such. -/
  | header
  /-- As a part of the path of a header. -/
  | implied
  /-- As a part of a dotted key. -/
  | dotted
  /-- As a value between braces. -/
  | inlineValue
  deriving DecidableEq, Repr

/-- A TOML value. -/
inductive Toml where
  | string (s : String)
  | integer (n : Int)
  | float (x : Float)
  | bool (b : Bool)
  /-- A date, a time or both. -/
  | dateTime
  | array (items : List Toml)
  | table (origin : Toml.Origin) (entries : List (String × Toml))
  /-- The tables of headers in double brackets. -/
  | tables (items : List (List (String × Toml)))

namespace Toml

/-- The entries of a table, each key once. -/
abbrev Entries := List (String × Toml)

namespace Entries

/-- The entries with a value in place of that of a key, or behind all others. -/
def put (entries : Entries) (key : String) (value : Toml) : Entries :=
  match entries with
  | [] => [(key, value)]
  | (k, v) :: rest => if k = key then (key, value) :: rest else (k, v) :: put rest key value

/-- Changes the table at the end of a path of keys. Tables on the way that are
missing come about with the origin `made`. A path ends at a value that is no
table, and a dotted key also at a table with a header of its own. In a list of
tables the last one is meant. -/
def descend (made : Origin) (path : List String)
    (change : Origin → Entries → Option Entries) (origin : Origin) (entries : Entries) :
    Option Entries :=
  match path with
  | [] => change origin entries
  | key :: path =>
    match entries.lookup key with
    | none => (descend made path change made []).map fun inner =>
        entries.put key (.table made inner)
    | some (.table kind inner) =>
      if kind = .inlineValue ∨ (made = .dotted ∧ kind = .header) then none
      else (descend made path change kind inner).map fun inner =>
        entries.put key (.table kind inner)
    | some (.tables items) =>
      match items.getLast? with
      | some last => (descend made path change .header last).map fun last =>
          entries.put key (.tables (items.dropLast ++ [last]))
      | none => none
    | some _ => none

/-- Adds a key that is not there yet. -/
def add (key : String) (value : Toml) (entries : Entries) : Option Entries :=
  if (entries.lookup key).isSome then none else some (entries.put key value)

/-- Adds a pair with a dotted key to a table. The table in which the last part
of the key lies must have come about by dotted keys, if the key has dots, and
otherwise must not. -/
def addPair (path : List String) (key : String) (value : Toml) (origin : Origin)
    (entries : Entries) : Option Entries :=
  entries.descend .dotted path (fun kind inner =>
    if (kind = .dotted) = (path = []) then none else inner.add key value) origin

/-- Opens the table of a header. It must not be there yet, but for a table that
other headers imply. -/
def openTable (path : List String) (key : String) (entries : Entries) : Option Entries :=
  entries.descend .implied path (fun _ inner =>
    match inner.lookup key with
    | none => some (inner.put key (.table .header []))
    | some (.table .implied innermost) => some (inner.put key (.table .header innermost))
    | some _ => none) .header

/-- Opens one more table of a header in double brackets. -/
def openItem (path : List String) (key : String) (entries : Entries) : Option Entries :=
  entries.descend .implied path (fun _ inner =>
    match inner.lookup key with
    | none => some (inner.put key (.tables [[]]))
    | some (.tables items) => some (inner.put key (.tables (items ++ [[]])))
    | some _ => none) .header

end Entries

end Toml

end LaserPath
