import LaserPath.Settings
import LaserPath.Toml.Reader

/-!
# Settings in TOML

A configuration is a document with a table for the laser and one for the
output. Everything that is not written has its default, and keys that name no
setting are passed over. A section may also be an array of its settings in
their order.

## Main definitions

* `Config.readToml?`, `Config.tomlText` — a configuration as a text.
-/

namespace LaserPath

namespace Toml

/-- The values of a section under the names of its fields, unless the value
cannot be a section. An array gives its values in the order of the fields, and
a date has none of them. -/
def section? (names : List String) : Toml → Option Entries
  | .table _ entries => some entries
  | .array items => some (names.zip items)
  | .tables items => some (names.zip (items.map (.table .header)))
  | .dateTime => some []
  | _ => none

/-- A whole number or one with a point as a double. -/
def number? : Toml → Option Float
  | .integer n => some (Decimal.ofInt n).toFloat
  | .float x => some x
  | _ => none

/-- A truth value. -/
def bool? : Toml → Option Bool
  | .bool b => some b
  | _ => none

/-- The value of a key, or a default if it is not there. -/
def Entries.valueOr? {α : Type} (entries : Entries) (key : String) (value? : Toml → Option α)
    (default : α) : Option α :=
  match entries.lookup key with
  | some value => value? value
  | none => some default

/-- The line of a pair. -/
def pairLine (key value : String) : String := key ++ " = " ++ value ++ "\n"

/-- The line of a pair with a number. A whole number ends in `.0`. -/
def numberLine (key : String) (x : Float) : String := pairLine key (spellShortest .pointed x)

/-- The line of a pair with a truth value. -/
def boolLine (key : String) (b : Bool) : String := pairLine key (if b then "true" else "false")

end Toml

namespace LaserSettings

/-- The laser section. -/
def ofToml? (value : Toml) : Option LaserSettings := do
  let entries ← value.section? ["feed_rate", "rapid_feed_rate", "laser_power"]
  let default : LaserSettings := {}
  return {
    feedRate := ← entries.valueOr? "feed_rate" Toml.number? default.feedRate
    rapidFeedRate := ← entries.valueOr? "rapid_feed_rate" Toml.number? default.rapidFeedRate
    power := ← entries.valueOr? "laser_power" Toml.number? default.power }

/-- The lines of the laser section. -/
def tomlLines (s : LaserSettings) : String :=
  Toml.numberLine "feed_rate" s.feedRate ++
    Toml.numberLine "rapid_feed_rate" s.rapidFeedRate ++
    Toml.numberLine "laser_power" s.power

end LaserSettings

namespace OutputSettings

/-- The output section. -/
def ofToml? (value : Toml) : Option OutputSettings := do
  let entries ← value.section? ["optimize_travel", "start_x", "start_y", "inline_laser"]
  let default : OutputSettings := {}
  return {
    optimizeTravel := ← entries.valueOr? "optimize_travel" Toml.bool? default.optimizeTravel
    startX := ← entries.valueOr? "start_x" Toml.number? default.startX
    startY := ← entries.valueOr? "start_y" Toml.number? default.startY
    inlineLaser := ← entries.valueOr? "inline_laser" Toml.bool? default.inlineLaser }

/-- The lines of the output section. -/
def tomlLines (s : OutputSettings) : String :=
  Toml.boolLine "optimize_travel" s.optimizeTravel ++
    Toml.numberLine "start_x" s.startX ++
    Toml.numberLine "start_y" s.startY ++
    Toml.boolLine "inline_laser" s.inlineLaser

end OutputSettings

namespace Config

/-- A configuration. -/
def ofToml? (entries : Toml.Entries) : Option Config := do
  return {
    laser := ← entries.valueOr? "laser" LaserSettings.ofToml? {}
    output := ← entries.valueOr? "output" OutputSettings.ofToml? {} }

/-- The configuration of a TOML text. -/
def readToml? (text : String) : Option Config := (Toml.read? text).bind ofToml?

/-- The TOML text of a configuration. -/
def tomlText (c : Config) : String :=
  "[laser]\n" ++ c.laser.tomlLines ++ "\n[output]\n" ++ c.output.tomlLines

end Config

end LaserPath
