import LaserPath.Json.Printer
import LaserPath.Json.Reader
import LaserPath.Json.Record
import LaserPath.Settings

/-!
# Settings in JSON

A configuration has a section for the laser and one for the output. Everything
that is not written has its default.

## Main definitions

* `Config.ofJson?`, `Config.toJson` — a configuration as a value.
* `Config.readJson?`, `Config.jsonText` — a configuration as a text.
-/

namespace LaserPath

namespace LaserSettings

/-- The fields of the laser section. -/
def layout : Json.Layout := ⟨["feed_rate", "rapid_feed_rate", "laser_power"], true⟩

/-- The laser section. -/
def ofJson? (json : Json) : Option LaserSettings := do
  let fields ← json.fields? layout
  let default : LaserSettings := {}
  return {
    feedRate := ← fields.optional? "feed_rate" Json.float? default.feedRate
    rapidFeedRate := ← fields.optional? "rapid_feed_rate" Json.float? default.rapidFeedRate
    power := ← fields.optional? "laser_power" Json.float? default.power }

/-- The laser section as an object. -/
def toJson (s : LaserSettings) : Json :=
  .object [("feed_rate", .ofFloat s.feedRate), ("rapid_feed_rate", .ofFloat s.rapidFeedRate),
    ("laser_power", .ofFloat s.power)]

end LaserSettings

namespace OutputSettings

/-- The fields of the output section. -/
def layout : Json.Layout := ⟨["optimize_travel", "start_x", "start_y", "inline_laser"], true⟩

/-- The output section. -/
def ofJson? (json : Json) : Option OutputSettings := do
  let fields ← json.fields? layout
  let default : OutputSettings := {}
  return {
    optimizeTravel := ← fields.optional? "optimize_travel" Json.bool? default.optimizeTravel
    startX := ← fields.optional? "start_x" Json.float? default.startX
    startY := ← fields.optional? "start_y" Json.float? default.startY
    inlineLaser := ← fields.optional? "inline_laser" Json.bool? default.inlineLaser }

/-- The output section as an object. -/
def toJson (s : OutputSettings) : Json :=
  .object [("optimize_travel", .bool s.optimizeTravel), ("start_x", .ofFloat s.startX),
    ("start_y", .ofFloat s.startY), ("inline_laser", .bool s.inlineLaser)]

end OutputSettings

namespace Config

/-- The sections of a configuration. -/
def layout : Json.Layout := ⟨["laser", "output"], true⟩

/-- A configuration. -/
def ofJson? (json : Json) : Option Config := do
  let fields ← json.fields? layout
  return {
    laser := ← fields.optional? "laser" LaserSettings.ofJson? {}
    output := ← fields.optional? "output" OutputSettings.ofJson? {} }

/-- A configuration as an object. -/
def toJson (c : Config) : Json :=
  .object [("laser", c.laser.toJson), ("output", c.output.toJson)]

/-- The configuration of a JSON text. -/
def readJson? (text : String) : Option Config :=
  match Json.read .record text with
  | .ok json => ofJson? json
  | .error _ => none

/-- The JSON text of a configuration. -/
def jsonText (c : Config) : String := c.toJson.pretty

end Config

end LaserPath
