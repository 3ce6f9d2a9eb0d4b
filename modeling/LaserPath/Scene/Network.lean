import LaserPath.Json.Printer
import LaserPath.Json.Reader
import LaserPath.Json.Record
import LaserPath.Shape.Basic

/-!
# Points, boxes and networks in JSON

How the parts of a node are written in a scene.

## Main definitions

* `Point.ofJson?`, `Bounds.ofJson?`, `Network.ofJson?` — reading.
* `Point.toJson`, `Network.toJson` — writing.
* `Network.readJson?`, `Network.jsonText` — a network as a text of its own.
-/

namespace LaserPath

/-- Indices and counts are below this limit. -/
def indexLimit : Nat := twoTo 64

namespace Point

/-- The fields of a point. -/
def layout : Json.Layout := ⟨["x", "y"], false⟩

/-- A point. -/
def ofJson? (json : Json) : Option Point := do
  let fields ← json.fields? layout
  return ⟨← fields.required? "x" Json.float?, ← fields.required? "y" Json.float?⟩

/-- A point as an object. -/
def toJson (p : Point) : Json := .object [("x", .ofFloat p.x), ("y", .ofFloat p.y)]

end Point

namespace Bounds

/-- The fields of a box. -/
def layout : Json.Layout := ⟨["x", "y", "width", "height"], false⟩

/-- A box. -/
def ofJson? (json : Json) : Option Bounds := do
  let fields ← json.fields? layout
  return {
    x := ← fields.required? "x" Json.float?
    y := ← fields.required? "y" Json.float?
    width := ← fields.required? "width" Json.float?
    height := ← fields.required? "height" Json.float? }

end Bounds

namespace Network

namespace Segment

/-- The fields of a segment. -/
def layout : Json.Layout := ⟨["start", "end", "tangentStart", "tangentEnd"], false⟩

/-- A segment. A tangent that is null or not written is none. -/
def ofJson? (json : Json) : Option Segment := do
  let fields ← json.fields? layout
  return {
    start := ← fields.required? "start" (Json.natBelow? indexLimit)
    finish := ← fields.required? "end" (Json.natBelow? indexLimit)
    startTangent? := ← fields.optional? "tangentStart" (Json.orNull? Point.ofJson?) none
    finishTangent? := ← fields.optional? "tangentEnd" (Json.orNull? Point.ofJson?) none }

/-- A segment as an object; a tangent that there is not is null. -/
def toJson (s : Segment) : Json :=
  .object [("start", .integer s.start), ("end", .integer s.finish),
    ("tangentStart", s.startTangent?.elim .null Point.toJson),
    ("tangentEnd", s.finishTangent?.elim .null Point.toJson)]

end Segment

/-- The fields of a network. -/
def layout : Json.Layout := ⟨["vertices", "segments"], true⟩

/-- A network; a list that is not written is empty. -/
def ofJson? (json : Json) : Option Network := do
  let fields ← json.fields? layout
  return {
    vertices := ← fields.optional? "vertices" (Json.list? Point.ofJson?) []
    segments := ← fields.optional? "segments" (Json.list? Segment.ofJson?) [] }

/-- A network as an object. -/
def toJson (n : Network) : Json :=
  .object [("vertices", .array (n.vertices.map Point.toJson)),
    ("segments", .array (n.segments.map Segment.toJson))]

/-- The network of a JSON text. -/
def readJson? (text : String) : Option Network :=
  match Json.read .record text with
  | .ok json => ofJson? json
  | .error _ => none

/-- The JSON text of a network. -/
def jsonText (n : Network) : String := n.toJson.compact

end Network

end LaserPath
