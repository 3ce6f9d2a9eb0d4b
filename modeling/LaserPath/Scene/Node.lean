import LaserPath.Scene.Network
import LaserPath.Selection

/-!
# Nodes in JSON

A node of a scene is a record with a tag. Fields that its tag does not use are
read all the same, so a scene with anything wrong in them is refused.

## Main definitions

* `Shape.ofJson?` — a node with its children.
* `Ancestor.ofJson?`, `SelectedNode.ofJson?` — a container above a node, and a
  selected node.
-/

namespace LaserPath

/-- The counts of corners and points are below this limit. -/
def countLimit : Nat := twoTo 32

/-- An operation, as its tag or as an object whose only key is the tag. -/
def BooleanOperation.ofJson? : Json → Option BooleanOperation
  | .string tag => ofTag? tag
  | .object [(tag, .null)] => ofTag? tag
  | _ => none

/-- An entry of path data: a text, or an object that may have one. -/
def pathEntry? : Json → Option (Option String)
  | .string data => some (some data)
  | .object members =>
    match members.lookup "data" with
    | some value => value.orNull? Json.string?
    | none => some none
  | _ => none

namespace Shape

/-- The fields of a node. -/
def layout : Json.Layout :=
  ⟨["type", "name", "x", "y", "width", "height", "absoluteBoundingBox", "pointCount",
    "innerRadius", "vectorNetwork", "vectorPaths", "booleanOperation", "children"], true⟩

/-- What a node may have beyond its attributes. -/
structure Extras where
  pointCount? : Option Nat
  innerRadius? : Option Float
  network? : Option Network
  paths : List String
  operation? : Option BooleanOperation
  children : List Shape

/-- The node of a tag. A polygon has three corners and a star five points if
nothing is said, and a tag that is not known is kept. -/
def ofTag (tag : String) (a : Attributes) (extras : Extras) : Shape :=
  match tag with
  | "RECTANGLE" => .leaf a .rectangle
  | "ELLIPSE" => .leaf a .ellipse
  | "POLYGON" => .leaf a (.polygon (extras.pointCount?.getD 3))
  | "STAR" => .leaf a (.star (extras.pointCount?.getD 5) extras.innerRadius?)
  | "LINE" => .leaf a .line
  | "VECTOR" => .leaf a (.vector extras.network? extras.paths)
  | "BOOLEAN_OPERATION" => .leaf a (.booleanOperation (extras.operation?.getD .union))
  | "INSTANCE" => .leaf a .component
  | "SLICE" => .leaf a .slice
  | "TEXT" => .leaf a .text
  | "FRAME" => .container a .frame extras.children
  | "GROUP" => .container a .group extras.children
  | "SECTION" => .container a .section extras.children
  | tag => .leaf a (.unsupported tag)

/-- The node of fields and children. -/
def ofFields? (fields : Json.Fields) (children : List Shape) : Option Shape := do
  let tag ← fields.optional? "type" Json.string? ""
  let attributes : Attributes := {
    name := ← fields.optional? "name" Json.string? ""
    x := ← fields.optional? "x" Json.float? 0
    y := ← fields.optional? "y" Json.float? 0
    width := ← fields.optional? "width" Json.float? 0
    height := ← fields.optional? "height" Json.float? 0
    absoluteBounds? :=
      ← fields.optional? "absoluteBoundingBox" (Json.orNull? Bounds.ofJson?) none }
  let extras : Extras := {
    pointCount? := ← fields.optional? "pointCount" (Json.orNull? (Json.natBelow? countLimit)) none
    innerRadius? := ← fields.optional? "innerRadius" (Json.orNull? Json.float?) none
    network? := ← fields.optional? "vectorNetwork" (Json.orNull? Network.ofJson?) none
    paths := (← fields.optional? "vectorPaths" (Json.list? pathEntry?) []).filterMap id
    operation? :=
      ← fields.optional? "booleanOperation" (Json.orNull? BooleanOperation.ofJson?) none
    children }
  return ofTag tag attributes extras

mutual

/-- A node with its children. -/
def ofJson? (json : Json) : Option Shape :=
  match json with
  | .object members => do
    ofFields? (← (Json.object members).fields? layout) (← childrenIn? members)
  | .array items => do
    ofFields? (← (Json.array items).fields? layout) (← childrenAt? 12 items)
  | _ => none

/-- The children among the members of an object. -/
def childrenIn? (members : List (String × Json)) : Option (List Shape) :=
  match members with
  | [] => some []
  | (key, value) :: rest => if key = "children" then listOfJson? value else childrenIn? rest

/-- The children at a place among the items of an array. -/
def childrenAt? (place : Nat) (items : List Json) : Option (List Shape) :=
  match place, items with
  | _, [] => some []
  | 0, item :: _ => listOfJson? item
  | place + 1, _ :: rest => childrenAt? place rest

/-- An array of nodes. -/
def listOfJson? (json : Json) : Option (List Shape) :=
  match json with
  | .array items => listOfItems? items
  | _ => none

/-- The nodes of the items of an array. -/
def listOfItems? (items : List Json) : Option (List Shape) :=
  match items with
  | [] => some []
  | item :: rest => do return (← ofJson? item) :: (← listOfItems? rest)

end

end Shape

namespace Ancestor

/-- The fields of a container above a node. -/
def layout : Json.Layout := ⟨["name", "x", "y"], true⟩

/-- A container above a node. It has a position if one of its coordinates is
written; the other one is zero then. -/
def ofJson? (json : Json) : Option Ancestor := do
  let fields ← json.fields? layout
  let name ← fields.optional? "name" Json.string? ""
  let x? ← fields.optional? "x" (Json.orNull? Json.float?) none
  let y? ← fields.optional? "y" (Json.orNull? Json.float?) none
  let offset? := match x?, y? with
    | none, none => none
    | x?, y? => some ⟨x?.getD 0, y?.getD 0⟩
  return ⟨name, offset?⟩

end Ancestor

namespace SelectedNode

/-- The fields of a selected node. -/
def layout : Json.Layout := ⟨["ancestors", "node"], false⟩

/-- A selected node and the containers above it. -/
def ofJson? (json : Json) : Option SelectedNode := do
  let fields ← json.fields? layout
  return {
    ancestors := ← fields.optional? "ancestors" (Json.list? Ancestor.ofJson?) []
    shape := ← fields.required? "node" Shape.ofJson? }

end SelectedNode

end LaserPath
