import LaserPath.Shape.Basic
import LaserPath.Decimal.Spelling

/-!
# Why a shape cannot be drawn

A shape is refused when one of its measures is not finite, when the inner
radius of a star is no share of the outer one, or when a network refers to a
vertex that it does not have.

## Main definitions

* `ShapeError` — the reason, with the value that is refused.
* `Attributes.check` — the first measure that is not finite.
* `starRatio` — the share of the inner radius.
-/

namespace LaserPath

/-- The measures of a node that have to be finite. -/
inductive Dimension where
  | x
  | y
  | width
  | height
  | boundsX
  | boundsY
  deriving DecidableEq, Repr

/-- The name of a measure in messages. -/
def Dimension.name : Dimension → String
  | .x => "x"
  | .y => "y"
  | .width => "width"
  | .height => "height"
  | .boundsX => "absoluteBoundingBox.x"
  | .boundsY => "absoluteBoundingBox.y"

/-- Why a shape cannot be drawn. -/
inductive ShapeError where
  | malformedNetwork (fault : Network.Fault)
  | notFinite (dimension : Dimension) (value : Float)
  | starRatio (ratio : Float)
  deriving DecidableEq

/-- The text of the reason. -/
def ShapeError.message : ShapeError → String
  | .malformedNetwork fault =>
    "Malformed vector network: segment " ++ toString fault.segment ++ " references vertex " ++
      toString fault.vertex ++ " but only " ++ toString fault.vertexCount ++ " vertices exist"
  | .notFinite dimension value =>
    "Invalid dimension '" ++ dimension.name ++ "': " ++ spellShortest .plain value
  | .starRatio ratio =>
    "Invalid star inner radius ratio " ++ spellShortest .plain ratio ++ ": must be in (0, 1]"

namespace Attributes

/-- The measures of a node in the order in which they are checked. -/
def dimensions (a : Attributes) : List (Dimension × Float) :=
  [(.x, a.x), (.y, a.y), (.width, a.width), (.height, a.height)] ++
    match a.absoluteBounds? with
    | some bounds => [(.boundsX, bounds.x), (.boundsY, bounds.y)]
    | none => []

/-- Refuses a node with a measure that is not finite. -/
def check (a : Attributes) : Except ShapeError Unit :=
  match a.dimensions.find? (!·.2.isFinite) with
  | some (dimension, value) => .error (.notFinite dimension value)
  | none => .ok ()

end Attributes

/-- The inner radius of a star as a share of the outer one: a half if nothing
is said, and else a number above zero and up to one. -/
def starRatio (innerRadius? : Option Float) : Except ShapeError Float :=
  match innerRadius? with
  | none => .ok 0.5
  | some ratio => if 0 < ratio ∧ ratio ≤ 1 then .ok ratio else .error (.starRatio ratio)

end LaserPath
