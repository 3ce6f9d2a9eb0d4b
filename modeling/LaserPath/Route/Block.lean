import LaserPath.Shape.Anchor
import LaserPath.Toolpath.Reversal

/-!
# Blocks

A block is a compiled shape as the router sees it: its toolpath and the points
at which the head enters and leaves it. Travel is what the head covers between
the blocks.

## Main definitions

* `Block` — a compiled shape with its anchors.
* `Block.isReversible`, `Block.reversed?` — tracing a block the other way.
* `travelDistance` — the travel of a sequence of blocks.
-/

namespace LaserPath

/-- A compiled shape as the router sees it. -/
structure Block where
  /-- The position of the shape among the parts of the selection. -/
  id : Nat
  label : String
  toolpath : Toolpath
  /-- Where the head enters the block. -/
  start : Point
  /-- Where the head leaves the block. -/
  finish : Point
  /-- Is the block traced backwards? -/
  isReversed : Bool
  deriving DecidableEq

namespace Block

/-- The block of a shape, entered and left at the anchors of the shape. -/
def ofShape (id : Nat) (label : String) (shape : Shape) (ancestors : List Ancestor)
    (toolpath : Toolpath) : Block :=
  let (start, finish) := shape.routeAnchors ancestors
  ⟨id, label, toolpath, start, finish, false⟩

/-- A block may be reversed when its trace is open, runs from where the block
is entered to where it is left, and can be traced backwards. -/
def isReversible (b : Block) : Bool :=
  !b.start.coincides b.finish &&
    b.toolpath.firstPoint?.any (·.coincides b.start) &&
    b.toolpath.lastPoint?.any (·.coincides b.finish) &&
    b.toolpath.reversed?.isSome

/-- The comment in front of a block that is traced backwards. -/
def reversedComment : Command := .comment "Reversed for travel optimization"

/-- The block traced the other way, if its toolpath can be. -/
def reversed? (b : Block) : Option Block :=
  b.toolpath.reversed?.map fun toolpath =>
    { b with
      toolpath := reversedComment :: toolpath
      start := b.finish
      finish := b.start
      isReversed := !b.isReversed }

end Block

/-- The travel from `pen` through the blocks in order, added to `total`. -/
def travelFrom (pen : Point) (total : Float) : List Block → Float
  | [] => total
  | b :: rest => travelFrom b.finish (total + pen.distance b.start) rest

/-- The travel from `pen` through the blocks in order. -/
def travelDistance (pen : Point) (blocks : List Block) : Float := travelFrom pen 0 blocks

end LaserPath
