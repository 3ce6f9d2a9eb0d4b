import LaserPath.Shape.Network

/-!
# Shapes

The scene is a forest of nodes. Every node has a name, a position in its
container and a size; a leaf has a figure to draw, a container has children.

## Main definitions

* `Attributes` — what every node has.
* `Figure` — what a leaf draws.
* `Shape` — a node of the scene.
* `Ancestor` — a container above a shape, as far as positions need it.
-/

namespace LaserPath

/-- A box in the frame of the page. -/
structure Bounds where
  x : Float
  y : Float
  width : Float
  height : Float
  deriving DecidableEq

/-- The top left corner of a box. -/
def Bounds.corner (b : Bounds) : Point := ⟨b.x, b.y⟩

/-- What every node has: a name, the position in its container, a size, and the
box on the page if the host has computed it. -/
structure Attributes where
  name : String
  x : Float
  y : Float
  width : Float
  height : Float
  absoluteBounds? : Option Bounds
  deriving DecidableEq

namespace Attributes

/-- The position in the container. -/
def position (a : Attributes) : Point := ⟨a.x, a.y⟩

/-- The name to show; a node without a name is `Unnamed`. -/
def displayName (a : Attributes) : String := if a.name.isEmpty then "Unnamed" else a.name

end Attributes

/-- How a combined shape is combined. It is a label only. -/
inductive BooleanOperation where
  | union
  | subtract
  | intersect
  | exclude
  deriving DecidableEq, Repr

namespace BooleanOperation

/-- All four operations. -/
def all : List BooleanOperation := [.union, .subtract, .intersect, .exclude]

/-- The tag of an operation in scenes and comments. -/
def tag : BooleanOperation → String
  | .union => "UNION"
  | .subtract => "SUBTRACT"
  | .intersect => "INTERSECT"
  | .exclude => "EXCLUDE"

/-- The operation of a tag. -/
def ofTag? (tag : String) : Option BooleanOperation := all.find? (·.tag == tag)

@[simp] theorem ofTag?_tag (o : BooleanOperation) : ofTag? o.tag = some o := by
  cases o <;> decide

end BooleanOperation

/-- The kinds of containers. -/
inductive ContainerKind where
  | frame
  | group
  | section
  deriving DecidableEq, Repr

/-- The tag of a kind of container. -/
def ContainerKind.tag : ContainerKind → String
  | .frame => "FRAME"
  | .group => "GROUP"
  | .section => "SECTION"

/-- What a leaf draws. -/
inductive Figure where
  | rectangle
  | ellipse
  /-- A regular polygon in the box. -/
  | polygon (corners : Nat)
  /-- A star in the box. The inner radius is a share of the outer one. -/
  | star (points : Nat) (innerRadius? : Option Float)
  /-- A straight line; the size of the node is its direction. -/
  | line
  /-- A freeform outline: a network, or path data when there is no network to draw. -/
  | vector (network? : Option Network) (paths : List String)
  | booleanOperation (operation : BooleanOperation)
  | component
  | slice
  | text
  /-- A node whose tag is none of the known ones. -/
  | unsupported (tag : String)
  deriving DecidableEq

/-- The tag of a figure. -/
def Figure.tag : Figure → String
  | .rectangle => "RECTANGLE"
  | .ellipse => "ELLIPSE"
  | .polygon _ => "POLYGON"
  | .star _ _ => "STAR"
  | .line => "LINE"
  | .vector _ _ => "VECTOR"
  | .booleanOperation _ => "BOOLEAN_OPERATION"
  | .component => "INSTANCE"
  | .slice => "SLICE"
  | .text => "TEXT"
  | .unsupported tag => tag

/-- A node of the scene. -/
inductive Shape where
  | leaf (attributes : Attributes) (figure : Figure)
  | container (attributes : Attributes) (kind : ContainerKind) (children : List Shape)

namespace Shape

/-- What every node has. -/
def attributes : Shape → Attributes
  | .leaf a _ => a
  | .container a _ _ => a

/-- The tag of a node. -/
def tag : Shape → String
  | .leaf _ figure => figure.tag
  | .container _ kind _ => kind.tag

/-- The name to show. -/
def displayName (s : Shape) : String := s.attributes.displayName

/-- The children of a container; a leaf has none. -/
def children : Shape → List Shape
  | .leaf _ _ => []
  | .container _ _ children => children

/-- Is the node a container? -/
def isContainer : Shape → Bool
  | .leaf _ _ => false
  | .container _ _ _ => true

/-- Does the node draw something of its own? -/
def isDrawable : Shape → Bool
  | .leaf _ (.unsupported _) => false
  | .leaf _ _ => true
  | .container _ _ _ => false

end Shape

/-- A container above a shape: its name, and its position if it has one. -/
structure Ancestor where
  name : String
  offset? : Option Point
  deriving DecidableEq

/-- The container as an ancestor of its children. -/
def Ancestor.of (a : Attributes) : Ancestor := ⟨a.name, some a.position⟩

end LaserPath
