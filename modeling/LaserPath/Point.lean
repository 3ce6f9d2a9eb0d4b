/-!
# Points

Positions on the bed of the cutter and offsets between them.

## Main definitions

* `Point` — a pair of coordinates.
* `Point.offset`, `Point.distance` — the plane geometry that toolpaths need.
* `Point.coincides` — equality of coordinates as numbers.
-/

namespace LaserPath

/-- A position, or an offset between two positions. -/
structure Point where
  x : Float
  y : Float
  deriving DecidableEq

namespace Point

/-- The page's corner. -/
def origin : Point := ⟨0, 0⟩

instance : Inhabited Point := ⟨origin⟩

/-- The point shifted by `dx` and `dy`. -/
def offset (p : Point) (dx dy : Float) : Point := ⟨p.x + dx, p.y + dy⟩

/-- The point shifted by the coordinates of another. -/
def shift (p q : Point) : Point := p.offset q.x q.y

/-- The distance between two points. -/
def distance (p q : Point) : Float :=
  Float.sqrt ((p.x - q.x) * (p.x - q.x) + (p.y - q.y) * (p.y - q.y))

/-- Do two points have equal coordinates? Zeros of either sign are equal and an
undefined coordinate equals nothing. -/
def coincides (p q : Point) : Bool := p.x == q.x && p.y == q.y

/-- Is a coordinate other than zero? -/
def isNonzero (p : Point) : Bool := p.x != 0 || p.y != 0

end Point

/-- The lesser of two numbers; an undefined one gives way to the other. -/
def lesser (a b : Float) : Float :=
  if a.isNaN then b else if b < a then b else a

end LaserPath
