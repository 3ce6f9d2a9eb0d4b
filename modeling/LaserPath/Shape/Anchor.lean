import LaserPath.Shape.Basic

/-!
# Anchors

Where a shape lies on the page, and where the head enters and leaves it as far
as the order of shapes is concerned.

## Main definitions

* `Shape.anchor` — the top left corner on the page.
* `Shape.routeAnchors` — the points between which travel is measured.
-/

namespace LaserPath

/-- A position moved by the offsets of the containers above it, nearest first. -/
def Point.throughAncestors (p : Point) (ancestors : List Ancestor) : Point :=
  (ancestors.filterMap Ancestor.offset?).foldl Point.shift p

/-- The top left corner on the page: that of the box on the page if there is
one, or else the position moved by the offsets of the containers. -/
def Attributes.anchor (a : Attributes) (ancestors : List Ancestor) : Point :=
  match a.absoluteBounds? with
  | some bounds => bounds.corner
  | none => a.position.throughAncestors ancestors

/-- The top left corner of a shape on the page. -/
def Shape.anchor (s : Shape) (ancestors : List Ancestor) : Point :=
  s.attributes.anchor ancestors

/-- The points at which a figure is entered and left, by rules of its own
rather than by its trace: the rightmost point of an ellipse, the ends of a
line, the top of a polygon or star, the first and last vertex of a network, and
the corner of everything else. -/
def Figure.routeAnchors (f : Figure) (a : Attributes) (anchor : Point) : Point × Point :=
  match f with
  | .ellipse =>
    let rightmost := anchor.offset a.width (a.height / 2)
    (rightmost, rightmost)
  | .line => (anchor, anchor.offset a.width a.height)
  | .polygon _ | .star _ _ =>
    let radius := lesser a.width a.height / 2
    let top := anchor.offset (a.width / 2) (a.height / 2 - radius)
    (top, top)
  | .vector (some network) _ =>
    if network.isEmpty then (anchor, anchor)
    else match network.vertices.head?, network.vertices.getLast? with
      | some first, some last => (anchor.shift first, anchor.shift last)
      | _, _ => (anchor, anchor)
  | _ => (anchor, anchor)

/-- The points at which a shape is entered and left. -/
def Shape.routeAnchors (s : Shape) (ancestors : List Ancestor) : Point × Point :=
  match s with
  | .leaf a figure => figure.routeAnchors a (a.anchor ancestors)
  | .container a _ _ => (a.anchor ancestors, a.anchor ancestors)

end LaserPath
