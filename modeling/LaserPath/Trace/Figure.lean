import LaserPath.Shape.Anchor
import LaserPath.Trace.Network
import LaserPath.Trace.PathData

/-!
# Tracing of figures

How every figure is drawn. Figures without an outline of their own, such as
text and component instances, are drawn as their box.

## Main definitions

* `Figure.trace` — the toolpath of a figure, comments included.
-/

namespace LaserPath

/-- The ratio of a circle's circumference to its diameter. -/
def circleRatio : Float := 3.141592653589793

/-- The number of chords of an ellipse that is no circle. -/
def ellipseChordCount : Nat := 32

/-- The point at an angle on an ellipse around a centre. -/
def Point.onEllipse (centre : Point) (radiusX radiusY angle : Float) : Point :=
  centre.offset (radiusX * angle.cos) (radiusY * angle.sin)

namespace LaserSettings

/-- An ellipse in a box, from its rightmost point. A circle is one whole turn,
any other ellipse a sequence of chords. -/
def traceEllipse (s : LaserSettings) (anchor : Point) (width height : Float) : Toolpath :=
  let radiusX := width / 2
  let radiusY := height / 2
  let centre := anchor.offset radiusX radiusY
  let start := centre.offset radiusX 0
  if radiusX == radiusY then [s.rapidTo start, s.arcTo start ⟨-radiusX, 0⟩ false]
  else
    let step := 2 * circleRatio / Binary64.ofNat ellipseChordCount
    s.rapidTo start :: (List.range' 1 ellipseChordCount).map fun i =>
      s.cutTo (centre.onEllipse radiusX radiusY (Binary64.ofNat i * step))

/-- A closed polygon with `count` vertices at equal angles around the centre of
a box, the first at the top. The radius may differ from vertex to vertex. -/
def traceRadial (s : LaserSettings) (centre : Point) (step : Float) (radius : Nat → Float)
    (count : Nat) : Toolpath :=
  let vertex (i : Nat) : Point :=
    centre.onEllipse (radius i) (radius i) (-circleRatio / 2 + Binary64.ofNat i * step)
  s.rapidTo (vertex 0) :: (List.range' 1 count).map fun i => s.cutTo (vertex i)

/-- A regular polygon in a box; it has three corners at least. -/
def tracePolygon (s : LaserSettings) (anchor : Point) (width height : Float) (corners : Nat) :
    Toolpath :=
  let sides := max corners 3
  let radius := lesser width height / 2
  s.traceRadial (anchor.offset (width / 2) (height / 2))
    (2 * circleRatio / Binary64.ofNat sides) (fun _ => radius) sides

/-- A star in a box, outer and inner vertices by turns; a star without points
has five. The vertices are counted in 32 bits. -/
def traceStar (s : LaserSettings) (anchor : Point) (width height : Float) (points : Nat)
    (ratio : Float) : Toolpath :=
  let count := if points = 0 then 5 else points
  let outer := lesser width height / 2
  let inner := outer * ratio
  s.traceRadial (anchor.offset (width / 2) (height / 2))
    (circleRatio / Binary64.ofNat count) (fun i => if i % 2 = 0 then outer else inner)
    (2 * count % UInt32.size)

end LaserSettings

/-- The comment in front of a shape: its tag, and its name if it has one. -/
def Attributes.comment (a : Attributes) (tag : String) : Command :=
  .comment (if a.name.isEmpty then tag else tag ++ " - \"" ++ a.name ++ "\"")

namespace Figure

/-- The outline of a freeform figure: its network, or else its path data, or
else its box. -/
def traceVector (settings : LaserSettings) (a : Attributes) (anchor : Point)
    (network? : Option Network) (paths : List String) : Except ShapeError Toolpath :=
  match network?.filter (!·.isEmpty) with
  | some network =>
    (network.trace settings anchor).map (.comment "Vector Network Processing" :: ·)
  | none =>
    if paths.isEmpty then
      .ok (.comment "VECTOR (no path data - using bounding box)" ::
        settings.outline anchor a.width a.height)
    else
      .ok (.comment "Vector Paths Processing" :: paths.flatMap (tracePathData settings anchor))

/-- The toolpath of a figure with its comments. -/
def trace (settings : LaserSettings) (a : Attributes) (anchor : Point) (figure : Figure) :
    Except ShapeError Toolpath :=
  let named := a.comment figure.tag
  let box := settings.outline anchor a.width a.height
  match figure with
  | .rectangle => .ok (named :: box)
  | .ellipse => .ok (named :: settings.traceEllipse anchor a.width a.height)
  | .polygon corners => .ok (named :: settings.tracePolygon anchor a.width a.height corners)
  | .star points innerRadius? =>
    (starRatio innerRadius?).map fun ratio =>
      named :: settings.traceStar anchor a.width a.height points ratio
  | .line =>
    .ok [named, settings.rapidTo anchor, settings.cutTo (anchor.offset a.width a.height)]
  | .vector network? paths =>
    (traceVector settings a anchor network? paths).map (named :: ·)
  | .booleanOperation operation =>
    .ok (.comment (figure.tag ++ " (" ++ operation.tag ++ ")") :: box)
  | .component | .slice | .text => .ok (.comment (figure.tag ++ " (bounding box)") :: box)
  | .unsupported tag => .ok [.comment ("Unsupported node type: " ++ tag)]

end Figure

end LaserPath
