import LaserPath.Shape.Error
import LaserPath.Trace.Cubic

/-!
# Tracing of vector networks

Every chain of a network is one rapid to its first vertex and the cuts along
its segments.

## Main definitions

* `Network.curve` — a segment as a curve on the page.
* `Network.trace` — the toolpath of a network, unless it refers to a vertex
  that is missing.
-/

namespace LaserPath.Network

/-- A vertex on the page. -/
def vertex (n : Network) (anchor : Point) (index : Nat) : Point :=
  anchor.shift (n.vertices.getD index .origin)

/-- A segment as a curve on the page. An end without a tangent has its control
point on the vertex. -/
def curve (n : Network) (anchor : Point) (s : Segment) : Cubic :=
  let start := n.vertex anchor s.start
  let finish := n.vertex anchor s.finish
  { start
    control₁ := s.startTangent?.elim start start.shift
    control₂ := s.finishTangent?.elim finish finish.shift
    finish }

/-- The cuts along a segment. -/
def traceSegment (settings : LaserSettings) (n : Network) (anchor : Point) (s : Segment) :
    Toolpath :=
  if s.isCurved then settings.traceCubic (n.curve anchor s)
  else [settings.cutTo (n.vertex anchor s.finish)]

/-- The rapid and the cuts of a chain. -/
def traceChain (settings : LaserSettings) (n : Network) (anchor : Point) :
    List Link → Toolpath
  | [] => []
  | link :: rest =>
    settings.rapidTo (n.vertex anchor link.1.start) ::
      (link :: rest).flatMap fun l => n.traceSegment settings anchor l.1

/-- The toolpath of a network. -/
def trace (settings : LaserSettings) (n : Network) (anchor : Point) :
    Except ShapeError Toolpath :=
  match n.fault? with
  | some fault => .error (.malformedNetwork fault)
  | none => .ok ((linkChains n.segments).flatMap (n.traceChain settings anchor))

end LaserPath.Network
