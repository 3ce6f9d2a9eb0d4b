import LaserPath.Point

/-!
# Vector networks

A freeform outline is a graph: vertices, and directed segments between them,
straight or curved. The pen follows segments as long as one starts where the
last one ended, so the segments fall into chains.

## Main definitions

* `Network`, `Network.Segment` — the graph.
* `Network.fault?` — the first reference to a vertex that is missing.
* `Network.chains` — the segments in the order of tracing.

## Main statements

* `Network.length_follow` — following a chain loses no segment.
-/

namespace LaserPath

namespace Network

/-- A directed segment between two vertices, given by their positions in the
list of vertices. Tangents are offsets from the vertex at that end. -/
structure Segment where
  start : Nat
  finish : Nat
  startTangent? : Option Point
  finishTangent? : Option Point
  deriving DecidableEq

/-- A segment is curved when one of its tangents has a length. -/
def Segment.isCurved (s : Segment) : Bool :=
  s.startTangent?.any Point.isNonzero || s.finishTangent?.any Point.isNonzero

end Network

/-- A graph of vertices and segments. Vertices are offsets from the anchor of the shape. -/
structure Network where
  vertices : List Point
  segments : List Network.Segment
  deriving DecidableEq

namespace Network

/-- Without segments there is nothing to draw. -/
def isEmpty (n : Network) : Bool := n.segments.isEmpty

/-- A reference to a vertex that is missing. -/
structure Fault where
  segment : Nat
  vertex : Nat
  vertexCount : Nat
  deriving DecidableEq, Repr

/-- The first reference to a missing vertex: the segments in order, the start
of each before its end. -/
def fault? (n : Network) : Option Fault :=
  n.segments.zipIdx.findSome? fun (segment, index) =>
    [segment.start, segment.finish].findSome? fun vertex =>
      if n.vertices.length ≤ vertex then some ⟨index, vertex, n.vertices.length⟩ else none

/-- A segment and its position in the network. -/
abbrev Link := Segment × Nat

/-- The links that continue a chain from a vertex, and the links left over.
Among the links that start at the vertex the first continues the chain. -/
def follow (vertex : Nat) (links : List Link) : List Link × List Link :=
  match _found : links.find? (·.1.start == vertex) with
  | none => ([], links)
  | some link =>
    let (chain, left) := follow link.1.finish (links.eraseP (·.1.start == vertex))
    (link :: chain, left)
termination_by links.length
decreasing_by
  have hm := List.mem_of_find?_eq_some _found
  have hl := List.length_eraseP_of_mem hm (List.find?_some _found)
  have := List.length_pos_of_mem hm
  omega

/-- Following a chain loses no link. -/
theorem length_follow (vertex : Nat) (links : List Link) :
    (follow vertex links).1.length + (follow vertex links).2.length = links.length := by
  fun_induction follow vertex links with
  | case1 vertex links h => simp
  | case2 vertex links link h chain left heq ih =>
    have hm := List.mem_of_find?_eq_some h
    have hl := List.length_eraseP_of_mem hm (List.find?_some h)
    have := List.length_pos_of_mem hm
    simp only [heq] at ih
    simp only [List.length_cons]
    omega

/-- Cuts a list of links into chains. The first link begins a chain, which goes
on as long as it can; the links left over are cut in the same way. -/
def cutChains : List Link → List (List Link)
  | [] => []
  | link :: rest =>
    (link :: (follow link.1.finish rest).1) :: cutChains (follow link.1.finish rest).2
termination_by links => links.length
decreasing_by
  have := length_follow link.1.finish rest
  simp only [List.length_cons]
  omega

/-- The chains of a list of segments, each with the positions of its segments. -/
def linkChains (segments : List Segment) : List (List Link) := cutChains segments.zipIdx

/-- The chains of a list of segments, as positions. -/
def chains (segments : List Segment) : List (List Nat) :=
  (linkChains segments).map (·.map Prod.snd)

/-- A chain takes up a segment that comes later as soon as it fits. -/
example : chains [⟨0, 1, none, none⟩, ⟨2, 3, none, none⟩, ⟨1, 2, none, none⟩, ⟨5, 6, none, none⟩]
    = [[0, 2, 1], [3]] := by
  decide +kernel

end Network

end LaserPath
