import LaserPath.Toolpath.Basic

/-!
# Cubic curves

A cubic curve is cut along sixteen chords whose ends lie on the curve at equal
steps of its parameter.

## Main definitions

* `Cubic` — a curve by its ends and control points.
* `Cubic.samples` — the ends of the chords.
* `LaserSettings.traceCubic` — the cuts.
-/

namespace LaserPath

/-- A cubic curve by its ends and its two control points. -/
structure Cubic where
  start : Point
  control₁ : Point
  control₂ : Point
  finish : Point
  deriving DecidableEq

namespace Cubic

/-- One coordinate of the curve at the parameter `t`. -/
def blend (start control₁ control₂ finish t : Float) : Float :=
  let t2 := t * t
  let t3 := t2 * t
  let u := 1 - t
  let u2 := u * u
  let u3 := u2 * u
  start * u3 + control₁ * 3 * u2 * t + control₂ * 3 * u * t2 + finish * t3

/-- The point of the curve at the parameter `t`. -/
def sample (c : Cubic) (t : Float) : Point :=
  ⟨blend c.start.x c.control₁.x c.control₂.x c.finish.x t,
    blend c.start.y c.control₁.y c.control₂.y c.finish.y t⟩

/-- The number of chords of a curve. -/
def chordCount : Nat := 16

/-- The ends of the chords: the points at the parameters 1/16, 2/16, …, 1. -/
def samples (c : Cubic) : List Point :=
  (List.range' 1 chordCount).map fun i =>
    c.sample (Binary64.ofNat i / Binary64.ofNat chordCount)

/-- A curve whose control points lie on its ends is straight. -/
def isStraight (c : Cubic) : Bool :=
  c.control₁.coincides c.start && c.control₂.coincides c.finish

end Cubic

/-- The cuts along a curve from its start, where the pen is. A straight curve
is one cut. -/
def LaserSettings.traceCubic (s : LaserSettings) (c : Cubic) : Toolpath :=
  if c.isStraight then [s.cutTo c.finish] else c.samples.map s.cutTo

end LaserPath
