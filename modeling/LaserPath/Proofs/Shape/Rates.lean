import LaserPath.Proofs.Toolpath.Emission
import LaserPath.Proofs.Toolpath.Rates
import Mathlib.Data.List.Basic

/-!
# Shapes at other rates

The settings of the laser are handed through to where a command is written and are read nowhere
else. So a shape is traced along the same points at any rates, and if it is refused it is refused
for the same reason.

## Main statements

* `Figure.atRates_trace` — a figure traced under other settings.
* `Shape.atRates_compile` — a shape compiled under other settings.
-/

namespace LaserPath

variable (s₁ s₂ : LaserSettings)

namespace LaserSettings

@[simp] theorem atRates_rapidTo (target : Point) :
    (s₁.rapidTo target).atRates s₂ = s₂.rapidTo target :=
  rfl

@[simp] theorem atRates_cutTo (target : Point) : (s₁.cutTo target).atRates s₂ = s₂.cutTo target :=
  rfl

@[simp] theorem atRates_arcTo (target centre : Point) (clockwise : Bool) :
    (s₁.arcTo target centre clockwise).atRates s₂ = s₂.arcTo target centre clockwise :=
  rfl

@[simp] theorem atRates_outline (corner : Point) (width height : Float) :
    Toolpath.atRates s₂ (s₁.outline corner width height) = s₂.outline corner width height :=
  rfl

@[simp] theorem atRates_traceCubic (c : Cubic) :
    Toolpath.atRates s₂ (s₁.traceCubic c) = s₂.traceCubic c := by
  unfold traceCubic
  split <;> simp

@[simp] theorem atRates_traceEllipse (anchor : Point) (width height : Float) :
    Toolpath.atRates s₂ (s₁.traceEllipse anchor width height) =
      s₂.traceEllipse anchor width height := by
  unfold traceEllipse
  dsimp only
  split <;> simp

@[simp] theorem atRates_traceRadial (centre : Point) (step : Float) (radius : Nat → Float)
    (count : Nat) :
    Toolpath.atRates s₂ (s₁.traceRadial centre step radius count) =
      s₂.traceRadial centre step radius count := by
  simp [traceRadial]

@[simp] theorem atRates_tracePolygon (anchor : Point) (width height : Float) (corners : Nat) :
    Toolpath.atRates s₂ (s₁.tracePolygon anchor width height corners) =
      s₂.tracePolygon anchor width height corners := by
  simp [tracePolygon]

@[simp] theorem atRates_traceStar (anchor : Point) (width height : Float) (points : Nat)
    (ratio : Float) :
    Toolpath.atRates s₂ (s₁.traceStar anchor width height points ratio) =
      s₂.traceStar anchor width height points ratio := by
  simp [traceStar]

end LaserSettings

namespace Network

theorem atRates_traceSegment (n : Network) (anchor : Point) (segment : Segment) :
    Toolpath.atRates s₂ (n.traceSegment s₁ anchor segment) =
      n.traceSegment s₂ anchor segment := by
  unfold traceSegment
  split <;> simp

theorem atRates_traceChain (n : Network) (anchor : Point) (chain : List Link) :
    Toolpath.atRates s₂ (n.traceChain s₁ anchor chain) = n.traceChain s₂ anchor chain := by
  cases chain <;> simp [traceChain, atRates_traceSegment]

theorem atRates_trace (n : Network) (anchor : Point) :
    (n.trace s₁ anchor).map (Toolpath.atRates s₂) = n.trace s₂ anchor := by
  unfold trace
  split <;> simp [Except.map, atRates_traceChain]

end Network

namespace PathCommand

theorem atRates_traceLines (anchor : Point) (relative : Bool) (current : Point)
    (params : List Float) :
    traceLines s₂ anchor relative current params =
      ((traceLines s₁ anchor relative current params).1,
        Toolpath.atRates s₂ (traceLines s₁ anchor relative current params).2) := by
  fun_induction traceLines s₁ anchor relative current params with
  | case1 current x y rest next last cuts heq ih =>
    rw [heq] at ih
    simp [traceLines, ih, next]
  | case2 current params h =>
    rw [traceLines]
    · rfl
    · exact h

theorem atRates_traceCurves (anchor : Point) (relative : Bool) (current : Point)
    (params : List Float) :
    traceCurves s₂ anchor relative current params =
      ((traceCurves s₁ anchor relative current params).1,
        Toolpath.atRates s₂ (traceCurves s₁ anchor relative current params).2) := by
  fun_induction traceCurves s₁ anchor relative current params with
  | case1 current x₁ y₁ x₂ y₂ x y rest next curve last cuts heq ih =>
    rw [heq] at ih
    simp [traceCurves, ih, next, curve]
  | case2 current params h =>
    rw [traceCurves]
    · rfl
    · exact h

theorem atRates_trace (anchor : Point) (state : PathState) (c : PathCommand) :
    trace s₂ anchor state c =
      ((trace s₁ anchor state c).1, Toolpath.atRates s₂ (trace s₁ anchor state c).2) := by
  have hlines := atRates_traceLines s₁ s₂ anchor c.isRelative state.current c.params
  have hcurves := atRates_traceCurves s₁ s₂ anchor c.isRelative state.current c.params
  fun_cases trace s₁ anchor state c with
  | case1 current x y tail hp hl next => simp [trace, hp, hl, next, current]
  | case2 current hl last cuts heq =>
    rw [heq] at hlines
    simp [trace, hl, hlines]
  | case3 current x tail hp hl next => simp [trace, hp, hl, next, current]
  | case4 current y tail hp hl next => simp [trace, hp, hl, next, current]
  | case5 current hl last cuts heq =>
    rw [heq] at hcurves
    simp [trace, hl, hcurves]
  | case6 hl => simp [trace, hl]
  | case7 hl hc hz hm hh hv =>
    unfold trace
    split <;> simp_all

theorem atRates_traceAll (anchor : Point) (state : PathState) (commands : List PathCommand) :
    Toolpath.atRates s₂ (traceAll s₁ anchor state commands) =
      traceAll s₂ anchor state commands := by
  induction commands generalizing state with
  | nil => rfl
  | cons c rest ih => simp [traceAll, atRates_trace s₁ s₂, ih]

end PathCommand

theorem atRates_tracePathData (anchor : Point) (data : String) :
    Toolpath.atRates s₂ (tracePathData s₁ anchor data) = tracePathData s₂ anchor data :=
  PathCommand.atRates_traceAll s₁ s₂ anchor _ _

@[simp] theorem Attributes.atRates_comment (a : Attributes) (tag : String) :
    (a.comment tag).atRates s₂ = a.comment tag :=
  rfl

namespace Figure

theorem atRates_traceVector (a : Attributes) (anchor : Point) (network? : Option Network)
    (paths : List String) :
    (traceVector s₁ a anchor network? paths).map (Toolpath.atRates s₂) =
      traceVector s₂ a anchor network? paths := by
  unfold traceVector
  split
  · next network _ =>
    rw [← Network.atRates_trace s₁ s₂]
    cases network.trace s₁ anchor <;> rfl
  · split <;> simp [Except.map, atRates_tracePathData]

/-- The figure is traced alike under other settings, at their rates. -/
theorem atRates_trace (a : Attributes) (anchor : Point) (figure : Figure) :
    (figure.trace s₁ a anchor).map (Toolpath.atRates s₂) = figure.trace s₂ a anchor := by
  cases figure with
  | star points innerRadius? =>
    simp only [trace]
    cases starRatio innerRadius? <;> simp [Except.map]
  | vector network? paths =>
    simp only [trace, ← atRates_traceVector s₁ s₂]
    cases traceVector s₁ a anchor network? paths <;> rfl
  | _ => simp [trace, Except.map]

end Figure

namespace Shape

theorem atRates_contribution {shape : Shape} {ancestors : List Ancestor}
    (h : (shape.compile s₁ ancestors).map (Toolpath.atRates s₂) = shape.compile s₂ ancestors) :
    Toolpath.atRates s₂ (shape.contribution s₁ ancestors) = shape.contribution s₂ ancestors := by
  rw [contribution, contribution, ← h]
  cases shape.compile s₁ ancestors <;> rfl

/-- The shape is compiled alike under other settings, at their rates. -/
theorem atRates_compile (shape : Shape) (ancestors : List Ancestor) :
    (shape.compile s₁ ancestors).map (Toolpath.atRates s₂) = shape.compile s₂ ancestors := by
  induction shape using Shape.induction generalizing ancestors with
  | leaf a figure =>
    rw [compile, compile, ← Figure.atRates_trace s₁ s₂]
    cases a.check <;> rfl
  | container a kind children ih =>
    rw [compile, compile, compileAll_eq_flatMap, compileAll_eq_flatMap]
    have hchildren : children.flatMap (contribution s₂ (.of a :: ancestors)) =
        Toolpath.atRates s₂ (children.flatMap (contribution s₁ (.of a :: ancestors))) := by
      rw [Toolpath.atRates_flatMap]
      exact List.flatMap_congr fun child hm => (atRates_contribution s₁ s₂ (ih child hm _)).symm
    rw [hchildren]
    cases a.check with
    | error error => rfl
    | ok =>
      simp only [bind, Except.bind, pure, Except.pure, Except.map]
      split <;> simp

end Shape

end LaserPath
