import LaserPath.Proofs.Shape.Compile
import LaserPath.Proofs.Toolpath.Opening

/-!
# How a shape begins

Every figure takes the head to its own place first, with one exception: path data is drawn
command by command, and path data that does not begin with a move cuts from where the head is.
A container begins as the first of its children that is drawn and moves the head.

## Main definitions

* `Shape.opening?` — the first motion of a shape, read from the shape.

## Main statements

* `Shape.opening?_compile` — the toolpath of a shape begins as the shape says.
* `Shape.positioned_compile_iff` — exactly which shapes are compiled so that no cut comes before
  a rapid.
-/

namespace LaserPath

/-- The first motion of a figure. Path data begins as the first of its commands that moves the
head; a node of an unknown kind does not move it. -/
def Figure.opening? : Figure → Option Opening
  | .vector network? paths =>
    if (network?.filter (!·.isEmpty)).isSome || paths.isEmpty then some .rapid
    else (paths.flatMap PathCommand.ofData).findSome? PathCommand.opening?
  | .unsupported _ => none
  | _ => some .rapid

/-- Can the figure be drawn? A star needs a share for its inner radius, and a network needs the
vertices that it refers to. -/
def Figure.isSound : Figure → Bool
  | .star _ innerRadius? => (starRatio innerRadius?).toOption.isSome
  | .vector network? _ => (network?.filter (!·.isEmpty)).all (·.fault?.isNone)
  | _ => true

namespace Shape

mutual

/-- The first motion of a shape; a shape that cannot be drawn has none. -/
def opening? (shape : Shape) : Option Opening :=
  match shape with
  | .leaf a figure =>
    if a.check.toOption.isSome && figure.isSound then figure.opening? else none
  | .container a _ children =>
    if a.check.toOption.isSome then
      if children.isEmpty then some .rapid else openingAll? children
    else none

/-- The first motion of the first of the shapes that has one. -/
def openingAll? (children : List Shape) : Option Opening :=
  match children with
  | [] => none
  | child :: rest => (opening? child).or (openingAll? rest)

end

theorem openingAll?_eq_findSome? (children : List Shape) :
    openingAll? children = children.findSome? opening? := by
  induction children with
  | nil => rw [openingAll?, List.findSome?_nil]
  | cons child rest ih =>
    rw [openingAll?, ih, List.findSome?_cons]
    cases child.opening? <;> rfl

end Shape

section

variable {settings : LaserSettings} {a : Attributes} {anchor : Point} {t : Toolpath}

open Toolpath

theorem Figure.opening?_traceVector {network? : Option Network} {paths : List String}
    (h : traceVector settings a anchor network? paths = .ok t) :
    Toolpath.opening? t = (Figure.vector network? paths).opening? := by
  unfold traceVector at h
  split at h
  · next network hn =>
    obtain ⟨motions, ht, rfl⟩ := exists_ok_of_map_eq_ok h
    have hne : network.isEmpty = false := by
      simpa using (Option.filter_eq_some_iff.1 hn).2
    rw [opening?_comment_cons, Network.opening?_trace settings hne ht, Figure.opening?, hn]
    rfl
  · next hn =>
    split at h
    · next hp =>
      obtain rfl := Except.ok.inj h
      rw [Figure.opening?, hn, hp]
      rfl
    · next hp =>
      obtain rfl := Except.ok.inj h
      rw [opening?_comment_cons, opening?_flatMap, Figure.opening?, hn, if_neg (by simpa using hp),
        findSome?_flatMap]
      simp only [opening?_tracePathData]

/-- A figure is traced exactly if it can be drawn. -/
theorem Figure.isSome_trace (settings : LaserSettings) (a : Attributes) (anchor : Point)
    (figure : Figure) : (figure.trace settings a anchor).toOption.isSome = figure.isSound := by
  cases figure with
  | star points innerRadius? =>
    rw [trace, isSound]
    cases starRatio innerRadius? <;> rfl
  | vector network? paths =>
    rw [trace, isSound, traceVector]
    cases hn : network?.filter (!·.isEmpty) with
    | none =>
      dsimp only
      split <;> rfl
    | some network =>
      dsimp only
      unfold Network.trace
      cases hf : network.fault? <;> simp [hf, Except.map, Except.toOption]
  | _ => rfl

/-- A figure begins as it says. -/
theorem Figure.opening?_trace {figure : Figure} (h : figure.trace settings a anchor = .ok t) :
    Toolpath.opening? t = figure.opening? := by
  cases figure with
  | rectangle | line | booleanOperation | component | slice | text | unsupported =>
    obtain rfl := Except.ok.inj h
    rfl
  | ellipse =>
    obtain rfl := Except.ok.inj h
    exact LaserSettings.opening?_traceEllipse settings anchor a.width a.height
  | polygon corners =>
    obtain rfl := Except.ok.inj h
    rfl
  | star points innerRadius? =>
    obtain ⟨ratio, -, rfl⟩ := exists_ok_of_map_eq_ok h
    rfl
  | vector network? paths =>
    obtain ⟨motions, hv, rfl⟩ := exists_ok_of_map_eq_ok h
    rw [Attributes.comment, opening?_comment_cons]
    exact opening?_traceVector hv

namespace Shape

theorem opening?_leaf {figure : Figure} (hc : a.check = .ok ()) (hs : figure.isSound = true) :
    (leaf a figure).opening? = figure.opening? := by
  rw [opening?, hc, hs]
  rfl

theorem opening?_container {kind : ContainerKind} {children : List Shape}
    (hc : a.check = .ok ()) :
    (container a kind children).opening? =
      if children.isEmpty then some .rapid else children.findSome? opening? := by
  rw [opening?, hc, openingAll?_eq_findSome?]
  rfl

theorem opening?_of_not_check {s : Shape} (hc : s.attributes.check ≠ .ok ()) :
    s.opening? = none := by
  have hs : s.attributes.check.toOption.isSome = false := by
    cases h : s.attributes.check with
    | error error => rfl
    | ok => exact absurd h hc
  cases s with
  | leaf a figure =>
    rw [attributes] at hs
    rw [opening?, hs, Bool.false_and, if_neg (by simp)]
  | container a kind children =>
    rw [attributes] at hs
    rw [opening?, hs, if_neg (by simp)]

theorem contribution_of_ok {shape : Shape} {ancestors : List Ancestor}
    (h : shape.compile settings ancestors = .ok t) : shape.contribution settings ancestors = t := by
  rw [contribution, h]

theorem opening?_of_error {shape : Shape} {ancestors : List Ancestor} {error : ShapeError}
    (h : shape.compile settings ancestors = .error error) :
    Toolpath.opening? (shape.contribution settings ancestors) = none := by
  rw [contribution, h]
  rfl

theorem opening?_contribution_leaf (figure : Figure) (ancestors : List Ancestor) :
    Toolpath.opening? ((leaf a figure).contribution settings ancestors) =
      (leaf a figure).opening? := by
  have hs := Figure.isSome_trace settings a (a.anchor ancestors) figure
  cases h : (leaf a figure).compile settings ancestors with
  | ok t =>
    obtain ⟨hc, ht⟩ := compile_leaf_eq_ok_iff.1 h
    rw [ht] at hs
    rw [contribution_of_ok h, Figure.opening?_trace ht, opening?_leaf hc hs.symm]
  | error error =>
    rw [opening?_of_error h]
    by_cases hc : a.check = .ok ()
    · cases ht : figure.trace settings a (a.anchor ancestors) with
      | ok t => simp [compile_leaf_eq_ok_iff.2 ⟨hc, ht⟩] at h
      | error error =>
        rw [ht] at hs
        have hs : figure.isSound = false := hs.symm
        rw [opening?, hs, Bool.and_false, if_neg Bool.false_ne_true]
    · exact (opening?_of_not_check (s := leaf a figure) hc).symm

theorem opening?_inside {kind : ContainerKind} {children : List Shape}
    {ancestors : List Ancestor}
    (h : ∀ child ∈ children, Toolpath.opening?
      (child.contribution settings (.of a :: ancestors)) = child.opening?) :
    Toolpath.opening? (inside settings a kind children ancestors) =
      if children.isEmpty then some .rapid else children.findSome? opening? := by
  unfold inside
  split
  · rfl
  · rw [opening?_flatMap]
    exact findSome?_congr h

/-- What a child adds to the toolpath of its container begins as the child says. -/
theorem opening?_contribution (shape : Shape) (ancestors : List Ancestor) :
    Toolpath.opening? (shape.contribution settings ancestors) = shape.opening? := by
  induction shape using Shape.induction generalizing ancestors with
  | leaf a figure => exact opening?_contribution_leaf figure ancestors
  | container a kind children ih =>
    cases h : (container a kind children).compile settings ancestors with
    | ok t =>
      obtain ⟨hc, rfl⟩ := compile_container_eq_ok_iff.1 h
      rw [contribution_of_ok h, opening?_container hc, framed, opening?_comment_cons,
        opening?_append, opening?_inside fun child hm => ih child hm _, opening?_comment_cons,
        opening?_nil, Option.or_none]
    | error error =>
      have hc : a.check ≠ .ok () := by
        intro hc
        simp [compile_container_eq_ok_iff.2 ⟨hc, rfl⟩] at h
      rw [opening?_of_error h, opening?_of_not_check (s := container a kind children) hc]

theorem opening?_compile {shape : Shape} {ancestors : List Ancestor}
    (h : shape.compile settings ancestors = .ok t) : Toolpath.opening? t = shape.opening? := by
  rw [← opening?_contribution shape ancestors, contribution_of_ok h]

/-- The first motion of a compiled shape is the one that the shape says, and exactly the shapes
that do not begin with a cut are compiled so that every cut has a rapid before it. -/
theorem positioned_compile_iff {shape : Shape} {ancestors : List Ancestor}
    (h : shape.compile settings ancestors = .ok t) :
    Toolpath.opening? t = shape.opening? ∧ (t.Positioned ↔ shape.opening? ≠ some .cut) := by
  rw [Toolpath.positioned_iff, opening?_compile h]
  exact ⟨rfl, Iff.rfl⟩

end Shape

end

namespace Shape

/-- Path data that begins with a move is positioned, even behind a command that does nothing. -/
theorem positioned_compile_of_move :
    ∃ t, compile {} (leaf ⟨"v", 0, 0, 10, 10, none⟩ (.vector none ["L 10", "M 1 1 L 10 10"])) [] =
      .ok t ∧ t.Positioned := by
  obtain ⟨t, h, -⟩ := exists_ok_of_any (Q := fun _ : Toolpath => True) (x := compile {}
    (leaf ⟨"v", 0, 0, 10, 10, none⟩ (.vector none ["L 10", "M 1 1 L 10 10"])) [])
    (by decide +kernel)
  exact ⟨t, h, (positioned_compile_iff h).2.2 (by decide +kernel)⟩

/-- Path data that begins with a line is not: the line is cut from where the head is. -/
theorem not_positioned_compile_of_line :
    ∃ t, compile {} (leaf ⟨"v", 0, 0, 10, 10, none⟩ (.vector none ["L 10 10"])) [] = .ok t ∧
      ¬ t.Positioned := by
  obtain ⟨t, h, hc⟩ := exists_ok_of_any (Q := fun t => Toolpath.opening? t = some .cut)
    (x := compile {} (leaf ⟨"v", 0, 0, 10, 10, none⟩ (.vector none ["L 10 10"])) [])
    (by decide +kernel)
  refine ⟨t, h, fun hp => ?_⟩
  exact (Toolpath.positioned_iff t).1 hp hc

end Shape

end LaserPath
