import LaserPath.Trace.Figure

/-!
# How a toolpath begins

The head may be anywhere when a toolpath begins. A toolpath that begins with a rapid takes it
to a place of its own, and one that begins with a cut burns a line from where the head is.
All that matters is the first motion, so the beginning of a toolpath put together from pieces
is that of the first piece that moves the head.

## Main definitions

* `Opening` — a rapid or a cut.
* `Toolpath.opening?` — the first motion of a toolpath.
* `Toolpath.Positioned` — every cut has a rapid before it.
* `PathCommand.opening?` — the first motion of a command of path data, read from its letter and
  the number of its parameters.

## Main statements

* `Toolpath.positioned_iff` — the first motion decides whether all cuts have a rapid before them.
* `Network.opening?_trace`, `opening?_tracePathData` — how networks and path data begin.
-/

namespace LaserPath

/-- The first motion of a toolpath. -/
inductive Opening where
  | rapid
  | cut
  deriving DecidableEq, Repr

/-- The motion of a command, if it is one. -/
def Command.opening? : Command → Option Opening
  | .rapid _ _ => some .rapid
  | .cut _ => some .cut
  | _ => none

/-- The first result in a list put together from pieces is that of the first piece that has
one. -/
theorem findSome?_flatMap {α β γ : Type} (f : α → List β) (g : β → Option γ) (l : List α) :
    (l.flatMap f).findSome? g = l.findSome? fun a => (f a).findSome? g := by
  induction l with
  | nil => rfl
  | cons a rest ih =>
    rw [List.flatMap_cons, List.findSome?_append, ih, List.findSome?_cons]
    cases (f a).findSome? g <;> rfl

theorem findSome?_congr {α β : Type} {f g : α → Option β} {l : List α}
    (h : ∀ a ∈ l, f a = g a) : l.findSome? f = l.findSome? g := by
  induction l with
  | nil => rfl
  | cons a rest ih =>
    rw [List.forall_mem_cons] at h
    rw [List.findSome?_cons, List.findSome?_cons, h.1, ih h.2]

namespace Toolpath

/-- The first motion. -/
def opening? (t : Toolpath) : Option Opening := t.findSome? Command.opening?

/-- Every cut has a rapid somewhere before it. -/
def Positioned (t : Toolpath) : Prop :=
  ∀ before cut after, t = before ++ .cut cut :: after →
    ∃ target feedRate?, .rapid target feedRate? ∈ before

@[simp] theorem opening?_nil : opening? [] = none := rfl

@[simp] theorem opening?_append (s t : Toolpath) :
    opening? (s ++ t) = (opening? s).or (opening? t) :=
  List.findSome?_append

@[simp] theorem opening?_comment_cons (text : String) (t : Toolpath) :
    opening? (.comment text :: t) = opening? t :=
  rfl

@[simp] theorem opening?_rapid_cons (target : Point) (feedRate? : Option Float) (t : Toolpath) :
    opening? (.rapid target feedRate? :: t) = some .rapid :=
  rfl

@[simp] theorem opening?_cut_cons (cut : Cut) (t : Toolpath) :
    opening? (.cut cut :: t) = some .cut :=
  rfl

/-- A toolpath put together from pieces begins as the first piece that moves the head. -/
theorem opening?_flatMap {α : Type} (f : α → Toolpath) (l : List α) :
    opening? (l.flatMap f) = l.findSome? fun a => opening? (f a) :=
  findSome?_flatMap f Command.opening? l

/-- The first motion decides whether all cuts have a rapid before them. -/
theorem positioned_iff (t : Toolpath) : t.Positioned ↔ t.opening? ≠ some .cut := by
  constructor
  · intro h hc
    obtain ⟨before, c, after, rfl, ho, hn⟩ := List.findSome?_eq_some_iff.1 hc
    cases c with
    | cut cut =>
      obtain ⟨target, feedRate?, hm⟩ := h before cut after rfl
      exact absurd (hn _ hm) (by simp [Command.opening?])
    | _ => simp [Command.opening?] at ho
  · rintro h before cut after rfl
    have hb : opening? before = some .rapid := by
      rw [opening?_append, opening?_cut_cons] at h
      cases hb : opening? before with
      | none => simp [hb] at h
      | some o =>
        cases o with
        | rapid => rfl
        | cut => simp [hb] at h
    obtain ⟨c, hm, hc⟩ := List.exists_of_findSome?_eq_some hb
    cases c with
    | rapid target feedRate? => exact ⟨target, feedRate?, hm⟩
    | _ => simp [Command.opening?] at hc

end Toolpath

open Toolpath

section Tracers

variable (s : LaserSettings)

theorem LaserSettings.opening?_traceEllipse (anchor : Point) (width height : Float) :
    opening? (s.traceEllipse anchor width height) = some .rapid := by
  unfold traceEllipse
  dsimp only
  split <;> rfl

/-- A curve is cut from where the pen is. -/
theorem LaserSettings.opening?_traceCubic (curve : Cubic) :
    opening? (s.traceCubic curve) = some .cut := by
  unfold traceCubic
  split <;> rfl

/-- A network that has segments begins with the rapid to its first chain. -/
theorem Network.opening?_trace {n : Network} {anchor : Point} {t : Toolpath}
    (hn : n.isEmpty = false) (h : n.trace s anchor = .ok t) : opening? t = some .rapid := by
  unfold trace at h
  split at h
  · simp at h
  · obtain rfl := Except.ok.inj h
    cases hs : n.segments with
    | nil => simp [isEmpty, hs] at hn
    | cons segment rest =>
      rw [linkChains, List.zipIdx_cons, cutChains, List.flatMap_cons, opening?_append]
      rfl

namespace PathCommand

/-- The first motion of a command: a command with enough numbers moves the head, and only `M`
does so with the beam off. -/
def opening? (c : PathCommand) : Option Opening :=
  match c.letter.toUpper with
  | 'M' => if 2 ≤ c.params.length then some .rapid else none
  | 'L' => if 2 ≤ c.params.length then some .cut else none
  | 'H' | 'V' => if 1 ≤ c.params.length then some .cut else none
  | 'C' => if 6 ≤ c.params.length then some .cut else none
  | 'Z' => some .cut
  | _ => none

theorem opening?_traceLines (anchor : Point) (relative : Bool) (current : Point)
    (params : List Float) :
    Toolpath.opening? (traceLines s anchor relative current params).2 =
      if 2 ≤ params.length then some .cut else none := by
  cases params with
  | nil => rfl
  | cons x rest =>
    cases rest with
    | nil => rfl
    | cons y rest =>
      rw [if_pos (by simp)]
      rfl

theorem opening?_traceCurves (anchor : Point) (relative : Bool) (current : Point)
    (params : List Float) :
    Toolpath.opening? (traceCurves s anchor relative current params).2 =
      if 6 ≤ params.length then some .cut else none := by
  unfold traceCurves
  split
  · rw [if_pos (by simp), Toolpath.opening?_append, LaserSettings.opening?_traceCubic]
    rfl
  · next h =>
    rw [if_neg]
    · rfl
    · intro hl
      match params, hl with
      | x₁ :: y₁ :: x₂ :: y₂ :: x :: y :: rest, _ => exact h _ _ _ _ _ _ _ rfl

/-- The letters that are traced, each for itself, and all others. -/
theorem upper_cases (upper : Char) : upper = 'M' ∨ upper = 'L' ∨ upper = 'H' ∨ upper = 'V' ∨
    upper = 'C' ∨ upper = 'Z' ∨ upper ∉ ['M', 'L', 'H', 'V', 'C', 'Z'] := by
  simp only [List.mem_cons, List.not_mem_nil, or_false]
  grind

/-- The motions of a command begin as its letter and the number of its parameters say. -/
theorem opening?_trace (anchor : Point) (state : PathState) (c : PathCommand) :
    Toolpath.opening? (trace s anchor state c).2 = c.opening? := by
  obtain ⟨letter, params⟩ := c
  unfold trace PathCommand.opening?
  dsimp only
  generalize letter.toUpper = upper
  obtain rfl | rfl | rfl | rfl | rfl | rfl | hother := upper_cases upper
  · rcases params with _ | ⟨x, _ | ⟨y, rest⟩⟩ <;> rfl
  · exact opening?_traceLines s anchor _ _ params
  · rcases params with _ | ⟨x, rest⟩ <;> rfl
  · rcases params with _ | ⟨y, rest⟩ <;> rfl
  · exact opening?_traceCurves s anchor _ _ params
  · rfl
  · simp_all

theorem opening?_traceAll (anchor : Point) (state : PathState) (commands : List PathCommand) :
    Toolpath.opening? (traceAll s anchor state commands) = commands.findSome? opening? := by
  induction commands generalizing state with
  | nil => rfl
  | cons c rest ih =>
    rw [traceAll, Toolpath.opening?_append, opening?_trace, ih, List.findSome?_cons]
    cases c.opening? <;> rfl

end PathCommand

theorem opening?_tracePathData (anchor : Point) (data : String) :
    opening? (tracePathData s anchor data) =
      (PathCommand.ofData data).findSome? PathCommand.opening? :=
  PathCommand.opening?_traceAll s anchor _ _

end Tracers

end LaserPath
