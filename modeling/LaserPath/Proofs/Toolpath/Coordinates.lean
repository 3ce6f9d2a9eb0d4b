import LaserPath.Proofs.Toolpath.Reversal

/-!
# The coordinates of a toolpath

A motion is given by the point that it ends at and, along an arc, by the centre. A toolpath that
is traced backwards ends at the same points in the opposite order. Centres are offsets from the
start of a cut and change with it, so only a toolpath of straight motions keeps its coordinates.

## Main definitions

* `Command.coordinates`, `Toolpath.coordinates` — the numbers that give motions.
* `Command.IsStraight` — a command that follows no arc.
* `Toolpath.endpoints` — the points at which motions end.

## Main statements

* `Toolpath.endpoints_reversed?` — the end points of a reversed toolpath.
* `Toolpath.firstPoint?_reversed?`, `Toolpath.lastPoint?_reversed?` — the first and the last of
  them.
* `Toolpath.coordinates_reversed?` — the coordinates of a reversed toolpath that is straight.
-/

namespace LaserPath

/-- The two coordinates of a point. -/
def Point.coordinates (p : Point) : List Float := [p.x, p.y]

/-- The coordinates of the centre of an arc. -/
def Sweep.coordinates : Sweep → List Float
  | .straight => []
  | .arc centre _ => centre.coordinates

namespace Command

/-- The coordinates of a motion: the position, and the centre of an arc. -/
def coordinates : Command → List Float
  | .rapid target _ => target.coordinates
  | .cut c => c.target.coordinates ++ c.sweep.coordinates
  | _ => []

/-- The command follows no arc. -/
def IsStraight (c : Command) : Prop := ∀ cut, c = .cut cut → cut.sweep = .straight

theorem coordinates_eq_nil {c : Command} (h : c.isMotion = false) : c.coordinates = [] := by
  cases c with
  | rapid target feedRate? => simp [isMotion, endpoint?] at h
  | cut cut => simp [isMotion, endpoint?] at h
  | _ => rfl

end Command

theorem LaserSettings.Draws.isStraight {s : LaserSettings} {c : Command} (h : s.Draws c) :
    c.IsStraight := by
  intro cut hc
  cases h with
  | rapid target => cases hc
  | cut target =>
    obtain rfl := Command.cut.inj hc
    rfl

namespace Toolpath

/-- The coordinates of the motions. -/
def coordinates (t : Toolpath) : List Float := t.flatMap Command.coordinates

/-- The points at which the motions end, in order. -/
def endpoints (t : Toolpath) : List Point := t.filterMap Command.endpoint?

@[simp] theorem endpoints_append (s t : Toolpath) :
    endpoints (s ++ t) = endpoints s ++ endpoints t :=
  List.filterMap_append

@[simp] theorem endpoints_rapid_cons (target : Point) (feedRate? : Option Float) (t : Toolpath) :
    endpoints (.rapid target feedRate? :: t) = target :: endpoints t :=
  rfl

@[simp] theorem endpoints_map_comment (texts : List String) :
    endpoints (texts.map .comment) = [] := by
  induction texts with
  | nil => rfl
  | cons text rest ih => exact ih

@[simp] theorem endpoints_map_cut (cuts : List Cut) :
    endpoints (cuts.map .cut) = cuts.map Cut.target := by
  induction cuts with
  | nil => rfl
  | cons cut rest ih => exact congrArg (cut.target :: ·) ih

theorem endpoints_flatMap {α : Type} (f : α → Toolpath) (l : List α) :
    endpoints (l.flatMap f) = l.flatMap fun a => endpoints (f a) := by
  induction l with
  | nil => rfl
  | cons a rest ih => simp only [List.flatMap_cons, endpoints_append, ih]

theorem firstPoint?_eq_head? (t : Toolpath) : t.firstPoint? = t.endpoints.head? :=
  List.head?_filterMap.symm

theorem endpoints_reverse (t : Toolpath) : endpoints t.reverse = t.endpoints.reverse :=
  List.filterMap_reverse

theorem lastPoint?_eq_getLast? (t : Toolpath) : t.lastPoint? = t.endpoints.getLast? := by
  rw [← List.head?_reverse, ← endpoints_reverse]
  exact firstPoint?_eq_head? t.reverse

/-- A straight toolpath is given by its end points. -/
theorem coordinates_of_isStraight {t : Toolpath} (h : ∀ c ∈ t, c.IsStraight) :
    t.coordinates = t.endpoints.flatMap Point.coordinates := by
  induction t with
  | nil => rfl
  | cons c rest ih =>
    rw [List.forall_mem_cons] at h
    have hrest := ih h.2
    cases c with
    | rapid target feedRate? => exact congrArg (target.coordinates ++ ·) hrest
    | cut cut =>
      obtain ⟨target, sweep, feedRate?, power?⟩ := cut
      obtain rfl : sweep = .straight := h.1 _ rfl
      exact congrArg (target.coordinates ++ ·) hrest
    | _ => exact hrest

end Toolpath

open Toolpath

/-- The end points of a sequence of cuts traced backwards, behind those that are done. -/
theorem retrace_targets (pen : Point) (cuts done : List Cut) :
    (retrace pen cuts done).1 :: (retrace pen cuts done).2.map Cut.target =
      (cuts.map Cut.target).reverse ++ pen :: done.map Cut.target := by
  induction cuts generalizing pen done with
  | nil => rfl
  | cons c rest ih =>
    rw [retrace, ih, List.map_cons, List.map_cons, List.reverse_cons, List.append_assoc]
    rfl

namespace Run

theorem endpoints_toolpath (r : Run) :
    endpoints r.toolpath = r.start :: r.cuts.map Cut.target := by
  simp [toolpath]

theorem endpoints_reversed (r : Run) :
    endpoints r.reversed.toolpath = (endpoints r.toolpath).reverse := by
  rw [endpoints_toolpath, endpoints_toolpath, List.reverse_cons]
  exact retrace_targets r.start r.cuts []

end Run

namespace Runs

theorem endpoints_toolpath (r : Runs) :
    endpoints r.toolpath = r.runs.flatMap fun run => endpoints run.toolpath := by
  simp [toolpath, endpoints_flatMap]

theorem endpoints_reversed (r : Runs) :
    endpoints r.reversed.toolpath = (endpoints r.toolpath).reverse := by
  rw [endpoints_toolpath, endpoints_toolpath, reversed, List.reverse_flatMap, ← List.map_reverse,
    List.flatMap_map]
  congr 1
  funext run
  exact run.endpoints_reversed

end Runs

namespace Toolpath

variable {t u : Toolpath}

/-- A reversed toolpath ends at the same points in the opposite order. -/
theorem endpoints_reversed? (h : t.reversed? = some u) : u.endpoints = t.endpoints.reverse := by
  obtain ⟨r, rfl, rfl⟩ := exists_runs_of_reversed? h
  exact r.endpoints_reversed

theorem firstPoint?_reversed? (h : t.reversed? = some u) : u.firstPoint? = t.lastPoint? := by
  rw [firstPoint?_eq_head?, lastPoint?_eq_getLast?, endpoints_reversed? h, List.head?_reverse]

theorem lastPoint?_reversed? (h : t.reversed? = some u) : u.lastPoint? = t.firstPoint? := by
  rw [firstPoint?_eq_head?, lastPoint?_eq_getLast?, endpoints_reversed? h, List.getLast?_reverse]

theorem isStraight_reversed? (h : t.reversed? = some u) (ht : ∀ c ∈ t, c.IsStraight) :
    ∀ c ∈ u, c.IsStraight := by
  refine forall_mem_reversed? ?_ ?_ h ht
  · intro p p' feedRate? _ cut hc
    simp at hc
  · intro cut pen hc back hb
    obtain rfl := Command.cut.inj hb
    rw [Cut.back, hc cut rfl]
    rfl

/-- A straight toolpath keeps its coordinates when it is reversed. -/
theorem coordinates_reversed? (h : t.reversed? = some u) (ht : ∀ c ∈ t, c.IsStraight) :
    u.coordinates.Perm t.coordinates := by
  rw [coordinates_of_isStraight ht, coordinates_of_isStraight (isStraight_reversed? h ht),
    endpoints_reversed? h]
  exact t.endpoints.reverse_perm.flatMap_right _

end Toolpath

end LaserPath
