import LaserPath.Toolpath.Basic

/-!
# Reversal of toolpaths

A toolpath is a sequence of runs, each a rapid and the cuts behind it, with
comments between the runs. The reversed toolpath has the runs in the opposite
order, each traced backwards. Comments before the first run stay in front,
comments behind the last one stay at the end, and the comments in front of any
other run go with it.

## Main definitions

* `Run`, `Runs` — a toolpath as runs and comments.
* `Runs.ofToolpath?`, `Runs.toolpath` — to runs and back.
* `Toolpath.reversed?` — the reversed toolpath, if the toolpath is made of runs.

## Main statements

* `Runs.toolpath_of_ofToolpath?` — the runs of a toolpath make up the toolpath.
-/

namespace LaserPath

/-- The opposite way, from `target` back to `pen`: an arc keeps its centre and
turns the other way round. -/
def Sweep.back (pen target : Point) : Sweep → Sweep
  | .straight => .straight
  | .arc offset clockwise =>
    let centre := pen.shift offset
    .arc ⟨centre.x - target.x, centre.y - target.y⟩ (!clockwise)

/-- The cut from the end of `c` back to `pen`, where `c` starts. -/
def Cut.back (pen : Point) (c : Cut) : Cut :=
  { c with target := pen, sweep := c.sweep.back pen c.target }

/-- The end of a sequence of cuts that starts at `pen`, and the cuts back to
`pen` in front of those in `done`. -/
def retrace (pen : Point) (cuts done : List Cut) : Point × List Cut :=
  match cuts with
  | [] => (pen, done)
  | c :: rest => retrace c.target rest (c.back pen :: done)

/-- A rapid and the cuts behind it, with the comments in front. -/
structure Run where
  notes : List String
  start : Point
  feedRate? : Option Float
  cuts : List Cut
  deriving DecidableEq

namespace Run

/-- The commands of a run. -/
def toolpath (r : Run) : Toolpath :=
  r.notes.map .comment ++ .rapid r.start r.feedRate? :: r.cuts.map .cut

/-- The run traced backwards. -/
def reversed (r : Run) : Run :=
  let (start, cuts) := retrace r.start r.cuts []
  { r with start, cuts }

end Run

/-- Runs with the comments before the first and behind the last one. -/
structure Runs where
  before : List String
  runs : List Run
  after : List String
  deriving DecidableEq

namespace Runs

/-- The commands of runs and comments. -/
def toolpath (r : Runs) : Toolpath :=
  r.before.map .comment ++ r.runs.flatMap Run.toolpath ++ r.after.map .comment

/-- Puts a run in front. Comments that stood before the first run now stand
between two runs, or behind the only one. -/
def push (start : Point) (feedRate? : Option Float) (cuts : List Cut) (r : Runs) : Runs :=
  match r.runs with
  | [] => ⟨[], [⟨[], start, feedRate?, cuts⟩], r.before ++ r.after⟩
  | next :: others =>
    ⟨[], ⟨[], start, feedRate?, cuts⟩ :: { next with notes := r.before } :: others, r.after⟩

/-- The cuts at the head of a list of commands, which belong to a run that
starts before it, and the runs behind them. A comment in front of a cut and a
command that frames a program are refused. -/
def scan : List Command → Option (List Cut × Runs)
  | [] => some ([], ⟨[], [], []⟩)
  | .comment text :: rest =>
    match scan rest with
    | some ([], runs) => some ([], { runs with before := text :: runs.before })
    | _ => none
  | .cut c :: rest => (scan rest).map fun (cuts, runs) => (c :: cuts, runs)
  | .rapid target feedRate? :: rest =>
    (scan rest).map fun (cuts, runs) => ([], runs.push target feedRate? cuts)
  | _ => none

/-- The runs of a toolpath, unless a cut belongs to none. -/
def ofToolpath? (t : Toolpath) : Option Runs :=
  match scan t with
  | some ([], runs) => some runs
  | _ => none

/-- The runs in the opposite order, each traced backwards. -/
def reversed (r : Runs) : Runs := { r with runs := (r.runs.map Run.reversed).reverse }

/-- A run in front of runs that have no comments of their own before the first
is that run's commands in front of theirs. -/
theorem toolpath_push (start : Point) (feedRate? : Option Float) (cuts : List Cut) (r : Runs)
    (h : ∀ next ∈ r.runs.head?, next.notes = []) :
    (r.push start feedRate? cuts).toolpath =
      .rapid start feedRate? :: cuts.map .cut ++ r.toolpath := by
  obtain ⟨before, runs, after⟩ := r
  cases runs with
  | nil => simp [push, toolpath, Run.toolpath]
  | cons next others => simp_all [push, toolpath, Run.toolpath]

theorem notes_of_scan {t : List Command} {cuts : List Cut} {r : Runs}
    (h : scan t = some (cuts, r)) : ∀ next ∈ r.runs.head?, next.notes = [] := by
  fun_induction scan t generalizing cuts r with
  | case1 =>
    simp only [Option.some.injEq, Prod.mk.injEq] at h
    simp [← h.2]
  | case2 text rest runs heq ih =>
    simp only [Option.some.injEq, Prod.mk.injEq] at h
    simpa [← h.2] using ih heq
  | case3 => simp_all
  | case4 c rest ih =>
    simp only [Option.map_eq_some_iff, Prod.mk.injEq, Prod.exists] at h
    obtain ⟨cuts', runs, hs, _, rfl⟩ := h
    exact ih hs
  | case5 target feedRate? rest ih =>
    simp only [Option.map_eq_some_iff, Prod.mk.injEq, Prod.exists] at h
    obtain ⟨_, runs, _, _, rfl⟩ := h
    simp only [push]
    split <;> simp
  | case6 => simp_all

/-- What `scan` finds makes up the list of commands. -/
theorem toolpath_of_scan {t : List Command} {cuts : List Cut} {r : Runs}
    (h : scan t = some (cuts, r)) : cuts.map .cut ++ r.toolpath = t := by
  fun_induction scan t generalizing cuts r with
  | case1 =>
    simp only [Option.some.injEq, Prod.mk.injEq] at h
    obtain ⟨rfl, rfl⟩ := h
    simp [toolpath]
  | case2 text rest runs heq ih =>
    simp only [Option.some.injEq, Prod.mk.injEq] at h
    obtain ⟨rfl, rfl⟩ := h
    simpa [toolpath] using ih heq
  | case3 => simp_all
  | case4 c rest ih =>
    simp only [Option.map_eq_some_iff, Prod.mk.injEq, Prod.exists] at h
    obtain ⟨cuts', runs, hs, rfl, rfl⟩ := h
    simpa using ih hs
  | case5 target feedRate? rest ih =>
    simp only [Option.map_eq_some_iff, Prod.mk.injEq, Prod.exists] at h
    obtain ⟨cuts', runs, hs, rfl, rfl⟩ := h
    rw [toolpath_push _ _ _ _ (notes_of_scan hs)]
    simpa using ih hs
  | case6 => simp_all

/-- The runs of a toolpath make up the toolpath. -/
theorem toolpath_of_ofToolpath? {t : Toolpath} {r : Runs} (h : ofToolpath? t = some r) :
    r.toolpath = t := by
  unfold ofToolpath? at h
  split at h
  · next runs heq =>
    obtain rfl := Option.some.inj h
    simpa using toolpath_of_scan heq
  · simp at h

end Runs

/-- The same geometry traced in the opposite direction, if every cut belongs to
a run and no command frames a program. -/
def Toolpath.reversed? (t : Toolpath) : Option Toolpath :=
  (Runs.ofToolpath? t).map fun runs => runs.reversed.toolpath

end LaserPath
