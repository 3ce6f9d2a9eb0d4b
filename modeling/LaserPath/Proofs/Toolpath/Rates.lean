import LaserPath.Toolpath.Reversal

/-!
# Toolpaths at other rates

The rates and the power of a motion can be replaced. Where the motion ends stays as it is, and
reversing a toolpath reads nothing else, so a toolpath can be reversed before or after it is set
to other rates.

## Main definitions

* `Command.atRates`, `Toolpath.atRates` — a command and a toolpath at the rates and the power of
  the settings.

## Main statements

* `Toolpath.reversed?_atRates` — a toolpath at other rates is reversed to the reversed toolpath at
  these rates.
-/

namespace LaserPath

def Cut.atRates (s : LaserSettings) (c : Cut) : Cut :=
  { c with feedRate? := some s.feedRate, power? := some s.power }

/-- A rapid at the rapid rate and a cut at the feed rate and the power of the settings. -/
def Command.atRates (s : LaserSettings) : Command → Command
  | .rapid target _ => .rapid target (some s.rapidFeedRate)
  | .cut c => .cut (c.atRates s)
  | c => c

def Run.atRates (s : LaserSettings) (r : Run) : Run :=
  { r with feedRate? := some s.rapidFeedRate, cuts := r.cuts.map (Cut.atRates s) }

def Runs.atRates (s : LaserSettings) (r : Runs) : Runs :=
  { r with runs := r.runs.map (Run.atRates s) }

variable (s : LaserSettings)

namespace Command

@[simp] theorem atRates_comment (text : String) : (comment text).atRates s = comment text := rfl

@[simp] theorem atRates_rapid (target : Point) (feedRate? : Option Float) :
    (rapid target feedRate?).atRates s = rapid target (some s.rapidFeedRate) :=
  rfl

@[simp] theorem atRates_cut (c : Cut) : (cut c).atRates s = cut (c.atRates s) := rfl

@[simp] theorem endpoint?_atRates (c : Command) : (c.atRates s).endpoint? = c.endpoint? := by
  cases c <;> rfl

@[simp] theorem isMotion_atRates (c : Command) : (c.atRates s).isMotion = c.isMotion := by
  rw [isMotion, endpoint?_atRates, isMotion]

end Command

namespace Toolpath

/-- The toolpath with every command at the rates of the settings. -/
def atRates (t : Toolpath) : Toolpath := t.map (Command.atRates s)

@[simp] theorem atRates_nil : atRates s [] = [] := rfl

@[simp] theorem atRates_cons (c : Command) (t : Toolpath) :
    atRates s (c :: t) = c.atRates s :: atRates s t :=
  rfl

@[simp] theorem atRates_append (t u : Toolpath) :
    atRates s (t ++ u) = atRates s t ++ atRates s u :=
  List.map_append

@[simp] theorem atRates_flatMap {α : Type} (f : α → Toolpath) (l : List α) :
    atRates s (l.flatMap f) = l.flatMap fun a => atRates s (f a) :=
  List.map_flatMap ..

@[simp] theorem atRates_map {α : Type} (f : α → Command) (l : List α) :
    atRates s (l.map f) = l.map fun a => (f a).atRates s :=
  List.map_map

@[simp] theorem hasGeometry_atRates (t : Toolpath) :
    hasGeometry (atRates s t) = hasGeometry t := by
  simp [hasGeometry, atRates, Function.comp_def]

@[simp] theorem firstPoint?_atRates (t : Toolpath) :
    firstPoint? (atRates s t) = firstPoint? t := by
  simp [firstPoint?, atRates, List.findSome?_map, Function.comp_def]

@[simp] theorem lastPoint?_atRates (t : Toolpath) : lastPoint? (atRates s t) = lastPoint? t := by
  simp [lastPoint?, atRates, ← List.map_reverse, List.findSome?_map, Function.comp_def]

end Toolpath

open Toolpath

theorem retrace_atRates (pen : Point) (cuts done : List Cut) :
    retrace pen (cuts.map (Cut.atRates s)) (done.map (Cut.atRates s)) =
      ((retrace pen cuts done).1, (retrace pen cuts done).2.map (Cut.atRates s)) := by
  induction cuts generalizing pen done with
  | nil => rfl
  | cons c rest ih => exact ih c.target (c.back pen :: done)

namespace Run

theorem toolpath_atRates (r : Run) : (r.atRates s).toolpath = Toolpath.atRates s r.toolpath := by
  simp [toolpath, atRates]

theorem reversed_atRates (r : Run) : (r.atRates s).reversed = r.reversed.atRates s := by
  have h := retrace_atRates s r.start r.cuts []
  rw [List.map_nil] at h
  simp [reversed, atRates, h]

end Run

namespace Runs

theorem toolpath_atRates (r : Runs) :
    (r.atRates s).toolpath = Toolpath.atRates s r.toolpath := by
  simp [toolpath, atRates, Run.toolpath_atRates, List.flatMap_map]

theorem reversed_atRates (r : Runs) : (r.atRates s).reversed = r.reversed.atRates s := by
  simp [reversed, atRates, Run.reversed_atRates]

theorem push_atRates (start : Point) (feedRate? : Option Float) (cuts : List Cut) (r : Runs) :
    (r.atRates s).push start (some s.rapidFeedRate) (cuts.map (Cut.atRates s)) =
      (r.push start feedRate? cuts).atRates s := by
  obtain ⟨before, runs, after⟩ := r
  cases runs <;> rfl

/-- The runs of a toolpath at other rates are its runs at these rates. -/
theorem scan_atRates (t : Toolpath) :
    scan (Toolpath.atRates s t) =
      (scan t).map fun (cuts, runs) => (cuts.map (Cut.atRates s), runs.atRates s) := by
  induction t with
  | nil => rfl
  | cons c rest ih =>
    rw [Toolpath.atRates_cons]
    cases c with
    | comment text =>
      rw [Command.atRates_comment, scan, ih, scan]
      rcases scan rest with _ | ⟨_ | ⟨cut, cuts⟩, runs⟩ <;> rfl
    | cut cut =>
      rw [Command.atRates_cut, scan, ih, scan]
      cases scan rest <;> rfl
    | rapid target feedRate? =>
      rw [Command.atRates_rapid, scan, ih, scan]
      cases scan rest with
      | none => rfl
      | some found => exact congrArg (fun r => some ([], r)) (push_atRates s ..)
    | laserOn | laserOff | setup | endProgram => rfl

theorem ofToolpath?_atRates (t : Toolpath) :
    ofToolpath? (Toolpath.atRates s t) = (ofToolpath? t).map (Runs.atRates s) := by
  rw [ofToolpath?, scan_atRates, ofToolpath?]
  rcases scan t with _ | ⟨_ | ⟨cut, cuts⟩, runs⟩ <;> rfl

end Runs

/-- Reversing a toolpath does not read its rates. -/
theorem Toolpath.reversed?_atRates (t : Toolpath) :
    reversed? (atRates s t) = (reversed? t).map (atRates s) := by
  rw [reversed?, Runs.ofToolpath?_atRates, reversed?]
  cases Runs.ofToolpath? t with
  | none => rfl
  | some r =>
    simp only [Option.map_some]
    rw [Runs.reversed_atRates, Runs.toolpath_atRates]

end LaserPath
