import LaserPath.Toolpath.Reversal

/-!
# Runs found again

Several runs may make up the same commands: comments before the first rapid may belong to the first
run or stand before all runs, and where there is no run at all comments may stand before or behind
it. Among such runs those that a toolpath is taken apart into are settled, and every other one is
settled by moving these comments to the front.

## Main definitions

* `Runs.settle` — runs with all comments before the first rapid in front.

## Main statements

* `Runs.ofToolpath?_toolpath` — the runs found in the commands of runs are these runs, settled.
* `Toolpath.reversed?_toolpath` — the reversed toolpath of runs.
-/

namespace LaserPath

namespace Runs

/-- The same commands with all comments before the first rapid in front. -/
def settle (r : Runs) : Runs :=
  match r.runs with
  | [] => ⟨r.before ++ r.after, [], []⟩
  | first :: others => ⟨r.before ++ first.notes, { first with notes := [] } :: others, r.after⟩

@[simp] theorem settle_nil (before after : List String) :
    settle ⟨before, [], after⟩ = ⟨before ++ after, [], []⟩ :=
  rfl

@[simp] theorem settle_cons (before after : List String) (first : Run) (others : List Run) :
    settle ⟨before, first :: others, after⟩ =
      ⟨before ++ first.notes, { first with notes := [] } :: others, after⟩ :=
  rfl

theorem settle_eq_iff {r : Runs} : r.settle = r ↔
    (∀ first ∈ r.runs.head?, first.notes = []) ∧ (r.runs = [] → r.after = []) := by
  obtain ⟨before, runs, after⟩ := r
  cases runs with
  | nil => simp
  | cons first others =>
    obtain ⟨notes, start, feedRate?, cuts⟩ := first
    simp

/-! ## The scan of runs -/

theorem scan_comments {t : List Command} {r : Runs} (h : scan t = some ([], r))
    (texts : List String) :
    scan (texts.map .comment ++ t) = some ([], { r with before := texts ++ r.before }) := by
  induction texts with
  | nil => exact h
  | cons text rest ih => rw [List.map_cons, List.cons_append, scan, ih, List.cons_append]

theorem scan_cuts {t : List Command} {done : List Cut} {r : Runs} (h : scan t = some (done, r))
    (cuts : List Cut) : scan (cuts.map .cut ++ t) = some (cuts ++ done, r) := by
  induction cuts with
  | nil => exact h
  | cons c rest ih => rw [List.map_cons, List.cons_append, scan, ih, List.cons_append]; rfl

theorem scan_rapid {t : List Command} {cuts : List Cut} {r : Runs} (h : scan t = some (cuts, r))
    (target : Point) (feedRate? : Option Float) :
    scan (.rapid target feedRate? :: t) = some ([], r.push target feedRate? cuts) := by
  rw [scan, h, Option.map_some]

/-- A run that is put in front of settled runs takes back the comments of its own that the first
of them had. -/
theorem push_settle (start : Point) (feedRate? : Option Float) (cuts : List Cut)
    (runs : List Run) (after : List String) :
    (settle ⟨[], runs, after⟩).push start feedRate? cuts =
      ⟨[], ⟨[], start, feedRate?, cuts⟩ :: runs, after⟩ := by
  cases runs with
  | nil => simp [push]
  | cons next others => simp [push]

/-- What follows a run has no cut of that run any more. -/
theorem scan_flatMap (runs : List Run) (after : List String) :
    scan (runs.flatMap Run.toolpath ++ after.map .comment) =
      some ([], settle ⟨[], runs, after⟩) := by
  induction runs with
  | nil =>
    have h := scan_comments (t := []) rfl after
    simpa using h
  | cons first others ih =>
    have hcuts := scan_cuts ih first.cuts
    have hrun := scan_rapid hcuts first.start first.feedRate?
    have hnotes := scan_comments hrun first.notes
    simpa [Run.toolpath, push_settle] using hnotes

/-- The runs found in the commands of runs are these runs, settled. -/
theorem ofToolpath?_toolpath (r : Runs) : ofToolpath? r.toolpath = some r.settle := by
  obtain ⟨before, runs, after⟩ := r
  have h : scan (toolpath ⟨before, runs, after⟩) = some ([], settle ⟨before, runs, after⟩) := by
    rw [toolpath, List.append_assoc, scan_comments (scan_flatMap runs after)]
    cases runs <;> simp
  rw [ofToolpath?, h]

theorem ofToolpath?_eq_some_iff {t : Toolpath} {r : Runs} :
    ofToolpath? t = some r ↔ r.toolpath = t ∧ r.settle = r := by
  constructor
  · intro h
    obtain rfl := toolpath_of_ofToolpath? h
    exact ⟨rfl, Option.some.inj ((ofToolpath?_toolpath r).symm.trans h)⟩
  · rintro ⟨rfl, hr⟩
    rw [ofToolpath?_toolpath, hr]

@[simp] theorem toolpath_settle (r : Runs) : r.settle.toolpath = r.toolpath :=
  toolpath_of_ofToolpath? (ofToolpath?_toolpath r)

@[simp] theorem settle_settle (r : Runs) : r.settle.settle = r.settle :=
  (ofToolpath?_eq_some_iff.1 (ofToolpath?_toolpath r)).2

end Runs

/-- The reversed toolpath of runs. -/
theorem Toolpath.reversed?_toolpath (r : Runs) :
    reversed? r.toolpath = some r.settle.reversed.toolpath := by
  rw [reversed?, Runs.ofToolpath?_toolpath, Option.map_some]

end LaserPath
