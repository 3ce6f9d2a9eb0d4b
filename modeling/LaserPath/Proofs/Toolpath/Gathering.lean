import LaserPath.Proofs.Toolpath.Edges
import LaserPath.Proofs.Toolpath.Runs
import Mathlib.Data.List.Induction

/-!
# Which toolpaths can be reversed

A toolpath can be reversed when every cut in it directly follows a motion and no command frames a
program. Its runs can then be gathered from the first command on: comments wait for the rapid that
they stand in front of, a rapid begins a run, and a cut goes on with the last one. Walking such a
run backwards, command by command, may fail in several places, but does so for no run that has been
gathered.

## Main definitions

* `Toolpath.Connected` — every cut directly follows a motion, and nothing frames a program.
* `Toolpath.retraced?` — the commands of a run, walked backwards.
* `Gathered`, `gather?` — the runs of a toolpath, gathered from its first command on.

## Main statements

* `exists_take?_eq`, `take?_eq_none` — one more command is gathered, or refused.
* `gather?_cases` — what is gathered from a whole toolpath.
* `Toolpath.isSome_reversed?_iff_connected` — which toolpaths can be reversed.
-/

namespace LaserPath

/-- Every cut directly follows a motion, and no command frames a program. -/
structure Toolpath.Connected (t : Toolpath) : Prop where
  unframed : ∀ c ∈ t, c.kind ≠ .framing
  follows : ∀ before cut after, t = before ++ .cut cut :: after →
    before.getLast?.any Command.isMotion = true

namespace Command

/-- The feed rate of a rapid, which may be left to the machine. -/
def rapidRate? : Command → Option (Option Float)
  | .rapid _ feedRate? => some feedRate?
  | _ => none

/-- A cut back to `pen`. -/
def back? (pen : Point) : Command → Option Command
  | .cut c => some (.cut (c.back pen))
  | _ => none

end Command

/-- The commands of a run, walked backwards. There is no such walk without a first command, if that
is no rapid, and if another one does not cut. -/
def Toolpath.retraced? : Toolpath → Option Toolpath
  | [] => none
  | first :: moves => do
    let feedRate? ← first.rapidRate?
    let start ← first.endpoint?
    let ends ← moves.mapM Command.endpoint?
    let last ← (start :: ends).getLast?
    let back ← ((start :: ends).zip moves).reverse.mapM fun (pen, c) => c.back? pen
    return .rapid last feedRate? :: back

/-- What has been gathered of a toolpath. -/
structure Gathered where
  /-- The comments in front of the first rapid, once it has been read. -/
  front : Toolpath
  /-- The commands of each run, with the comments in front of it. -/
  runs : List (Toolpath × Toolpath)
  /-- The comments that wait for a rapid. -/
  pending : Toolpath
  deriving DecidableEq

namespace Gathered

/-- Gathers one more command. -/
def take? (g : Gathered) (c : Command) : Option Gathered :=
  match c with
  | .comment _ => some { g with pending := g.pending ++ [c] }
  | .rapid _ _ =>
    if g.runs.isEmpty then some ⟨g.pending, [([], [c])], []⟩
    else some ⟨g.front, g.runs ++ [(g.pending, [c])], []⟩
  | .cut _ =>
    if g.pending.isEmpty then
      g.runs.getLast?.map fun (notes, run) =>
        { g with runs := g.runs.dropLast ++ [(notes, run ++ [c])] }
    else none
  | _ => none

/-- The gathered runs in the opposite order, each walked backwards. -/
def reversed? (g : Gathered) : Option Toolpath := do
  let back ← g.runs.reverse.mapM fun (notes, run) => run.retraced?.map (notes ++ ·)
  return g.front ++ back.flatten ++ g.pending

end Gathered

/-- The runs of a toolpath, gathered from its first command on. -/
def gather? (t : Toolpath) : Option Gathered := t.foldlM Gathered.take? ⟨[], [], []⟩

/-! ## Connected toolpaths -/

namespace Toolpath

theorem connected_nil : Connected [] where
  unframed := by simp
  follows := by simp

/-- A command may follow a connected toolpath unless it frames a program or is a cut behind no
motion. -/
theorem connected_concat_iff {t : Toolpath} {c : Command} :
    Connected (t ++ [c]) ↔ Connected t ∧ c.kind ≠ .framing ∧
      ∀ cut, c = .cut cut → t.getLast?.any Command.isMotion = true := by
  constructor
  · rintro ⟨hu, hf⟩
    rw [List.forall_mem_append, List.forall_mem_singleton] at hu
    refine ⟨⟨hu.1, ?_⟩, hu.2, ?_⟩
    · intro before cut after ht
      exact hf before cut (after ++ [c]) (by simp [ht])
    · rintro cut rfl
      exact hf t cut [] rfl
  · rintro ⟨⟨hu, hf⟩, hk, hc⟩
    refine ⟨List.forall_mem_append.2 ⟨hu, List.forall_mem_singleton.2 hk⟩, ?_⟩
    intro before cut after ht
    rcases after.eq_nil_or_concat' with rfl | ⟨init, last, rfl⟩
    · obtain ⟨rfl, hlast⟩ := List.append_inj' ht rfl
      exact hc cut (List.singleton_inj.1 hlast)
    · rw [← List.cons_append, ← List.append_assoc] at ht
      exact hf before cut init (List.append_inj' ht rfl).1

theorem connected_append {s t : Toolpath} (hs : Connected s) (ht : Connected t) :
    Connected (s ++ t) := by
  induction t using List.reverseRecOn with
  | nil => rwa [List.append_nil]
  | append_singleton t c ih =>
    obtain ⟨ht, hk, hc⟩ := connected_concat_iff.1 ht
    rw [← List.append_assoc, connected_concat_iff]
    refine ⟨ih ht, hk, fun cut hcut => ?_⟩
    have hlast := hc cut hcut
    rw [List.getLast?_append]
    cases h : t.getLast? with
    | none => simp [h] at hlast
    | some last => rwa [h] at hlast

theorem connected_flatMap {α : Type} {f : α → Toolpath} (l : List α) (h : ∀ a, Connected (f a)) :
    Connected (l.flatMap f) := by
  induction l with
  | nil => exact connected_nil
  | cons a rest ih => exact connected_append (h a) ih

theorem connected_comments (texts : List String) : Connected (texts.map .comment) := by
  induction texts using List.reverseRecOn with
  | nil => exact connected_nil
  | append_singleton texts text ih =>
    rw [List.map_append, List.map_singleton, connected_concat_iff]
    exact ⟨ih, by simp, by simp⟩

/-- The motions of a run follow each other. -/
theorem connected_run (target : Point) (feedRate? : Option Float) (cuts : List Cut) :
    Connected (.rapid target feedRate? :: cuts.map .cut) := by
  induction cuts using List.reverseRecOn with
  | nil => exact connected_concat_iff.2 ⟨connected_nil, by simp, by simp⟩
  | append_singleton cuts cut ih =>
    rw [List.map_append, List.map_singleton, ← List.cons_append, connected_concat_iff]
    refine ⟨ih, ?_, fun _ _ => ?_⟩
    · rcases Command.kind_cut cut with h | h <;> simp [h]
    · rcases cuts.eq_nil_or_concat' with rfl | ⟨init, last, rfl⟩
      · rfl
      · rw [List.map_append, List.map_singleton, ← List.cons_append, List.getLast?_concat]
        rfl

/-- The commands of runs are connected. -/
theorem connected_toolpath (r : Runs) : Connected r.toolpath := by
  refine connected_append (connected_append (connected_comments _) ?_) (connected_comments _)
  refine connected_flatMap r.runs fun run => ?_
  exact connected_append (connected_comments _) (connected_run _ _ _)

end Toolpath

/-! ## Runs and what is gathered of them -/

namespace Run

/-- The commands of a run without the comments in front. -/
def motions (r : Run) : Toolpath := .rapid r.start r.feedRate? :: r.cuts.map .cut

end Run

theorem retrace_eq (pen : Point) (cuts done : List Cut) : retrace pen cuts done =
    ((pen :: cuts.map Cut.target).getLast (List.cons_ne_nil _ _),
      (((pen :: cuts.map Cut.target).zip cuts).map fun (p, c) => c.back p).reverse ++ done) := by
  induction cuts generalizing pen done with
  | nil => rfl
  | cons c rest ih => rw [retrace, ih]; simp

/-- The walk back through the commands of a run does not fail. -/
theorem Run.retraced?_motions (r : Run) : r.motions.retraced? = some r.reversed.motions := by
  have hends : (r.cuts.map Command.cut).mapM Command.endpoint? = some (r.cuts.map Cut.target) :=
    List.mapM_map.trans List.mapM_pure
  have hback : ((r.start :: r.cuts.map Cut.target).zip (r.cuts.map Command.cut)).reverse.mapM
      (fun (pen, c) => Command.back? pen c) =
        some ((((r.start :: r.cuts.map Cut.target).zip r.cuts).map
          fun (p, c) => Command.cut (c.back p)).reverse) := by
    rw [List.zip_map_right, ← List.map_reverse, List.mapM_map, ← List.map_reverse]
    exact List.mapM_pure
  have hlast := List.getLast?_eq_some_getLast (List.cons_ne_nil r.start (r.cuts.map Cut.target))
  simp [motions, Toolpath.retraced?, Command.rapidRate?, Command.endpoint?, hends, hback, hlast,
    reversed, retrace_eq]

namespace Runs

/-- What is gathered from the commands of settled runs. -/
def gathered (r : Runs) : Gathered :=
  match r.runs with
  | [] => ⟨[], [], r.before.map .comment⟩
  | _ :: _ => ⟨r.before.map .comment, r.runs.map fun run => (run.notes.map .comment, run.motions),
      r.after.map .comment⟩

theorem gathered_of_ne_nil {runs : List Run} (h : runs ≠ []) (before after : List String) :
    gathered ⟨before, runs, after⟩ =
      ⟨before.map .comment, runs.map fun run => (run.notes.map .comment, run.motions),
        after.map .comment⟩ := by
  cases runs with
  | nil => contradiction
  | cons first others => rfl

/-- The gathered runs are those that the reversed toolpath is made of. -/
theorem reversed?_gathered {r : Runs} (hr : r.settle = r) :
    r.gathered.reversed? = some r.reversed.toolpath := by
  obtain ⟨before, runs, after⟩ := r
  by_cases h : runs = []
  · obtain rfl : after = [] := (settle_eq_iff.1 hr).2 h
    simp [gathered, h, Gathered.reversed?, reversed, toolpath]
  · have hback : (runs.map fun run => ((run.notes.map Command.comment, run.motions) :
        Toolpath × Toolpath)).reverse.mapM (fun (notes, run) => run.retraced?.map (notes ++ ·)) =
          some ((runs.map Run.reversed).reverse.map Run.toolpath) := by
      rw [← List.map_reverse, List.mapM_map, ← List.map_reverse, List.map_map]
      simp only [Function.comp_def, Run.retraced?_motions]
      exact List.mapM_pure
    rw [gathered_of_ne_nil h, Gathered.reversed?, hback, reversed, toolpath, List.flatMap_def]
    rfl

theorem exists_run_of_mem_gathered {r : Runs} {part : Toolpath × Toolpath}
    (h : part ∈ r.gathered.runs) :
    ∃ run ∈ r.runs, (run.notes.map .comment, run.motions) = part := by
  obtain ⟨before, runs, after⟩ := r
  cases runs with
  | nil => simp [gathered] at h
  | cons first others => exact List.mem_map.1 h

/-- A toolpath ends in a motion if and only if it has runs and no comment behind the last one. -/
theorem any_getLast?_toolpath_iff {r : Runs} :
    r.toolpath.getLast?.any Command.isMotion = true ↔ r.runs ≠ [] ∧ r.after = [] := by
  have hcomment (text : String) : (Command.comment text).isMotion = false := rfl
  obtain ⟨before, runs, after⟩ := r
  rcases after.eq_nil_or_concat' with rfl | ⟨texts, text, rfl⟩
  · rcases runs.eq_nil_or_concat' with rfl | ⟨others, last, rfl⟩
    · rcases before.eq_nil_or_concat' with rfl | ⟨texts, text, rfl⟩ <;> simp [toolpath, hcomment]
    · obtain ⟨t, c, ht, hc⟩ := last.exists_toolpath_eq
      simp [toolpath, ht, hc]
  · simp [toolpath, hcomment]

end Runs

/-! ## One command and all of them -/

/-- The commands gathered so far are those of settled runs. -/
def Gathered.Holds (g : Gathered) (t : Toolpath) : Prop :=
  ∃ r : Runs, r.settle = r ∧ r.toolpath = t ∧ r.gathered = g

namespace Gathered.Holds

open Runs

variable {g : Gathered} {t : Toolpath}

theorem start : Holds ⟨[], [], []⟩ [] := ⟨⟨[], [], []⟩, rfl, rfl, rfl⟩

/-- A comment waits. -/
theorem comment (h : g.Holds t) (text : String) :
    ∃ g', g.take? (.comment text) = some g' ∧ g'.Holds (t ++ [.comment text]) := by
  obtain ⟨⟨before, runs, after⟩, hr, rfl, rfl⟩ := h
  obtain ⟨hfirst, hafter⟩ := settle_eq_iff.1 hr
  by_cases hruns : runs = []
  · obtain rfl : after = [] := hafter hruns
    subst hruns
    refine ⟨_, ?_, ⟨before ++ [text], [], []⟩, ?_, ?_, rfl⟩
    · simp [gathered, take?]
    · simp
    · simp [toolpath]
  · refine ⟨_, ?_, ⟨before, runs, after ++ [text]⟩, settle_eq_iff.2 ⟨hfirst, ?_⟩, ?_, rfl⟩
    · simp [gathered_of_ne_nil hruns, take?]
    · exact fun hnil => absurd hnil hruns
    · simp [toolpath]

/-- A rapid begins a run and takes the comments that have waited. -/
theorem rapid (h : g.Holds t) (target : Point) (feedRate? : Option Float) :
    ∃ g', g.take? (.rapid target feedRate?) = some g' ∧
      g'.Holds (t ++ [.rapid target feedRate?]) := by
  obtain ⟨⟨before, runs, after⟩, hr, rfl, rfl⟩ := h
  obtain ⟨hfirst, hafter⟩ := settle_eq_iff.1 hr
  by_cases hruns : runs = []
  · obtain rfl : after = [] := hafter hruns
    subst hruns
    refine ⟨_, ?_, ⟨before, [⟨[], target, feedRate?, []⟩], []⟩, ?_, ?_, rfl⟩
    · simp [gathered, take?, Run.motions]
    · simp
    · simp [toolpath, Run.toolpath]
  · have hne : runs ++ [⟨after, target, feedRate?, []⟩] ≠ [] := by simp
    refine ⟨_, ?_, ⟨before, runs ++ [⟨after, target, feedRate?, []⟩], []⟩,
      settle_eq_iff.2 ⟨?_, fun _ => rfl⟩, ?_, rfl⟩
    · simp [gathered_of_ne_nil hruns, gathered_of_ne_nil hne, take?, hruns, Run.motions]
    · simpa [List.head?_append_of_ne_nil _ hruns] using hfirst
    · simp [toolpath, Run.toolpath]

/-- A cut goes on with the last run. -/
theorem cut (h : g.Holds t) (ht : t.getLast?.any Command.isMotion = true) (cut : Cut) :
    ∃ g', g.take? (.cut cut) = some g' ∧ g'.Holds (t ++ [.cut cut]) := by
  obtain ⟨⟨before, runs, after⟩, hr, rfl, rfl⟩ := h
  obtain ⟨hruns, rfl⟩ := any_getLast?_toolpath_iff.1 ht
  obtain ⟨others, last, rfl⟩ := runs.eq_nil_or_concat'.resolve_left hruns
  obtain ⟨hfirst, -⟩ := settle_eq_iff.1 hr
  have hne : others ++ [{ last with cuts := last.cuts ++ [cut] }] ≠ [] := by simp
  refine ⟨_, ?_, ⟨before, others ++ [{ last with cuts := last.cuts ++ [cut] }], []⟩,
    settle_eq_iff.2 ⟨?_, fun _ => rfl⟩, ?_, rfl⟩
  · simp [gathered_of_ne_nil hruns, gathered_of_ne_nil hne, take?, Run.motions]
  · cases others <;> simpa using hfirst
  · simp [toolpath, Run.toolpath]

/-- A command that may follow what has been gathered is gathered. -/
theorem exists_take?_eq (h : g.Holds t) {c : Command} (hk : c.kind ≠ .framing)
    (hc : ∀ cut, c = .cut cut → t.getLast?.any Command.isMotion = true) :
    ∃ g', g.take? c = some g' ∧ g'.Holds (t ++ [c]) := by
  cases c with
  | comment text => exact h.comment text
  | rapid target feedRate? => exact h.rapid target feedRate?
  | cut cut => exact h.cut (hc cut rfl) cut
  | _ => exact absurd rfl hk

/-- Every other one is refused: a cut behind a comment or behind nothing, and what frames a
program. -/
theorem take?_eq_none (h : g.Holds t) {c : Command} (hc : c.kind ≠ .framing →
      ¬ ∀ cut, c = .cut cut → t.getLast?.any Command.isMotion = true) : g.take? c = none := by
  cases c with
  | comment text => simp at hc
  | rapid target feedRate? => simp at hc
  | cut cut =>
    have hlast : ¬ t.getLast?.any Command.isMotion = true := by
      intro hlast
      refine hc ?_ fun _ _ => hlast
      rcases Command.kind_cut cut with h | h <;> simp [h]
    obtain ⟨⟨before, runs, after⟩, hr, rfl, rfl⟩ := h
    rw [any_getLast?_toolpath_iff, not_and_or, not_not] at hlast
    by_cases hruns : runs = []
    · simp [hruns, gathered, take?]
    · have hafter : after ≠ [] := hlast.resolve_left hruns
      simp [gathered_of_ne_nil hruns, take?, hafter]
  | _ => rfl

end Gathered.Holds

theorem gather?_concat (t : Toolpath) (c : Command) :
    gather? (t ++ [c]) = (gather? t).bind (·.take? c) := by
  rw [gather?, List.foldlM_append, ← gather?]
  simp

/-- Of a connected toolpath all is gathered, and of any other one nothing. -/
theorem gather?_cases (t : Toolpath) :
    (t.Connected ∧ ∃ g, gather? t = some g ∧ g.Holds t) ∨ (¬ t.Connected ∧ gather? t = none) := by
  induction t using List.reverseRecOn with
  | nil => exact .inl ⟨Toolpath.connected_nil, _, rfl, .start⟩
  | append_singleton t c ih =>
    rw [Toolpath.connected_concat_iff, gather?_concat]
    rcases ih with ⟨ht, g, hg, hh⟩ | ⟨ht, hg⟩
    · rw [hg, Option.bind_some]
      by_cases hc : c.kind ≠ .framing ∧
          ∀ cut, c = .cut cut → t.getLast?.any Command.isMotion = true
      · exact .inl ⟨⟨ht, hc⟩, hh.exists_take?_eq hc.1 hc.2⟩
      · exact .inr ⟨fun h => hc h.2, hh.take?_eq_none (not_and.1 hc)⟩
    · rw [hg]
      exact .inr ⟨fun h => ht h.1, rfl⟩

/-- The runs that are gathered from the first command on make up the reversed toolpath. -/
theorem gather?_bind_reversed? (t : Toolpath) :
    (gather? t).bind Gathered.reversed? = t.reversed? := by
  rcases gather?_cases t with ⟨-, g, hg, r, hr, rfl, rfl⟩ | ⟨ht, hg⟩
  · rw [hg, Option.bind_some, Runs.reversed?_gathered hr, Toolpath.reversed?_toolpath, hr]
  · have hnone : t.reversed? = none := by
      rw [Option.eq_none_iff_forall_ne_some]
      intro u hu
      obtain ⟨r, rfl, -⟩ := Toolpath.exists_runs_of_reversed? hu
      exact ht (Toolpath.connected_toolpath r)
    rw [hg, hnone, Option.bind_none]

namespace Toolpath

theorem map_comments {t : Toolpath} (h : ∀ c ∈ t, c.kind = .comment) :
    t.comments.map .comment = t := by
  induction t with
  | nil => rfl
  | cons c rest ih =>
    obtain ⟨hc, hrest⟩ := List.forall_mem_cons.1 h
    cases c with
    | comment text => rw [comments_comment_cons, List.map_cons, ih hrest]
    | cut cut => rcases Command.kind_cut cut with hk | hk <;> simp [hk] at hc
    | _ => cases hc

/-- Comments stay where they are. -/
theorem reversed?_of_comments {t : Toolpath} (h : ∀ c ∈ t, c.kind = .comment) :
    t.reversed? = some t := by
  have hruns := reversed?_toolpath ⟨t.comments, [], []⟩
  simpa [Runs.toolpath, Runs.reversed, map_comments h] using hruns

/-- A toolpath can be reversed if and only if it is connected. One that has comments only, if any
commands, is its own reverse. The reverse is that of the runs that are gathered, and the walk back
fails for none of them. -/
theorem isSome_reversed?_iff_connected (t : Toolpath) :
    (t.reversed?.isSome = true ↔ t.Connected) ∧
      ((∀ c ∈ t, c.kind = .comment) → t.reversed? = some t) ∧
      t.reversed? = (gather? t).bind Gathered.reversed? ∧
      ∀ g ∈ gather? t, ∀ run ∈ g.runs, run.2.retraced?.isSome = true := by
  refine ⟨?_, reversed?_of_comments, (gather?_bind_reversed? t).symm, ?_⟩
  · rw [← gather?_bind_reversed? t]
    rcases gather?_cases t with ⟨ht, g, hg, r, hr, -, rfl⟩ | ⟨ht, hg⟩
    · simp [hg, ht, Runs.reversed?_gathered hr]
    · simp [hg, ht]
  · intro g hg run hrun
    rcases gather?_cases t with ⟨-, g', hg', r, -, -, rfl⟩ | ⟨-, hg'⟩
    · obtain rfl := Option.some.inj (hg'.symm.trans hg)
      obtain ⟨r', -, rfl⟩ := Runs.exists_run_of_mem_gathered hrun
      rw [r'.retraced?_motions, Option.isSome_some]
    · simp [hg'] at hg

end Toolpath

end LaserPath
