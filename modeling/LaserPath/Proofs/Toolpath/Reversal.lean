import LaserPath.Proofs.Toolpath.Emission
import LaserPath.Route.Block
import Mathlib.Data.List.Perm.Basic

/-!
# What a reversed toolpath consists of

Reversing a toolpath moves its comments and its motions about. It writes no comment of its
own, and what it does to a motion leaves the rates and the power alone.

## Main definitions

* `Toolpath.comments` — the texts of the comments of a toolpath.

## Main statements

* `Toolpath.comments_reversed?` — the comments of a reversed toolpath are those of the toolpath.
* `Toolpath.emits_reversed?` — a reversed toolpath is emitted by the same settings.
-/

namespace LaserPath

/-- The text of a comment. -/
def Command.comment? : Command → Option String
  | .comment text => some text
  | _ => none

/-- The texts of the comments of a toolpath. -/
def Toolpath.comments (t : Toolpath) : List String := t.filterMap Command.comment?

namespace Toolpath

@[simp] theorem comments_nil : comments [] = [] := rfl

@[simp] theorem comments_append (s t : Toolpath) : comments (s ++ t) = comments s ++ comments t :=
  List.filterMap_append

@[simp] theorem comments_comment_cons (text : String) (t : Toolpath) :
    comments (.comment text :: t) = text :: comments t :=
  rfl

@[simp] theorem comments_rapid_cons (target : Point) (feedRate? : Option Float) (t : Toolpath) :
    comments (.rapid target feedRate? :: t) = comments t :=
  rfl

@[simp] theorem comments_cut_cons (cut : Cut) (t : Toolpath) :
    comments (.cut cut :: t) = comments t :=
  rfl

@[simp] theorem comments_map_comment (texts : List String) :
    comments (texts.map .comment) = texts := by
  induction texts with
  | nil => rfl
  | cons text rest ih => rw [List.map_cons, comments_comment_cons, ih]

@[simp] theorem comments_map_cut (cuts : List Cut) : comments (cuts.map .cut) = [] := by
  induction cuts with
  | nil => rfl
  | cons cut rest ih => rw [List.map_cons, comments_cut_cons, ih]

theorem comments_flatMap {α : Type} (f : α → Toolpath) (l : List α) :
    comments (l.flatMap f) = l.flatMap fun a => comments (f a) := by
  induction l with
  | nil => rfl
  | cons a rest ih => simp only [List.flatMap_cons, comments_append, ih]

theorem mem_comments {t : Toolpath} {text : String} :
    text ∈ t.comments ↔ .comment text ∈ t := by
  simp only [comments, List.mem_filterMap]
  constructor
  · rintro ⟨c, hc, ht⟩
    cases c with
    | comment other =>
      obtain rfl := Option.some.inj ht
      exact hc
    | _ => simp [Command.comment?] at ht
  · intro h
    exact ⟨_, h, rfl⟩

end Toolpath

open Toolpath

@[simp] theorem Run.comments_toolpath (r : Run) : comments r.toolpath = r.notes := by
  simp [Run.toolpath]

@[simp] theorem Run.notes_reversed (r : Run) : r.reversed.notes = r.notes := rfl

namespace Runs

theorem comments_toolpath (r : Runs) :
    comments r.toolpath = r.before ++ r.runs.flatMap Run.notes ++ r.after := by
  simp [toolpath, comments_flatMap]

/-- The runs change their places, and the comments in front of each go with it. -/
theorem comments_reversed (r : Runs) :
    (comments r.reversed.toolpath).Perm (comments r.toolpath) := by
  have hruns : ((r.runs.map Run.reversed).reverse.flatMap Run.notes).Perm
      (r.runs.flatMap Run.notes) := by
    refine ((r.runs.map Run.reversed).reverse_perm.flatMap_right _).trans ?_
    simp [List.flatMap_map]
  simp only [comments_toolpath, reversed]
  exact (hruns.append_left _).append_right _

end Runs

/-- A cut of a sequence traced backwards is a cut of that sequence, taken back. -/
theorem mem_retrace {pen : Point} {cuts done : List Cut} {c : Cut}
    (h : c ∈ (retrace pen cuts done).2) : c ∈ done ∨ ∃ c' ∈ cuts, ∃ p, c = c'.back p := by
  induction cuts generalizing pen done with
  | nil => exact .inl h
  | cons c' rest ih =>
    rcases ih h with hd | ⟨c'', hm, p, hp⟩
    · rcases List.mem_cons.1 hd with rfl | hd
      · exact .inr ⟨c', List.mem_cons_self, pen, rfl⟩
      · exact .inl hd
    · exact .inr ⟨c'', List.mem_cons_of_mem _ hm, p, hp⟩

section Passage

variable {P : Command → Prop}

theorem Run.forall_mem_toolpath {r : Run} :
    (∀ c ∈ r.toolpath, P c) ↔ (∀ text ∈ r.notes, P (.comment text)) ∧
      P (.rapid r.start r.feedRate?) ∧ ∀ c ∈ r.cuts, P (.cut c) := by
  simp only [toolpath, List.forall_mem_append, List.forall_mem_cons, List.forall_mem_map]

theorem Runs.forall_mem_toolpath {r : Runs} :
    (∀ c ∈ r.toolpath, P c) ↔ (∀ text ∈ r.before, P (.comment text)) ∧
      (∀ run ∈ r.runs, ∀ c ∈ run.toolpath, P c) ∧ ∀ text ∈ r.after, P (.comment text) := by
  simp only [toolpath, List.forall_mem_append, List.forall_mem_map, List.forall_mem_flatMap,
    and_assoc]

variable (hstart : ∀ p p' feedRate?, P (.rapid p feedRate?) → P (.rapid p' feedRate?))
  (hback : ∀ c pen, P (.cut c) → P (.cut (c.back pen)))

include hstart hback

theorem Run.forall_mem_reversed {r : Run} (h : ∀ c ∈ r.toolpath, P c) :
    ∀ c ∈ r.reversed.toolpath, P c := by
  obtain ⟨hn, hr, hc⟩ := forall_mem_toolpath.1 h
  refine forall_mem_toolpath.2 ⟨hn, hstart _ _ _ hr, fun c hm => ?_⟩
  rcases mem_retrace hm with hd | ⟨c', hm', p, rfl⟩
  · simp at hd
  · exact hback c' p (hc c' hm')

theorem Runs.forall_mem_reversed {r : Runs} (h : ∀ c ∈ r.toolpath, P c) :
    ∀ c ∈ r.reversed.toolpath, P c := by
  obtain ⟨hb, hr, ha⟩ := forall_mem_toolpath.1 h
  refine forall_mem_toolpath.2 ⟨hb, fun back hm => ?_, ha⟩
  obtain ⟨run, hrun, rfl⟩ := List.mem_map.1 (List.mem_reverse.1 hm)
  exact Run.forall_mem_reversed hstart hback (hr run hrun)

end Passage

section Emits

variable {s : LaserSettings}

theorem LaserSettings.Emits.back {c : Cut} (h : s.Emits (.cut c)) (pen : Point) :
    s.Emits (.cut (c.back pen)) := by
  cases h with
  | motion hm =>
    cases hm
    exact .motion (.cut _ _)

theorem LaserSettings.Emits.restart {p : Point} {feedRate? : Option Float}
    (h : s.Emits (.rapid p feedRate?)) (p' : Point) : s.Emits (.rapid p' feedRate?) := by
  cases h with
  | motion hm =>
    cases hm
    exact .motion (.rapid p')

end Emits

namespace Toolpath

variable {t u : Toolpath}

theorem exists_runs_of_reversed? (h : t.reversed? = some u) :
    ∃ r : Runs, r.toolpath = t ∧ r.reversed.toolpath = u := by
  obtain ⟨r, hr, rfl⟩ := Option.map_eq_some_iff.1 h
  exact ⟨r, Runs.toolpath_of_ofToolpath? hr, rfl⟩

/-- The comments of a reversed toolpath are those of the toolpath. -/
theorem comments_reversed? (h : t.reversed? = some u) : u.comments.Perm t.comments := by
  obtain ⟨r, rfl, rfl⟩ := exists_runs_of_reversed? h
  exact r.comments_reversed

/-- What a motion keeps when its end is moved and a cut keeps when it is taken back holds of a
reversed toolpath if it holds of the toolpath. -/
theorem forall_mem_reversed? {P : Command → Prop}
    (hstart : ∀ p p' feedRate?, P (.rapid p feedRate?) → P (.rapid p' feedRate?))
    (hback : ∀ c pen, P (.cut c) → P (.cut (c.back pen))) (h : t.reversed? = some u)
    (ht : ∀ c ∈ t, P c) : ∀ c ∈ u, P c := by
  obtain ⟨r, rfl, rfl⟩ := exists_runs_of_reversed? h
  exact Runs.forall_mem_reversed hstart hback ht

/-- A reversed toolpath is emitted by the same settings. -/
theorem emits_reversed? {s : LaserSettings} (h : t.reversed? = some u)
    (ht : ∀ c ∈ t, s.Emits c) : ∀ c ∈ u, s.Emits c :=
  forall_mem_reversed? (fun _ p' _ hp => hp.restart p') (fun _ pen hc => hc.back pen) h ht

end Toolpath

end LaserPath
