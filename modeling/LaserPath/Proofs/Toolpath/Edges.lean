import LaserPath.Proofs.Toolpath.Coordinates
import Mathlib.Data.List.Forall2
import Mathlib.Data.List.TakeWhile

/-!
# The edges of a reversed toolpath

A cut draws an edge from where the pen is to its end. A reversed toolpath draws the same edges in
the opposite order, each from its end to its start, and an arc goes around the same centre the
other way. What stands between the edges is kept as well: the rapids in number, and the comments,
of which those at the two ends stay there.

## Main definitions

* `Edge`, `Toolpath.edges` — the cuts of a toolpath with the pen before them.
* `Edge.Opposes` — one edge drawn in both directions.
* `CommandKind`, `Command.kind` — what a command is, apart from its values.
* `Toolpath.notesInFront`, `Toolpath.notesBehind` — the comments before the first rapid and behind
  the last motion.
* `Toolpath.Mirrors` — one toolpath traced in both directions.

## Main statements

* `exists_edges_retrace` — the edges of cuts that are taken back.
* `Runs.edges_reversed` — the edges of reversed runs.
* `Toolpath.mirrors_of_reversed?` — a reversed toolpath is the toolpath traced backwards.
-/

namespace LaserPath

/-- A cut with the pen before it, whose place is not known before the first motion. -/
structure Edge where
  pen? : Option Point
  cut : Cut
  deriving DecidableEq

/-- The opposite ways between two points: both are straight, or both go around one centre, in
different directions. A centre is given as an offset from where the cut starts. -/
inductive Sweep.Opposes (start finish : Point) : Sweep → Sweep → Prop where
  | straight : Opposes start finish .straight .straight
  | arc (offset : Point) (clockwise : Bool) : Opposes start finish (.arc offset clockwise)
    (.arc ⟨start.x + offset.x - finish.x, start.y + offset.y - finish.y⟩ (!clockwise))

/-- The edge `e'` is `e` drawn in the opposite direction, at the same rate and power. -/
structure Edge.Opposes (e e' : Edge) : Prop where
  start_eq : e.pen? = some e'.cut.target
  finish_eq : e'.pen? = some e.cut.target
  sweep : Sweep.Opposes e'.cut.target e.cut.target e.cut.sweep e'.cut.sweep
  feedRate?_eq : e'.cut.feedRate? = e.cut.feedRate?
  power?_eq : e'.cut.power? = e.cut.power?

/-- What a command is, apart from its values. -/
inductive CommandKind where
  | rapid
  | straightCut
  | arc
  | comment
  /-- A command that frames a program. -/
  | framing
  deriving DecidableEq, Repr

/-- What a command is, apart from its values. -/
def Command.kind : Command → CommandKind
  | .rapid _ _ => .rapid
  | .cut c => match c.sweep with
    | .straight => .straightCut
    | .arc _ _ => .arc
  | .comment _ => .comment
  | _ => .framing

namespace Toolpath

/-- The edges that commands draw when the pen is at a place. -/
def edgesFrom (pen? : Option Point) : Toolpath → List Edge
  | [] => []
  | .rapid target _ :: rest => edgesFrom (some target) rest
  | .cut c :: rest => ⟨pen?, c⟩ :: edgesFrom (some c.target) rest
  | _ :: rest => edgesFrom pen? rest

/-- The edges of a toolpath, in order. -/
def edges (t : Toolpath) : List Edge := edgesFrom none t

/-- The comments before the first rapid. -/
def notesInFront (t : Toolpath) : List String := comments (t.takeWhile (·.kind ≠ .rapid))

/-- The comments behind the last motion. -/
def notesBehind (t : Toolpath) : List String :=
  comments (t.reverse.takeWhile (!·.isMotion)).reverse

/-- The toolpath `u` is `t` traced backwards. -/
structure Mirrors (t u : Toolpath) : Prop where
  /-- The edges stand in the opposite order, each in the opposite direction. -/
  edges : List.Forall₂ Edge.Opposes t.edges.reverse u.edges
  /-- There are as many commands, of each kind and altogether. -/
  count_kind : ∀ kind, u.countP (·.kind = kind) = t.countP (·.kind = kind)
  length_eq : u.length = t.length
  comments : u.comments.Perm t.comments
  /-- The comments at the two ends stay there. -/
  notesInFront : t.notesInFront.map .comment <+: u
  notesBehind : t.notesBehind.map .comment <:+ u
  firstPoint?_eq : u.firstPoint? = t.lastPoint?
  lastPoint?_eq : u.lastPoint? = t.firstPoint?

@[simp] theorem edgesFrom_rapid_cons (pen? : Option Point) (target : Point)
    (feedRate? : Option Float) (t : Toolpath) :
    edgesFrom pen? (.rapid target feedRate? :: t) = edgesFrom (some target) t :=
  rfl

@[simp] theorem edgesFrom_cut_cons (pen? : Option Point) (c : Cut) (t : Toolpath) :
    edgesFrom pen? (.cut c :: t) = ⟨pen?, c⟩ :: edgesFrom (some c.target) t :=
  rfl

/-- Behind a toolpath the pen is at its last point, or where it was. -/
theorem edgesFrom_append (pen? : Option Point) (s t : Toolpath) :
    edgesFrom pen? (s ++ t) = edgesFrom pen? s ++ edgesFrom ((lastPoint? s).or pen?) t := by
  induction s generalizing pen? with
  | nil => rfl
  | cons c rest ih =>
    have hlast : lastPoint? (c :: rest) = (lastPoint? rest).or c.endpoint? := by
      rw [← List.singleton_append, lastPoint?_append]
      congr 1
      exact List.findSome?_singleton
    rw [hlast, Option.or_assoc, List.cons_append]
    cases c with
    | cut cut => exact congrArg (_ :: ·) (ih (some cut.target))
    | rapid target feedRate? => exact ih (some target)
    | _ => exact ih pen?

@[simp] theorem edgesFrom_map_comment (pen? : Option Point) (texts : List String) :
    edgesFrom pen? (texts.map .comment) = [] := by
  induction texts with
  | nil => rfl
  | cons text rest ih => exact ih

end Toolpath

open Toolpath

/-! ## Edges -/

theorem Edge.opposes_back (pen : Point) (c : Cut) :
    Edge.Opposes ⟨some pen, c⟩ ⟨some c.target, c.back pen⟩ := by
  obtain ⟨target, sweep, feedRate?, power?⟩ := c
  refine ⟨rfl, rfl, ?_, rfl, rfl⟩
  cases sweep with
  | straight => exact .straight
  | arc offset clockwise => exact .arc offset clockwise

/-- Cuts that are taken back draw their edges from the last one to the first, and then the pen is
where they began. -/
theorem exists_edges_retrace (pen : Point) (cuts done : List Cut) :
    ∃ back, List.Forall₂ Edge.Opposes (edgesFrom (some pen) (cuts.map .cut)).reverse back ∧
      edgesFrom (some (retrace pen cuts done).1) ((retrace pen cuts done).2.map .cut) =
        back ++ edgesFrom (some pen) (done.map .cut) := by
  induction cuts generalizing pen done with
  | nil => exact ⟨[], .nil, rfl⟩
  | cons c rest ih =>
    obtain ⟨back, hback, heq⟩ := ih c.target (c.back pen :: done)
    refine ⟨back ++ [⟨some c.target, c.back pen⟩], ?_, ?_⟩
    · rw [List.map_cons, edgesFrom_cut_cons, List.reverse_cons]
      exact List.rel_append hback (.cons (Edge.opposes_back pen c) .nil)
    · rw [retrace, heq, List.append_assoc]
      rfl

namespace Run

/-- A run draws its edges from its own start, wherever the pen was. -/
theorem edgesFrom_toolpath (pen? : Option Point) (r : Run) :
    edgesFrom pen? r.toolpath = edgesFrom (some r.start) (r.cuts.map .cut) := by
  rw [toolpath, edgesFrom_append, edgesFrom_map_comment, List.nil_append, edgesFrom_rapid_cons]

theorem edges_reversed (r : Run) :
    List.Forall₂ Edge.Opposes (edges r.toolpath).reverse (edges r.reversed.toolpath) := by
  obtain ⟨back, hback, heq⟩ := exists_edges_retrace r.start r.cuts []
  rw [List.map_nil, edgesFrom, List.append_nil] at heq
  rw [edges, edges, edgesFrom_toolpath, edgesFrom_toolpath]
  exact heq ▸ hback

end Run

namespace Runs

theorem edgesFrom_flatMap (pen? : Option Point) (runs : List Run) :
    edgesFrom pen? (runs.flatMap Run.toolpath) = runs.flatMap fun r => edges r.toolpath := by
  induction runs generalizing pen? with
  | nil => rfl
  | cons r rest ih =>
    rw [List.flatMap_cons, List.flatMap_cons, edgesFrom_append, ih, edges,
      Run.edgesFrom_toolpath, Run.edgesFrom_toolpath]

theorem edges_toolpath (r : Runs) :
    edges r.toolpath = r.runs.flatMap fun run => edges run.toolpath := by
  rw [edges, toolpath, edgesFrom_append, edgesFrom_append, edgesFrom_map_comment,
    edgesFrom_map_comment, edgesFrom_flatMap, List.nil_append, List.append_nil]

/-- Reversed runs draw the edges of the runs in the opposite order and direction. -/
theorem edges_reversed (r : Runs) :
    List.Forall₂ Edge.Opposes (edges r.toolpath).reverse (edges r.reversed.toolpath) := by
  rw [edges_toolpath, edges_toolpath, reversed, List.reverse_flatMap, ← List.map_reverse,
    List.flatMap_map]
  refine List.rel_flatMap (R := Eq) (List.forall₂_eq_eq_eq ▸ rfl) ?_
  rintro run _ rfl
  exact run.edges_reversed

end Runs

/-! ## Kinds -/

@[simp] theorem Command.kind_rapid (target : Point) (feedRate? : Option Float) :
    (Command.rapid target feedRate?).kind = .rapid :=
  rfl

@[simp] theorem Command.kind_comment (text : String) : (Command.comment text).kind = .comment :=
  rfl

theorem Command.kind_cut (c : Cut) :
    (Command.cut c).kind = .straightCut ∨ (Command.cut c).kind = .arc := by
  obtain ⟨target, sweep, feedRate?, power?⟩ := c
  cases sweep with
  | straight => exact .inl rfl
  | arc centre clockwise => exact .inr rfl

theorem Command.kind_cut_back (c : Cut) (pen : Point) :
    (Command.cut (c.back pen)).kind = (Command.cut c).kind := by
  obtain ⟨target, sweep, feedRate?, power?⟩ := c
  cases sweep <;> rfl

theorem kinds_retrace (pen : Point) (cuts done : List Cut) :
    ((retrace pen cuts done).2.map fun c => (Command.cut c).kind) =
      (cuts.map fun c => (Command.cut c).kind).reverse ++
        done.map fun c => (Command.cut c).kind := by
  induction cuts generalizing pen done with
  | nil => rfl
  | cons c rest ih =>
    rw [retrace, ih, List.map_cons, List.map_cons, List.reverse_cons, List.append_assoc,
      Command.kind_cut_back]
    rfl

theorem Run.kinds_reversed (r : Run) :
    (r.reversed.toolpath.map Command.kind).Perm (r.toolpath.map Command.kind) := by
  have hcuts := kinds_retrace r.start r.cuts []
  rw [List.map_nil, List.append_nil] at hcuts
  simp only [toolpath, List.map_append, List.map_cons, List.map_map, Function.comp_def]
  refine List.Perm.append_left _ (.cons _ ?_)
  exact hcuts ▸ List.reverse_perm _

/-- Reversed runs consist of commands of the same kinds. -/
theorem Runs.kinds_reversed (r : Runs) :
    (r.reversed.toolpath.map Command.kind).Perm (r.toolpath.map Command.kind) := by
  have hruns : ((r.runs.map Run.reversed).reverse.flatMap fun run =>
      run.toolpath.map Command.kind).Perm
        (r.runs.flatMap fun run => run.toolpath.map Command.kind) := by
    refine ((r.runs.map Run.reversed).reverse_perm.flatMap_right _).trans ?_
    rw [List.flatMap_map]
    exact .flatMap_left _ fun run _ => run.kinds_reversed
  simp only [toolpath, reversed, List.map_append, List.map_flatMap]
  exact (hruns.append_left _).append_right _

/-! ## Comments at the ends -/

namespace Toolpath

theorem notesInFront_map_comment (texts : List String) :
    notesInFront (texts.map .comment) = texts := by
  rw [notesInFront, List.takeWhile_eq_self_iff.2, comments_map_comment]
  rw [List.forall_mem_map]
  exact fun _ _ => rfl

theorem notesInFront_append_rapid (texts : List String) (target : Point)
    (feedRate? : Option Float) (t : Toolpath) :
    notesInFront (texts.map .comment ++ .rapid target feedRate? :: t) = texts := by
  rw [notesInFront, List.takeWhile_append_of_pos, List.takeWhile_cons_of_neg, List.append_nil,
    comments_map_comment]
  · exact Bool.false_ne_true
  · rw [List.forall_mem_map]
    exact fun _ _ => rfl

theorem notesBehind_map_comment (texts : List String) :
    notesBehind (texts.map .comment) = texts := by
  rw [notesBehind, List.takeWhile_eq_self_iff.2, List.reverse_reverse, comments_map_comment]
  rw [← List.map_reverse, List.forall_mem_map]
  exact fun _ _ => rfl

theorem notesBehind_append_motion (t : Toolpath) {c : Command} (h : c.isMotion = true)
    (texts : List String) : notesBehind (t ++ c :: texts.map .comment) = texts := by
  rw [notesBehind, List.reverse_append, List.reverse_cons, List.append_assoc,
    List.takeWhile_append_of_pos, List.singleton_append, List.takeWhile_cons_of_neg,
    List.append_nil, List.reverse_reverse, comments_map_comment]
  · simp [h]
  · rw [← List.map_reverse, List.forall_mem_map]
    exact fun _ _ => rfl

end Toolpath

/-- A run ends in a motion. -/
theorem Run.exists_toolpath_eq (r : Run) :
    ∃ t c, r.toolpath = t ++ [c] ∧ Command.isMotion c = true := by
  rcases r.cuts.eq_nil_or_concat' with h | ⟨cuts, c, h⟩
  · exact ⟨r.notes.map .comment, .rapid r.start r.feedRate?, by rw [toolpath, h]; rfl, rfl⟩
  · exact ⟨r.notes.map .comment ++ .rapid r.start r.feedRate? :: cuts.map .cut, .cut c,
      by simp [toolpath, h], rfl⟩

namespace Runs

variable {r : Runs}

theorem notes_of_ofToolpath? {t : Toolpath} (h : ofToolpath? t = some r) :
    ∀ next ∈ r.runs.head?, next.notes = [] := by
  unfold ofToolpath? at h
  split at h
  · next runs heq =>
    obtain rfl := Option.some.inj h
    exact notes_of_scan heq
  · cases h

/-- The comments before the first rapid stay in front. -/
theorem notesInFront_reversed (h : ∀ next ∈ r.runs.head?, next.notes = []) :
    (notesInFront r.toolpath).map .comment <+: r.reversed.toolpath := by
  obtain ⟨before, runs, after⟩ := r
  cases runs with
  | nil =>
    have heq : toolpath ⟨before, [], after⟩ = (before ++ after).map .comment := by simp [toolpath]
    rw [heq, notesInFront_map_comment, ← heq]
    exact List.prefix_rfl
  | cons first others =>
    have heq : toolpath ⟨before, first :: others, after⟩ = before.map .comment ++
        .rapid first.start first.feedRate? :: (first.cuts.map .cut ++
          others.flatMap Run.toolpath ++ after.map .comment) := by
      simp [toolpath, Run.toolpath, h first rfl]
    rw [heq, notesInFront_append_rapid, reversed, toolpath, List.append_assoc]
    exact List.prefix_append _ _

/-- The comments behind the last motion stay at the end. -/
theorem notesBehind_reversed (r : Runs) :
    (notesBehind r.toolpath).map .comment <:+ r.reversed.toolpath := by
  obtain ⟨before, runs, after⟩ := r
  rcases runs.eq_nil_or_concat' with rfl | ⟨others, last, rfl⟩
  · have heq : toolpath ⟨before, [], after⟩ = (before ++ after).map .comment := by simp [toolpath]
    rw [heq, notesBehind_map_comment, ← heq]
    exact List.suffix_rfl
  · obtain ⟨t, c, ht, hc⟩ := last.exists_toolpath_eq
    have heq : toolpath ⟨before, others ++ [last], after⟩ =
        before.map .comment ++ others.flatMap Run.toolpath ++ t ++ c :: after.map .comment := by
      simp [toolpath, ht]
    rw [heq, notesBehind_append_motion _ hc, reversed, toolpath]
    exact List.suffix_append _ _

end Runs

namespace Toolpath

/-- A reversed toolpath is the toolpath traced backwards. -/
theorem mirrors_of_reversed? {t u : Toolpath} (h : t.reversed? = some u) : t.Mirrors u := by
  have hfirst := firstPoint?_reversed? h
  have hlast := lastPoint?_reversed? h
  have hcomments := comments_reversed? h
  obtain ⟨r, hr, rfl⟩ := Option.map_eq_some_iff.1 h
  obtain rfl := Runs.toolpath_of_ofToolpath? hr
  have hkinds := r.kinds_reversed
  exact {
    edges := r.edges_reversed
    count_kind kind := by
      have hcount := hkinds.countP_eq (· = kind)
      simp only [List.countP_map, Function.comp_def] at hcount
      exact hcount
    length_eq := by simpa using hkinds.length_eq
    comments := hcomments
    notesInFront := Runs.notesInFront_reversed (Runs.notes_of_ofToolpath? hr)
    notesBehind := r.notesBehind_reversed
    firstPoint?_eq := hfirst
    lastPoint?_eq := hlast }

/-- An arc with a straight cut behind it, and a second run with a comment in front. -/
theorem mirrors_of_arc_and_line :
    let t : Toolpath := [.comment "plate", .rapid ⟨10, 0⟩ (some 3000),
      .cut ⟨⟨0, 10⟩, .arc ⟨-10, 0⟩ false, some 1000, some 255⟩,
      .cut ⟨⟨0, 5⟩, .straight, some 800, some 100⟩, .comment "second",
      .rapid ⟨1, 1⟩ none, .cut ⟨⟨2, 1⟩, .straight, none, none⟩, .comment "done"]
    let u : Toolpath := [.comment "plate", .comment "second", .rapid ⟨2, 1⟩ none,
      .cut ⟨⟨1, 1⟩, .straight, none, none⟩, .rapid ⟨0, 5⟩ (some 3000),
      .cut ⟨⟨0, 10⟩, .straight, some 800, some 100⟩,
      .cut ⟨⟨10, 0⟩, .arc ⟨0, -10⟩ true, some 1000, some 255⟩, .comment "done"]
    t.reversed? = some u ∧ t.Mirrors u := by
  intro t u
  have h : t.reversed? = some u := by decide +kernel
  exact ⟨h, mirrors_of_reversed? h⟩

end Toolpath

end LaserPath
