import LaserPath.Proofs.Toolpath.Edges
import LaserPath.Proofs.Toolpath.Runs

/-!
# Toolpaths reversed twice

A straight toolpath that is reversed twice draws what it drew, in the same order and at the same
rates. Its comments may have moved: those in front of the last run go with that run to the front,
where they cannot be told from the comments that stay there, and do not come back.

## Main definitions

* `Toolpath.beforeLastRapid?` — the command before the last rapid.
* `Toolpath.NotesMoved` — a toolpath before and after the comments of its last run have moved.

## Main statements

* `retrace_retrace` — straight cuts that are taken back twice.
* `Runs.reversed_settle_reversed` — runs that are reversed, found again and reversed.
* `Toolpath.restored_iff_of_reversed?` — when a toolpath that is reversed twice is restored.
-/

namespace LaserPath

/-! ## Runs -/

/-- Straight cuts that are taken back twice are the same cuts. -/
theorem retrace_retrace (pen : Point) {cuts : List Cut} (done last : List Cut)
    (h : ∀ c ∈ cuts, c.sweep = .straight) :
    retrace (retrace pen cuts done).1 (retrace pen cuts done).2 last =
      retrace pen done (cuts ++ last) := by
  induction cuts generalizing pen done last with
  | nil => rfl
  | cons c rest ih =>
    obtain ⟨hc, hrest⟩ := List.forall_mem_cons.1 h
    have hback : (c.back pen).back c.target = c := by
      obtain ⟨target, sweep, feedRate?, power?⟩ := c
      obtain rfl : sweep = .straight := hc
      rfl
    rw [retrace, ih c.target (c.back pen :: done) last hrest, retrace, hback]
    rfl

theorem Run.reversed_reversed {r : Run} (h : ∀ c ∈ r.cuts, c.sweep = .straight) :
    r.reversed.reversed = r := by
  have hcuts := retrace_retrace r.start [] [] h
  rw [List.append_nil] at hcuts
  rw [reversed, reversed, hcuts]
  rfl

namespace Runs

/-- The comments of the last run are in front of the first one when the runs are reversed, and stay
there when they are reversed again. -/
theorem reversed_settle_reversed {before : List String} {others : List Run} {last : Run}
    {after : List String}
    (h : ∀ run ∈ others ++ [last], ∀ c ∈ run.cuts, c.sweep = .straight) :
    (reversed ⟨before, others ++ [last], after⟩).settle.reversed =
      ⟨before ++ last.notes, others ++ [{ last with notes := [] }], after⟩ := by
  rw [List.forall_mem_append, List.forall_mem_singleton] at h
  have hothers : others.map (Run.reversed ∘ Run.reversed) = others :=
    (List.map_congr_left fun run hm => Run.reversed_reversed (h.1 run hm)).trans
      (List.map_id others)
  have hlast : Run.reversed { last.reversed with notes := [] } = { last with notes := [] } := by
    have hback := Run.reversed_reversed h.2
    exact congrArg (fun run : Run => { run with notes := [] }) hback
  simp [reversed, hothers, hlast]

end Runs

/-! ## The last run -/

theorem Command.kind_ne_of_isMotion {c : Command} (h : c.isMotion = true) : c.kind ≠ .comment := by
  cases c with
  | rapid target feedRate? => simp
  | cut cut => rcases kind_cut cut with hk | hk <;> simp [hk]
  | _ => simp [isMotion, endpoint?] at h

theorem countP_comments (texts : List String) :
    (texts.map Command.comment).countP (·.kind = .rapid) = 0 := by
  simp [List.countP_eq_zero]

theorem Run.exists_getLast?_flatMap {runs : List Run} (h : runs ≠ []) :
    ∃ c, (runs.flatMap Run.toolpath).getLast? = some c ∧ c.isMotion = true := by
  obtain ⟨others, last, rfl⟩ := runs.eq_nil_or_concat'.resolve_left h
  obtain ⟨t, c, ht, hc⟩ := last.exists_toolpath_eq
  exact ⟨c, by simp [ht], hc⟩

namespace Toolpath

/-- The command before the last rapid. -/
def beforeLastRapid? (t : Toolpath) : Option Command :=
  (t.reverse.dropWhile (·.kind ≠ .rapid)).tail.head?

theorem beforeLastRapid?_append (t : Toolpath) (target : Point) (feedRate? : Option Float)
    {rest : Toolpath} (h : ∀ c ∈ rest, c.kind ≠ .rapid) :
    beforeLastRapid? (t ++ .rapid target feedRate? :: rest) = t.getLast? := by
  rw [beforeLastRapid?, List.reverse_append, List.reverse_cons, List.append_assoc,
    List.dropWhile_append_of_pos, List.singleton_append, List.dropWhile_cons_of_neg, List.tail_cons,
    List.head?_reverse]
  · simp
  · simpa using h

/-- In `u` the comments in front of the last run of `t` stand behind those in front of the first
run, and all else is as in `t`. -/
inductive NotesMoved : Toolpath → Toolpath → Prop where
  | intro {front notes : List String} {others rest : Toolpath} (target : Point)
    (feedRate? : Option Float)
    (notes_ne : notes ≠ [])
    (others_head : others.head?.map Command.kind = some .rapid)
    (others_last : others.getLast?.any Command.isMotion = true)
    (rest_kind : ∀ c ∈ rest, c.kind ≠ .rapid) :
    NotesMoved
      (front.map .comment ++ others ++ notes.map .comment ++ .rapid target feedRate? :: rest)
      (front.map .comment ++ notes.map .comment ++ others ++ .rapid target feedRate? :: rest)

namespace NotesMoved

variable {t u : Toolpath}

/-- Where the first rapid was there is a comment now. -/
theorem ne (h : t.NotesMoved u) : u ≠ t := by
  obtain @⟨front, notes, others, rest, target, feedRate?, hne, hhead, -, -⟩ := h
  obtain ⟨text, notes, rfl⟩ := List.exists_cons_of_ne_nil hne
  cases others with
  | nil => simp at hhead
  | cons first others =>
    intro heq
    simp only [List.append_assoc, List.append_cancel_left_eq, List.map_cons, List.cons_append,
      List.cons.injEq] at heq
    simp [← heq.1] at hhead

theorem one_lt_countP (h : t.NotesMoved u) : 1 < t.countP (·.kind = .rapid) := by
  obtain @⟨front, notes, others, rest, target, feedRate?, -, hhead, -, -⟩ := h
  cases others with
  | nil => simp at hhead
  | cons first others =>
    have hfirst : first.kind = .rapid := by simpa using hhead
    simp only [List.countP_append, List.countP_cons, hfirst, Command.kind_rapid, decide_true,
      if_true]
    omega

theorem exists_beforeLastRapid? (h : t.NotesMoved u) :
    ∃ c ∈ t.beforeLastRapid?, c.kind = .comment := by
  obtain @⟨front, notes, others, rest, target, feedRate?, hne, -, -, hrest⟩ := h
  obtain ⟨texts, text, rfl⟩ := notes.eq_nil_or_concat'.resolve_left hne
  refine ⟨.comment text, ?_, rfl⟩
  rw [beforeLastRapid?_append _ _ _ hrest]
  simp

theorem filter_isMotion (h : t.NotesMoved u) :
    u.filter Command.isMotion = t.filter Command.isMotion := by
  obtain @⟨front, notes, others, rest, target, feedRate?, -, -, -, -⟩ := h
  have hcomments (texts : List String) :
      (texts.map Command.comment).filter Command.isMotion = [] := by
    simp [List.filter_eq_nil_iff, Command.isMotion, Command.endpoint?]
  simp only [List.filter_append, hcomments, List.append_nil, List.nil_append]

end NotesMoved

/-- There is one rapid at most, or the command before the last one is not a comment. -/
def KeepsNotes (t : Toolpath) : Prop :=
  t.countP (·.kind = .rapid) ≤ 1 ∨ ∀ c ∈ t.beforeLastRapid?, c.kind ≠ .comment

theorem NotesMoved.not_keepsNotes {t u : Toolpath} (h : t.NotesMoved u) : ¬ t.KeepsNotes := by
  obtain ⟨c, hc, hkind⟩ := h.exists_beforeLastRapid?
  rintro (hone | hnone)
  · exact absurd hone (Nat.not_le_of_lt h.one_lt_countP)
  · exact hnone c hc hkind

end Toolpath

namespace Runs

open Toolpath

variable {before after : List String} {others : List Run} {last : Run}

theorem kind_ne_of_mem_rest {cuts : List Cut} {c : Command}
    (h : c ∈ cuts.map Command.cut ++ after.map Command.comment) : c.kind ≠ .rapid := by
  rcases List.mem_append.1 h with h | h
  · obtain ⟨cut, -, rfl⟩ := List.mem_map.1 h
    rcases Command.kind_cut cut with hk | hk <;> simp [hk]
  · obtain ⟨text, -, rfl⟩ := List.mem_map.1 h
    simp

theorem toolpath_concat (before : List String) (others : List Run) (last : Run)
    (after : List String) : toolpath ⟨before, others ++ [last], after⟩ =
      before.map .comment ++ others.flatMap Run.toolpath ++ last.notes.map .comment ++
        .rapid last.start last.feedRate? :: (last.cuts.map .cut ++ after.map .comment) := by
  simp [toolpath, Run.toolpath]

theorem keepsNotes_nil (before after : List String) :
    KeepsNotes (toolpath ⟨before, [], after⟩) := by
  left
  simp [toolpath, countP_comments, -List.countP_map]

theorem keepsNotes_concat (h : last.notes = []) :
    KeepsNotes (toolpath ⟨before, others ++ [last], after⟩) := by
  rw [toolpath_concat, h, List.map_nil, List.append_nil]
  by_cases ho : others = []
  · left
    have hrest : (last.cuts.map Command.cut ++ after.map Command.comment).countP
        (·.kind = .rapid) = 0 :=
      List.countP_eq_zero.2 fun c hc => by simpa using kind_ne_of_mem_rest hc
    rw [ho, List.flatMap_nil, List.append_nil, List.countP_append, List.countP_cons, hrest,
      countP_comments]
    simp
  · right
    obtain ⟨c, hc, hmotion⟩ := Run.exists_getLast?_flatMap ho
    rw [beforeLastRapid?_append _ _ _ fun _ => kind_ne_of_mem_rest, List.getLast?_append, hc]
    rintro _ ⟨⟩
    exact Command.kind_ne_of_isMotion hmotion

/-- The first run of settled runs has no comments, so the last one is another if it has some. -/
theorem notesMoved_concat
    (hs : settle ⟨before, others ++ [last], after⟩ = ⟨before, others ++ [last], after⟩)
    (hne : last.notes ≠ []) :
    NotesMoved (toolpath ⟨before, others ++ [last], after⟩)
      (toolpath ⟨before ++ last.notes, others ++ [{ last with notes := [] }], after⟩) := by
  have hmoved : toolpath ⟨before ++ last.notes, others ++ [{ last with notes := [] }], after⟩ =
      before.map .comment ++ last.notes.map .comment ++ others.flatMap Run.toolpath ++
        .rapid last.start last.feedRate? :: (last.cuts.map .cut ++ after.map .comment) := by
    simp [toolpath_concat]
  rw [toolpath_concat, hmoved]
  cases others with
  | nil => simp [hne] at hs
  | cons first others =>
    have hfirst : first.notes = [] := by simp at hs; grind
    obtain ⟨c, hc, hmotion⟩ := Run.exists_getLast?_flatMap (List.cons_ne_nil first others)
    refine .intro last.start last.feedRate? hne ?_ ?_ fun _ => kind_ne_of_mem_rest
    · simp [Run.toolpath, hfirst]
    · rw [hc, Option.any_some, hmotion]

/-- Settled runs that are reversed, found again and reversed are as they were, or the comments in
front of the last run have moved. -/
theorem keepsNotes_or_notesMoved {r : Runs} (hs : r.settle = r)
    (h : ∀ run ∈ r.runs, ∀ c ∈ run.cuts, c.sweep = .straight) :
    (r.reversed.settle.reversed.toolpath = r.toolpath ∧ r.toolpath.KeepsNotes) ∨
      r.toolpath.NotesMoved r.reversed.settle.reversed.toolpath := by
  obtain ⟨before, runs, after⟩ := r
  rcases runs.eq_nil_or_concat' with rfl | ⟨others, last, rfl⟩
  · left
    exact ⟨by simp [reversed, toolpath], keepsNotes_nil before after⟩
  · rw [reversed_settle_reversed h]
    by_cases hn : last.notes = []
    · left
      refine ⟨?_, keepsNotes_concat hn⟩
      obtain ⟨notes, start, feedRate?, cuts⟩ := last
      obtain rfl : notes = [] := hn
      rw [List.append_nil]
    · right
      exact notesMoved_concat hs hn

end Runs

namespace Toolpath

/-- A straight toolpath that can be reversed can be reversed twice. Its motions are then in order
again. The whole is restored if and only if it has one rapid at most or no comment before the last
one; otherwise the comments in front of the last run have moved. -/
theorem restored_iff_of_reversed? {t u : Toolpath} (hs : ∀ c ∈ t, c.IsStraight)
    (h : t.reversed? = some u) :
    ∃ v, u.reversed? = some v ∧ v.filter Command.isMotion = t.filter Command.isMotion ∧
      (v = t ↔ t.countP (·.kind = .rapid) ≤ 1 ∨ ∀ c ∈ t.beforeLastRapid?, c.kind ≠ .comment) ∧
      (v = t ∨ t.NotesMoved v) := by
  obtain ⟨r, hr, rfl⟩ := Option.map_eq_some_iff.1 h
  obtain ⟨rfl, hsettled⟩ := Runs.ofToolpath?_eq_some_iff.1 hr
  have hstraight : ∀ run ∈ r.runs, ∀ c ∈ run.cuts, c.sweep = .straight := by
    intro run hrun c hc
    have hrun := (Runs.forall_mem_toolpath.1 hs).2.1 run hrun
    exact (Run.forall_mem_toolpath.1 hrun).2.2 c hc c rfl
  refine ⟨r.reversed.settle.reversed.toolpath, reversed?_toolpath _, ?_⟩
  rcases Runs.keepsNotes_or_notesMoved hsettled hstraight with ⟨heq, hk⟩ | hm
  · exact ⟨by rw [heq], iff_of_true heq hk, .inl heq⟩
  · exact ⟨hm.filter_isMotion, iff_of_false hm.ne hm.not_keepsNotes, .inr hm⟩

/-- Of three runs the last two have comments in front, and those of the last one move. -/
theorem restored_iff_of_three_runs :
    let t : Toolpath := [.comment "plate", .rapid ⟨0, 0⟩ (some 3000),
      .cut ⟨⟨1, 0⟩, .straight, some 1000, some 255⟩, .comment "second", .rapid ⟨5, 0⟩ none,
      .comment "third", .rapid ⟨10, 0⟩ (some 2000), .cut ⟨⟨11, 0⟩, .straight, some 800, none⟩]
    let u : Toolpath := [.comment "plate", .comment "third", .rapid ⟨11, 0⟩ (some 2000),
      .cut ⟨⟨10, 0⟩, .straight, some 800, none⟩, .comment "second", .rapid ⟨5, 0⟩ none,
      .rapid ⟨1, 0⟩ (some 3000), .cut ⟨⟨0, 0⟩, .straight, some 1000, some 255⟩]
    (∀ c ∈ t, c.IsStraight) ∧ t.reversed? = some u ∧
      ∃ v, u.reversed? = some v ∧ v.filter Command.isMotion = t.filter Command.isMotion ∧
        (v = t ↔ t.countP (·.kind = .rapid) ≤ 1 ∨
          ∀ c ∈ t.beforeLastRapid?, c.kind ≠ .comment) ∧
        (v = t ∨ t.NotesMoved v) := by
  intro t u
  have hs : ∀ c ∈ t, c.IsStraight := by simp [t, Command.IsStraight]
  have h : t.reversed? = some u := by decide +kernel
  exact ⟨hs, h, restored_iff_of_reversed? hs h⟩

end Toolpath

end LaserPath
