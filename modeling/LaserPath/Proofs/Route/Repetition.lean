import LaserPath.Proofs.Route.Stages

/-!
# Routes that are routed again

The router leaves a route of its own as it is. Of the blocks in their new order the first one is
always the one that was chosen there, and to enter it at its start is as near as that choice was.
All other choices were choices before, for a block that is turned round has its ends exchanged. So
none is nearer, and where several are as near the first one is taken.

## Main statements

* `IsNearest.eq_first` — a first block that no choice is nearer than is taken as it is.
* `walk_walk` — a second walk through the blocks of a walk.
* `optimizeTravel_optimizeTravel` — a route is not changed when it is routed again.
-/

namespace LaserPath

/-- The scan stays with the first block if no choice is nearer than its start. -/
theorem IsNearest.eq_first {pen : Point} {w : Waiting} {rest : List Waiting}
    (h : IsNearest pen (w :: rest) ⟨w, false⟩) :
    (nearest pen (w :: rest)).index = 0 ∧ (nearest pen (w :: rest)).backwards = false := by
  rcases h.below with hbelow | hnone
  · -- the scan begins with the first block, and no candidate behind it is nearer
    obtain ⟨others, hcs⟩ : ∃ others, candidates pen (w :: rest) =
        ⟨0, false, pen.distance w.block.start⟩ :: others := ⟨_, rfl⟩
    have hfirst : Candidate.closer ⟨0, false, farthest⟩ ⟨0, false, pen.distance w.block.start⟩ =
        ⟨0, false, pen.distance w.block.start⟩ := if_pos hbelow
    rw [nearest, hcs, List.foldl_cons, hfirst]
    rcases foldl_closer_cases ⟨0, false, pen.distance w.block.start⟩ others with
      ⟨heq, -⟩ | ⟨hlt, hf⟩
    · rw [heq]
      exact ⟨rfl, rfl⟩
    · obtain ⟨d, hd, hdist⟩ :=
        exists_choice_of_mem_candidates (hcs ▸ List.mem_cons_of_mem _ hf.mem)
      exact absurd (hdist ▸ hlt) (h.least d hd)
  · rcases nearest_cases pen (w :: rest) with ⟨heq, -⟩ | ⟨hlt, hf⟩
    · rw [heq]
      exact ⟨rfl, rfl⟩
    · obtain ⟨d, hd, hdist⟩ := exists_choice_of_mem_candidates hf.mem
      exact absurd (hdist ▸ hlt) (hnone d hd)

theorem walk_of_isNearest_first {pen : Point} {w : Waiting} {rest : List Waiting}
    (h : IsNearest pen (w :: rest) ⟨w, false⟩) :
    walk pen (w :: rest) = w.block :: walk w.block.finish rest := by
  obtain ⟨hindex, hbackwards⟩ := h.eq_first
  rw [walk, hindex, List.getD_cons_zero, Candidate.block, hbackwards]
  rfl

/-! ## The choices among blocks that are put out -/

/-- The ends of a block that is put out are those of the block that has been chosen, exchanged if
it was chosen to be entered at its end. -/
theorem Choice.anchor_waiting_block {c : Choice} (hs : c.waiting.Settled)
    (hc : c.backwards = true → c.waiting.reversible = true) (backwards : Bool) :
    c.block.waiting.anchor backwards = c.waiting.anchor (c.backwards ^^ backwards) := by
  obtain ⟨w, turned⟩ := c
  cases turned with
  | false => simp [block, Waiting.anchor, Block.waiting]
  | true =>
    obtain ⟨b, hb⟩ := Option.isSome_iff_exists.1 (Block.isSome_reversed? (hs.symm.trans (hc rfl)))
    have hstart := Block.start_of_reversed? hb
    have hfinish := Block.finish_of_reversed? hb
    cases backwards <;> simp [block, Waiting.anchor, Block.waiting, hb, hstart, hfinish]

/-- A block may be entered again only where it could be entered before. -/
theorem exists_choice_of_mem_choices_walk {pen : Point} {left : List Waiting}
    (hs : ∀ w ∈ left, w.Settled) {d : Choice}
    (hd : d ∈ choices ((walk pen left).map Block.waiting)) :
    ∃ c ∈ choices left, c.anchor = d.anchor := by
  obtain ⟨w, backwards⟩ := d
  obtain ⟨b, hb, rfl⟩ := List.mem_map.1 (mem_choices_iff.1 hd).1
  obtain ⟨c, hc, rfl⟩ := exists_choice_of_mem_walk pen left b hb
  obtain ⟨hmem, hallowed⟩ := mem_choices_iff.1 hc
  have hanchor := Choice.anchor_waiting_block (hs _ hmem) hallowed backwards
  refine ⟨⟨c.waiting, c.backwards ^^ backwards⟩, mem_choices_iff.2 ⟨hmem, fun hx => ?_⟩,
    hanchor.symm⟩
  by_cases hturned : c.backwards = true
  · exact hallowed hturned
  · -- the block is put out as it is, and so is the answer to whether it may be turned round
    have hreversible := (mem_choices_iff.1 hd).2
    have hsettled := hs _ hmem
    grind [Choice.block, Block.waiting, Waiting.Settled]

/-! ## The second walk -/

/-- The first block of a walk is nearest at its start among the blocks of the walk. -/
theorem WalkStep.isNearest_first {pen : Point} {left rest : List Waiting} {c : Choice}
    (h : WalkStep pen left c rest) (hs : ∀ w ∈ left, w.Settled) :
    IsNearest pen ((walk pen left).map Block.waiting) ⟨c.block.waiting, false⟩ := by
  obtain ⟨hmem, hallowed⟩ := mem_choices_iff.1 h.nearest.mem
  have hanchor := Choice.anchor_waiting_block (hs _ hmem) hallowed false
  rw [Bool.xor_false] at hanchor
  refine h.nearest.of_anchors ?_ hanchor fun d hd => exists_choice_of_mem_choices_walk hs hd
  rw [mem_choices_iff, h.walk_eq]
  simp

/-- A second walk goes through the blocks of a walk in their order and turns none of them round. -/
theorem walk_walk (pen : Point) (left : List Waiting) (hs : ∀ w ∈ left, w.Settled) :
    walk pen ((walk pen left).map Block.waiting) = walk pen left := by
  induction pen, left using walk_induction with
  | nil pen => simp [walk]
  | step pen left c rest hstep ih =>
    have hrest : ∀ w ∈ rest, w.Settled :=
      fun w hw => hs w (hstep.perm.subset (List.mem_cons_of_mem _ hw))
    have hfirst := hstep.isNearest_first hs
    rw [hstep.walk_eq, List.map_cons] at hfirst ⊢
    rw [walk_of_isNearest_first hfirst]
    exact congrArg (c.block :: ·) (ih hrest)

/-- A route is not changed when it is routed again from the same start: the blocks keep their
order, their directions, their anchors and their commands. -/
theorem optimizeTravel_optimizeTravel (start : Point) (blocks : List Block) :
    optimizeTravel start (optimizeTravel start blocks) = optimizeTravel start blocks := by
  rw [optimizeTravel_eq, optimizeTravel_eq]
  refine walk_walk start (blocks.map Block.waiting) fun w hw => ?_
  obtain ⟨b, -, rfl⟩ := List.mem_map.1 hw
  rfl

end LaserPath
