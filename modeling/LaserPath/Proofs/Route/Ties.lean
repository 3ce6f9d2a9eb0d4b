import LaserPath.Proofs.Route.Stages

/-!
# Selections in another order

In which order the shapes are selected matters to the router only where it has to break a tie. As
long as no two candidates are equally far away, a choice that no other one is nearer than is the
only one, wherever its block stands in the list. Walks through the same blocks in two orders then
choose alike, and the blocks that they leave are the same again.

## Main definitions

* `Stage.Untied` — no two candidates are equally far away.

## Main statements

* `WalkStep.eq_of_perm` — one step does not depend on the order of the blocks.
* `walk_eq_of_perm` — nor does a walk without ties.
* `optimizeTravel_eq_of_perm` — the route of a selection that is put into another order.
-/

namespace LaserPath

/-- Of any two candidates one is strictly nearer than the other. -/
def Stage.Untied (s : Stage) : Prop :=
  ∀ c ∈ candidates s.pen s.left, ∀ d ∈ candidates s.pen s.left,
    c ≠ d → c.distance < d.distance ∨ d.distance < c.distance

instance (s : Stage) : Decidable s.Untied :=
  inferInstanceAs (Decidable (∀ c ∈ candidates s.pen s.left, ∀ d ∈ candidates s.pen s.left,
    c ≠ d → c.distance < d.distance ∨ d.distance < c.distance))

/-- Different choices are made at different candidates. -/
theorem Stage.Untied.lt_or_lt {pen : Point} {left : List Waiting} (h : Stage.Untied ⟨pen, left⟩)
    {c d : Choice} (hc : c ∈ choices left) (hd : d ∈ choices left) (hne : c ≠ d) :
    pen.distance c.anchor < pen.distance d.anchor ∨
      pen.distance d.anchor < pen.distance c.anchor := by
  obtain ⟨hcm, hca⟩ := mem_choices_iff.1 hc
  obtain ⟨hdm, hda⟩ := mem_choices_iff.1 hd
  obtain ⟨i, hi⟩ := List.mem_iff_getElem?.1 hcm
  obtain ⟨j, hj⟩ := List.mem_iff_getElem?.1 hdm
  refine h ⟨i, c.backwards, pen.distance c.anchor⟩ (mem_candidates_iff.2 ⟨_, hi, hca, rfl⟩)
    ⟨j, d.backwards, pen.distance d.anchor⟩ (mem_candidates_iff.2 ⟨_, hj, hda, rfl⟩) ?_
  intro heq
  obtain ⟨hij, hback, -⟩ := Candidate.mk.inj heq
  have hwaiting : c.waiting = d.waiting := Option.some.inj (hi.symm.trans (hij ▸ hj))
  exact hne (Choice.ext hwaiting hback)

/-- Without a tie there is one nearest choice. -/
theorem IsNearest.eq {pen : Point} {left : List Waiting} {c d : Choice}
    (hu : Stage.Untied ⟨pen, left⟩) (hc : IsNearest pen left c) (hd : IsNearest pen left d) :
    c = d := by
  by_contra hne
  rcases hu.lt_or_lt hc.mem hd.mem hne with hlt | hlt
  · exact hd.least c hc.mem hlt
  · exact hc.least d hd.mem hlt

theorem IsNearest.perm {pen : Point} {left left' : List Waiting} {c : Choice}
    (hp : left'.Perm left) (h : IsNearest pen left' c) : IsNearest pen left c :=
  h.of_anchors ((mem_choices_of_perm hp).1 h.mem) rfl
    fun d hd => ⟨d, (mem_choices_of_perm hp).2 hd, rfl⟩

/-- One step of two walks through the same blocks: without a tie the choice is the same, and so are
the blocks that are left. -/
theorem WalkStep.eq_of_perm {pen : Point} {left left' rest rest' : List Waiting} {c c' : Choice}
    (hu : Stage.Untied ⟨pen, left⟩) (hp : left'.Perm left) (h : WalkStep pen left c rest)
    (h' : WalkStep pen left' c' rest') : c' = c ∧ rest'.Perm rest := by
  obtain rfl : c' = c := IsNearest.eq hu (h'.nearest.perm hp) h.nearest
  have hcons : (c'.waiting :: rest').Perm (c'.waiting :: rest) :=
    h'.perm.trans (hp.trans h.perm.symm)
  exact ⟨rfl, hcons.cons_inv⟩

/-- A walk that meets no tie does not depend on the order of the blocks. -/
theorem walk_eq_of_perm (pen : Point) (left : List Waiting) {left' : List Waiting}
    (hp : left'.Perm left) (hu : ∀ s ∈ stages pen left, s.Untied) :
    walk pen left' = walk pen left := by
  induction pen, left using walk_induction generalizing left' with
  | nil pen => rw [hp.eq_nil]
  | step pen left c rest hstep ih =>
    rw [hstep.stages_eq, List.forall_mem_cons] at hu
    have hne : left' ≠ [] := fun hnil => by
      have hlength := (hstep.perm.trans hp.symm).length_eq
      simp [hnil] at hlength
    obtain ⟨c', rest', hstep'⟩ := exists_walkStep pen hne
    obtain ⟨rfl, hrest⟩ := hstep.eq_of_perm hu.1 hp hstep'
    rw [hstep.walk_eq, hstep'.walk_eq, ih hrest hu.2]

/-- The router puts out the same route for a selection in another order, unless its walk through
the selection meets two candidates that are equally far away. -/
theorem optimizeTravel_eq_of_perm {start : Point} {blocks blocks' : List Block}
    (hp : blocks'.Perm blocks)
    (hu : ∀ s ∈ stages start (blocks.map Block.waiting), s.Untied) :
    optimizeTravel start blocks' = optimizeTravel start blocks := by
  rw [optimizeTravel_eq, optimizeTravel_eq]
  exact walk_eq_of_perm start (blocks.map Block.waiting) (hp.map Block.waiting) hu

/-- Two open lines, one of which is nearer at its end, and a closed outline, in both orders. -/
theorem optimizeTravel_reverse_of_three_blocks :
    let blocks : List Block :=
      [⟨0, "line", [.rapid ⟨10, 0⟩ (some 3000), .cut ⟨⟨20, 0⟩, .straight, some 1000, some 255⟩],
          ⟨10, 0⟩, ⟨20, 0⟩, false⟩,
        ⟨1, "edge", [.rapid ⟨60, 0⟩ (some 3000), .cut ⟨⟨40, 0⟩, .straight, some 1000, none⟩],
          ⟨60, 0⟩, ⟨40, 0⟩, false⟩,
        ⟨2, "hole", [.rapid ⟨100, 0⟩ none, .cut ⟨⟨100, 0⟩, .arc ⟨5, 0⟩ true, none, none⟩],
          ⟨100, 0⟩, ⟨100, 0⟩, false⟩]
    blocks.reverse.Perm blocks ∧
      (∀ s ∈ stages ⟨0, 0⟩ (blocks.map Block.waiting), s.Untied) ∧
      optimizeTravel ⟨0, 0⟩ blocks.reverse = optimizeTravel ⟨0, 0⟩ blocks := by
  intro blocks
  have hp : blocks.reverse.Perm blocks := List.reverse_perm blocks
  have hu : ∀ s ∈ stages ⟨0, 0⟩ (blocks.map Block.waiting), s.Untied := by decide +kernel
  exact ⟨hp, hu, optimizeTravel_eq_of_perm hp hu⟩

end LaserPath
