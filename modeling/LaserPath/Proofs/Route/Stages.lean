import LaserPath.Proofs.Route.Greedy

/-!
# The stages of the walk

At each of its stages the walk has a place for the pen and the blocks that are left. It chooses one
of them, to be entered at its start or, where it may be turned round, at its end. Where the block
stands among those that are left matters only if another choice is as near.

## Main definitions

* `Stage`, `stages` — the places of the pen and the blocks left, in the course of a walk.
* `Stage.next?` — the block that is put out at a stage.
* `Choice`, `choices` — a block with the direction in which to trace it.
* `IsNearest` — no other choice is nearer than this one.
* `WalkStep` — one step of the walk, said without positions.

## Main statements

* `map_next?_stages` — a walk is what its stages put out.
* `walk_induction` — induction over the steps of a walk.
* `exists_choice_of_mem_walk` — every block that is put out has been chosen.
-/

namespace LaserPath

/-- The block with the answer to whether it may be turned round. -/
def Block.waiting (b : Block) : Waiting := ⟨b, b.isReversible⟩

theorem optimizeTravel_eq (start : Point) (blocks : List Block) :
    optimizeTravel start blocks = walk start (blocks.map Block.waiting) :=
  rfl

/-- Where the pen is on its walk, and the blocks that are left. -/
structure Stage where
  pen : Point
  left : List Waiting
  deriving DecidableEq

/-- The stages of the walk from `pen` through the blocks that are left. -/
def stages (pen : Point) (left : List Waiting) : List Stage :=
  match left with
  | [] => []
  | first :: rest =>
    let next := nearest pen (first :: rest)
    let block := next.block ((first :: rest).getD next.index first)
    ⟨pen, first :: rest⟩ :: stages block.finish ((first :: rest).eraseIdx next.index)
termination_by left.length
decreasing_by
  have := nearest_index_lt pen (List.cons_ne_nil first rest)
  rw [List.length_eraseIdx_of_lt this]
  simp

/-- The block that is put out at a stage. -/
def Stage.next? (s : Stage) : Option Block :=
  s.left[(nearest s.pen s.left).index]?.map (nearest s.pen s.left).block

/-- The walk puts out one block at each of its stages. -/
theorem map_next?_stages (pen : Point) (left : List Waiting) :
    (stages pen left).map Stage.next? = (walk pen left).map some := by
  fun_induction stages pen left with
  | case1 => simp [walk]
  | case2 pen first rest next block ih =>
    have hnext : Stage.next? ⟨pen, first :: rest⟩ = some block := by
      have hi := nearest_index_lt pen (List.cons_ne_nil first rest)
      simp only [Stage.next?, List.getElem?_eq_getElem hi, Option.map_some, block, next,
        List.getD_eq_getElem?_getD, Option.getD_some]
    rw [walk, List.map_cons, List.map_cons, hnext, ih]

/-! ## Choices -/

/-- A block that waits, to be entered at its start or at its end. -/
@[ext] structure Choice where
  waiting : Waiting
  backwards : Bool
  deriving DecidableEq

namespace Choice

/-- The point at which the block is entered. -/
def anchor (c : Choice) : Point := c.waiting.anchor c.backwards

/-- The block in the direction in which it is entered. -/
def block (c : Choice) : Block :=
  if c.backwards then c.waiting.block.reversed?.getD c.waiting.block else c.waiting.block

end Choice

/-- The choices that one block offers: its end only if it may be turned round. -/
def Waiting.choices (w : Waiting) : List Choice :=
  ⟨w, false⟩ :: if w.reversible then [⟨w, true⟩] else []

/-- The choices among the blocks that are left, in their order. -/
def choices (left : List Waiting) : List Choice := left.flatMap Waiting.choices

theorem mem_choices_iff {left : List Waiting} {c : Choice} :
    c ∈ choices left ↔ c.waiting ∈ left ∧ (c.backwards = true → c.waiting.reversible = true) := by
  obtain ⟨w, backwards⟩ := c
  simp only [choices, List.mem_flatMap, Waiting.choices, List.mem_cons]
  cases backwards <;> grind

theorem mem_choices_of_perm {left left' : List Waiting} (h : left.Perm left') {c : Choice} :
    c ∈ choices left ↔ c ∈ choices left' := by
  rw [mem_choices_iff, mem_choices_iff, h.mem_iff]

/-- The candidates of the scan are as far away as the choices. -/
theorem distances_candidates (pen : Point) (left : List Waiting) :
    (candidates pen left).map Candidate.distance =
      (choices left).map fun c => pen.distance c.anchor := by
  have hone (w : Waiting) (i : Nat) : (w.candidates pen i).map Candidate.distance =
      w.choices.map fun c => pen.distance c.anchor := by
    simp only [Waiting.candidates, Waiting.choices]
    split <;> rfl
  rw [candidates, choices, List.map_flatMap, List.map_flatMap]
  simp only [hone]
  conv_rhs => rw [← List.zipIdx_map_fst 0 left, List.flatMap_map]

theorem exists_candidate_of_mem_choices {left : List Waiting} {d : Choice} (pen : Point)
    (h : d ∈ choices left) : ∃ c ∈ candidates pen left, c.distance = pen.distance d.anchor := by
  have hd := List.mem_map_of_mem (f := fun c : Choice => pen.distance c.anchor) h
  rwa [← distances_candidates, List.mem_map] at hd

theorem exists_choice_of_mem_candidates {pen : Point} {left : List Waiting} {c : Candidate}
    (h : c ∈ candidates pen left) : ∃ d ∈ choices left, pen.distance d.anchor = c.distance := by
  have hc := List.mem_map_of_mem (f := Candidate.distance) h
  rwa [distances_candidates, List.mem_map] at hc

/-- Among the choices none is nearer than `c`, and `c` is nearer than infinity if any one is. -/
structure IsNearest (pen : Point) (left : List Waiting) (c : Choice) : Prop where
  mem : c ∈ choices left
  least : ∀ d ∈ choices left, ¬ pen.distance d.anchor < pen.distance c.anchor
  below : pen.distance c.anchor < farthest ∨
    ∀ d ∈ choices left, ¬ pen.distance d.anchor < farthest

/-- A choice stays nearest if no place to enter a block at is new. -/
theorem IsNearest.of_anchors {pen : Point} {left left' : List Waiting} {c c' : Choice}
    (h : IsNearest pen left c) (hmem : c' ∈ choices left') (hanchor : c'.anchor = c.anchor)
    (hold : ∀ d' ∈ choices left', ∃ d ∈ choices left, d.anchor = d'.anchor) :
    IsNearest pen left' c' := by
  refine ⟨hmem, ?_, ?_⟩
  · intro d' hd'
    obtain ⟨d, hd, heq⟩ := hold d' hd'
    rw [hanchor, ← heq]
    exact h.least d hd
  · rw [hanchor]
    refine h.below.imp_right fun hnone d' hd' => ?_
    obtain ⟨d, hd, heq⟩ := hold d' hd'
    exact heq ▸ hnone d hd

/-- The scan finds a nearest choice. -/
theorem exists_isNearest (pen : Point) {left : List Waiting} (h : left ≠ []) :
    ∃ w, left[(nearest pen left).index]? = some w ∧
      IsNearest pen left ⟨w, (nearest pen left).backwards⟩ := by
  rcases nearest_cases pen left with ⟨he, hn⟩ | ⟨hlt, hf⟩
  · -- no choice is nearer than infinity, and the first block is taken as it is
    have hnone : ∀ d ∈ choices left, ¬ pen.distance d.anchor < farthest := by
      intro d hd
      obtain ⟨c, hc, hdist⟩ := exists_candidate_of_mem_choices pen hd
      exact hdist ▸ hn c hc
    obtain ⟨first, rest, rfl⟩ := List.exists_cons_of_ne_nil h
    rw [he]
    refine ⟨first, rfl, mem_choices_iff.2 ⟨List.mem_cons_self, by simp⟩, ?_, .inr hnone⟩
    intro d hd hlt
    exact hnone d hd (lt_farthest_of_lt hlt)
  · obtain ⟨w, hw, hr, hdist⟩ := mem_candidates_iff.1 hf.mem
    have hanchor : pen.distance (Choice.anchor ⟨w, (nearest pen left).backwards⟩) =
        (nearest pen left).distance := hdist.symm
    refine ⟨w, hw, mem_choices_iff.2 ⟨List.mem_of_getElem? hw, hr⟩, ?_, .inl (hanchor ▸ hlt)⟩
    intro d hd
    obtain ⟨c, hc, hcd⟩ := exists_candidate_of_mem_choices pen hd
    rw [hanchor, ← hcd]
    exact hf.not_lt c hc

/-! ## Steps -/

/-- One step of the walk: a nearest choice `c` is taken, and the walk goes on from its other end
through the blocks `rest` that are left then. -/
structure WalkStep (pen : Point) (left : List Waiting) (c : Choice) (rest : List Waiting) :
    Prop where
  nearest : IsNearest pen left c
  perm : (c.waiting :: rest).Perm left
  walk_eq : walk pen left = c.block :: walk c.block.finish rest
  stages_eq : stages pen left = ⟨pen, left⟩ :: stages c.block.finish rest

theorem exists_walkStep (pen : Point) {left : List Waiting} (h : left ≠ []) :
    ∃ c rest, WalkStep pen left c rest := by
  obtain ⟨w, hw, hn⟩ := exists_isNearest pen h
  obtain ⟨hi, hget⟩ := List.getElem?_eq_some_iff.1 hw
  have hperm := List.getElem_cons_eraseIdx_perm hi
  rw [hget] at hperm
  refine ⟨_, left.eraseIdx (nearest pen left).index, hn, hperm, ?_, ?_⟩
  · cases left with
    | nil => contradiction
    | cons first rest =>
      rw [walk, List.getD_eq_getElem?_getD, hw]
      rfl
  · cases left with
    | nil => contradiction
    | cons first rest =>
      rw [stages, List.getD_eq_getElem?_getD, hw]
      rfl

/-- What each step of the walk carries over holds of the whole walk. -/
theorem walk_induction {P : Point → List Waiting → Prop} (nil : ∀ pen, P pen [])
    (step : ∀ pen left c rest, WalkStep pen left c rest → P c.block.finish rest → P pen left)
    (pen : Point) (left : List Waiting) : P pen left := by
  induction hn : left.length generalizing pen left with
  | zero =>
    obtain rfl := List.length_eq_zero_iff.1 hn
    exact nil pen
  | succ n ih =>
    obtain ⟨c, rest, hs⟩ := exists_walkStep pen (List.ne_nil_of_length_eq_add_one hn)
    have hlength := hs.perm.length_eq
    rw [hn, List.length_cons] at hlength
    exact step pen left c rest hs (ih _ _ (Nat.succ.inj hlength))

/-- Every block that is put out has been chosen among the blocks of the walk. -/
theorem exists_choice_of_mem_walk (pen : Point) (left : List Waiting) :
    ∀ b ∈ walk pen left, ∃ c ∈ choices left, c.block = b := by
  induction pen, left using walk_induction with
  | nil pen => simp [walk]
  | step pen left c rest hs ih =>
    rw [hs.walk_eq, List.forall_mem_cons]
    refine ⟨⟨c, hs.nearest.mem, rfl⟩, fun b hb => ?_⟩
    obtain ⟨d, hd, rfl⟩ := ih b hb
    obtain ⟨hmem, hallowed⟩ := mem_choices_iff.1 hd
    exact ⟨d, mem_choices_iff.2 ⟨hs.perm.subset (List.mem_cons_of_mem _ hmem), hallowed⟩, rfl⟩

end LaserPath
