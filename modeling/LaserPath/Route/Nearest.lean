import LaserPath.Route.Block

/-!
# Nearest next

The order of the blocks with less travel: from where the head is, the nearest
anchor of the blocks that are left is next. The end of a block counts only if
the block may be reversed, and taking it reverses the block.

## Main definitions

* `Candidate` — a block and the direction in which to trace it.
* `nearest` — the candidate at the least distance, the first one if there are
  several.
* `optimizeTravel` — the blocks in their new order.

## Main statements

* `nearest_index_lt` — the nearest candidate is one of the blocks.
* `length_optimizeTravel` — no block is lost.
-/

namespace LaserPath

/-- A distance above all others. -/
def farthest : Float := Binary64.signed false Binary64.infinityWord

/-- A block that may be next, by its position among those left, and whether to
trace it backwards. -/
structure Candidate where
  index : Nat
  backwards : Bool
  distance : Float
  deriving DecidableEq

/-- A block with the answer to whether it may be reversed. -/
structure Waiting where
  block : Block
  reversible : Bool
  deriving DecidableEq

/-- The candidates of one block: its start, and its end if it may be reversed. -/
def Waiting.candidates (pen : Point) (w : Waiting) (index : Nat) : List Candidate :=
  ⟨index, false, pen.distance w.block.start⟩ ::
    if w.reversible then [⟨index, true, pen.distance w.block.finish⟩] else []

/-- The candidates of the blocks left, in their order. -/
def candidates (pen : Point) (left : List Waiting) : List Candidate :=
  left.zipIdx.flatMap fun (w, index) => w.candidates pen index

/-- A candidate replaces another one if it is strictly nearer. -/
def Candidate.closer (best c : Candidate) : Candidate :=
  if c.distance < best.distance then c else best

/-- The nearest candidate; the first block forwards if none is nearer than infinity. -/
def nearest (pen : Point) (left : List Waiting) : Candidate :=
  (candidates pen left).foldl Candidate.closer ⟨0, false, farthest⟩

theorem foldl_closer_mem (best : Candidate) (cs : List Candidate) :
    cs.foldl Candidate.closer best = best ∨ cs.foldl Candidate.closer best ∈ cs := by
  induction cs generalizing best with
  | nil => simp
  | cons c rest ih =>
    rw [List.foldl_cons]
    rcases ih (best.closer c) with h | h
    · rw [h, Candidate.closer]
      split <;> simp
    · simp [h]

theorem index_lt_of_mem_candidates {pen : Point} {left : List Waiting} {c : Candidate}
    (h : c ∈ candidates pen left) : c.index < left.length := by
  simp only [candidates, List.mem_flatMap, Prod.exists] at h
  obtain ⟨w, index, hw, hc⟩ := h
  have := List.snd_lt_of_mem_zipIdx hw
  simp only [Waiting.candidates, List.mem_cons] at hc
  grind

/-- The nearest candidate is one of the blocks left. -/
theorem nearest_index_lt (pen : Point) {left : List Waiting} (h : left ≠ []) :
    (nearest pen left).index < left.length := by
  rcases foldl_closer_mem ⟨0, false, farthest⟩ (candidates pen left) with hb | hm
  · rw [nearest, hb]
    exact List.length_pos_iff.2 h
  · exact index_lt_of_mem_candidates hm

/-- The block of a candidate, in the direction of the candidate. -/
def Candidate.block (c : Candidate) (w : Waiting) : Block :=
  if c.backwards then w.block.reversed?.getD w.block else w.block

/-- The walk from `pen` through the blocks that are left. -/
def walk (pen : Point) (left : List Waiting) : List Block :=
  match left with
  | [] => []
  | first :: rest =>
    let next := nearest pen (first :: rest)
    let block := next.block ((first :: rest).getD next.index first)
    block :: walk block.finish ((first :: rest).eraseIdx next.index)
termination_by left.length
decreasing_by
  have := nearest_index_lt pen (List.cons_ne_nil first rest)
  rw [List.length_eraseIdx_of_lt this]
  simp

/-- The blocks in an order with less travel from `start` on. Whether a block
may be reversed is settled before the walk. -/
def optimizeTravel (start : Point) (blocks : List Block) : List Block :=
  walk start (blocks.map fun b => ⟨b, b.isReversible⟩)

theorem length_walk (pen : Point) (left : List Waiting) :
    (walk pen left).length = left.length := by
  fun_induction walk pen left with
  | case1 => rfl
  | case2 pen first rest next block ih =>
    have := nearest_index_lt pen (List.cons_ne_nil first rest)
    rw [List.length_cons, ih, List.length_eraseIdx_of_lt this]
    simp

/-- No block is lost or doubled. -/
@[simp] theorem length_optimizeTravel (start : Point) (blocks : List Block) :
    (optimizeTravel start blocks).length = blocks.length := by
  simp [optimizeTravel, length_walk]

end LaserPath
