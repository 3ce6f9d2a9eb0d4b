import LaserPath.Route.Nearest
import Mathlib.Data.List.GetD
import Mathlib.Data.List.InsertIdx

/-!
# What the router does not see

The router reads where a block is entered and left and whether its toolpath can be reversed. A map
of blocks that leaves these alone and commutes with reversal does not change the route: the blocks
come out in the same order, and the same ones are turned round.

## Main definitions

* `Block.Unseen` — a map of blocks that the router does not see.

## Main statements

* `Block.Unseen.optimizeTravel_map`, `Block.Unseen.travelDistance_map` — the route and the travel of
  blocks under such a map.
-/

namespace LaserPath

/-- The map keeps the ends of a block, and blocks may be reversed before it or behind it. -/
structure Block.Unseen (f : Block → Block) : Prop where
  start_eq : ∀ b, (f b).start = b.start
  finish_eq : ∀ b, (f b).finish = b.finish
  isReversible_eq : ∀ b, (f b).isReversible = b.isReversible
  reversed?_eq : ∀ b, (f b).reversed? = b.reversed?.map f

def Waiting.map (f : Block → Block) (w : Waiting) : Waiting := { w with block := f w.block }

namespace Block.Unseen

variable {f : Block → Block} (hf : Block.Unseen f)

include hf

theorem candidates_map (pen : Point) (left : List Waiting) :
    candidates pen (left.map (Waiting.map f)) = candidates pen left := by
  rw [candidates, List.zipIdx_map, List.flatMap_map]
  simp [candidates, Waiting.candidates, Waiting.map, hf.start_eq, hf.finish_eq]

theorem nearest_map (pen : Point) (left : List Waiting) :
    nearest pen (left.map (Waiting.map f)) = nearest pen left := by
  rw [nearest, hf.candidates_map, nearest]

theorem block_map (c : Candidate) (w : Waiting) : c.block (w.map f) = f (c.block w) := by
  unfold Candidate.block
  split
  · rw [Waiting.map, hf.reversed?_eq]
    cases w.block.reversed? <;> rfl
  · rfl

theorem walk_map (pen : Point) (left : List Waiting) :
    walk pen (left.map (Waiting.map f)) = (walk pen left).map f := by
  fun_induction walk pen left with
  | case1 => simp [walk]
  | case2 pen first rest next block ih =>
    have hblock : next.block (((first :: rest).map (Waiting.map f)).getD next.index
        (first.map f)) = f block := by
      rw [List.getD_map, hf.block_map]
    rw [List.map_cons, walk, ← List.map_cons, hf.nearest_map, hblock, List.eraseIdx_map,
      hf.finish_eq, ih, List.map_cons]

/-- The route of mapped blocks is the mapped route. -/
theorem optimizeTravel_map (start : Point) (blocks : List Block) :
    optimizeTravel start (blocks.map f) = (optimizeTravel start blocks).map f := by
  rw [optimizeTravel, optimizeTravel, ← hf.walk_map, List.map_map, List.map_map]
  simp [Function.comp_def, Waiting.map, hf.isReversible_eq]

theorem travelFrom_map (pen : Point) (total : Float) (blocks : List Block) :
    travelFrom pen total (blocks.map f) = travelFrom pen total blocks := by
  induction blocks generalizing pen total with
  | nil => rfl
  | cons b rest ih => rw [List.map_cons, travelFrom, travelFrom, hf.start_eq, hf.finish_eq, ih]

theorem travelDistance_map (pen : Point) (blocks : List Block) :
    travelDistance pen (blocks.map f) = travelDistance pen blocks :=
  hf.travelFrom_map pen 0 blocks

end Block.Unseen

end LaserPath
