import LaserPath.Route.Nearest
import Mathlib.Data.List.Forall2
import Mathlib.Data.List.Perm.Basic

/-!
# What the router does to blocks

The walk takes every block exactly once. A block comes out as it went in or, where that is
allowed, turned round; nothing else about it changes. The order is a permutation that is
paired with the blocks put out, so that every fact about the blocks of a selection can be
carried over to the blocks of its program.

## Main definitions

* `Block.Routed` — a block before and after the router.

## Main statements

* `exists_perm_optimizeTravel` — the router permutes the blocks and turns some of them round.
-/

namespace LaserPath

/-- What may become of a block on its way through the router. -/
inductive Block.Routed (b : Block) : Block → Prop where
  | kept : Block.Routed b b
  | turned {b' : Block} (allowed : b.isReversible = true) (h : b.reversed? = some b') :
    Block.Routed b b'

/-- A candidate that is to be traced backwards belongs to a block that may be turned round. -/
theorem reversible_of_mem_candidates {pen : Point} {left : List Waiting} {c : Candidate}
    (h : c ∈ candidates pen left) (hb : c.backwards = true) :
    ∃ w, left[c.index]? = some w ∧ w.reversible = true := by
  simp only [candidates, List.mem_flatMap, Prod.exists] at h
  obtain ⟨w, index, hw, hc⟩ := h
  have hget : left[index]? = some w := List.mem_zipIdx_iff_getElem?.1 hw
  simp only [Waiting.candidates, List.mem_cons] at hc
  rcases hc with rfl | hc
  · simp at hb
  · split at hc
    · next hr =>
      obtain rfl := List.mem_singleton.1 hc
      exact ⟨w, hget, hr⟩
    · simp at hc

theorem reversible_of_nearest {pen : Point} {left : List Waiting}
    (hb : (nearest pen left).backwards = true) :
    ∃ w, left[(nearest pen left).index]? = some w ∧ w.reversible = true := by
  rcases foldl_closer_mem ⟨0, false, farthest⟩ (candidates pen left) with hn | hm
  · rw [nearest, hn] at hb
    simp at hb
  · exact reversible_of_mem_candidates hm hb

/-- The block of a candidate is that of the waiting block, turned round only if it may be. -/
theorem Candidate.routed_block (c : Candidate) (w : Waiting)
    (h : c.backwards = true → w.block.isReversible = true) : w.block.Routed (c.block w) := by
  unfold Candidate.block
  split
  · next hb =>
    cases hr : w.block.reversed? with
    | none => exact .kept
    | some b => exact .turned (h hb) hr
  · exact .kept

/-- Does the flag of a waiting block say whether the block may be turned round? -/
def Waiting.Settled (w : Waiting) : Prop := w.reversible = w.block.isReversible

/-- One step of the walk: the block that is next, and the blocks that are left without it. -/
theorem exists_next (pen : Point) {left : List Waiting} (first : Waiting) (h : left ≠ [])
    (hs : ∀ w ∈ left, w.Settled) :
    ∃ w : Waiting, (w :: left.eraseIdx (nearest pen left).index).Perm left ∧
      w.block.Routed ((nearest pen left).block (left.getD (nearest pen left).index first)) := by
  have hi := nearest_index_lt pen h
  refine ⟨left[(nearest pen left).index], List.getElem_cons_eraseIdx_perm hi, ?_⟩
  rw [List.getD_eq_getElem?_getD, List.getElem?_eq_getElem hi, Option.getD_some]
  refine Candidate.routed_block _ _ fun hb => ?_
  obtain ⟨w, hw, hr⟩ := reversible_of_nearest hb
  obtain rfl : left[(nearest pen left).index] = w := by
    simpa [List.getElem?_eq_getElem hi] using hw
  exact (hs _ (List.getElem_mem hi)).symm.trans hr

/-- The walk takes the blocks in some order and turns round some that may be. -/
theorem exists_perm_walk (pen : Point) (left : List Waiting) (hs : ∀ w ∈ left, w.Settled) :
    ∃ order : List Block, order.Perm (left.map Waiting.block) ∧
      List.Forall₂ Block.Routed order (walk pen left) := by
  fun_induction walk pen left with
  | case1 => exact ⟨[], .refl _, .nil⟩
  | case2 pen first rest next block ih =>
    obtain ⟨order, hp, hf⟩ := ih fun w hw => hs w (List.mem_of_mem_eraseIdx hw)
    obtain ⟨w, hw, hr⟩ := exists_next pen first (List.cons_ne_nil first rest) hs
    refine ⟨w.block :: order, ?_, .cons hr hf⟩
    exact (hp.cons w.block).trans (hw.map Waiting.block)

/-- The router puts the blocks into some order and turns round some that may be. -/
theorem exists_perm_optimizeTravel (start : Point) (blocks : List Block) :
    ∃ order : List Block, order.Perm blocks ∧
      List.Forall₂ Block.Routed order (optimizeTravel start blocks) := by
  have hs : ∀ w ∈ blocks.map fun b => (⟨b, b.isReversible⟩ : Waiting), w.Settled := by
    intro w hw
    obtain ⟨b, -, rfl⟩ := List.mem_map.1 hw
    rfl
  simpa [optimizeTravel, Function.comp_def] using exists_perm_walk start _ hs

end LaserPath
