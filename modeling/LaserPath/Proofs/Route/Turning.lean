import LaserPath.Proofs.Route.Conservation
import LaserPath.Proofs.Toolpath.Coordinates

/-!
# Blocks that the router turns round

The router trusts the anchors of a block: it goes to the one and counts from the other. Where
these are the ends of the trace they stay so, for a toolpath that is traced backwards ends at the
same points in the opposite order, and a block that is turned round has its anchors exchanged.

## Main definitions

* `Block.Anchored` — the anchors are the first and the last point of the trace.
* `Block.Turned` — a block before and after it is turned round.

## Main statements

* `Block.Routed.anchored` — the router keeps blocks anchored.
* `exists_perm_turned` — what the router does to the blocks.
-/

namespace LaserPath

namespace Block

/-- The block is entered at the first point of its trace and left at the last one. -/
def Anchored (b : Block) : Prop :=
  b.toolpath.firstPoint?.any (·.coincides b.start) = true ∧
    b.toolpath.lastPoint?.any (·.coincides b.finish) = true

theorem anchored_of_isReversible {b : Block} (h : b.isReversible = true) : b.Anchored := by
  simp only [isReversible, Bool.and_eq_true] at h
  exact ⟨h.1.1.2, h.1.2⟩

/-- The block `b'` is `b` traced backwards: the commands of the reversed toolpath stand behind a
comment, the anchors are exchanged, and the direction is marked as the other one. -/
structure Turned (b b' : Block) : Prop where
  allowed : b.isReversible = true
  eq : ∃ t, b.toolpath.reversed? = some t ∧
    b' = { b with
      toolpath := reversedComment :: t
      start := b.finish
      finish := b.start
      isReversed := !b.isReversed }
  anchored : b'.Anchored

variable {b b' : Block}

theorem Anchored.reversed? (h : b.Anchored) (hb : b.reversed? = some b') : b'.Anchored := by
  obtain ⟨t, ht, rfl⟩ := Option.map_eq_some_iff.1 hb
  have hfirst : Toolpath.firstPoint? (reversedComment :: t) = b.toolpath.lastPoint? := by
    rw [← Toolpath.firstPoint?_reversed? ht]
    rfl
  have hlast : Toolpath.lastPoint? (reversedComment :: t) = b.toolpath.firstPoint? := by
    rw [← Toolpath.lastPoint?_reversed? ht, Toolpath.lastPoint?_eq_getLast?,
      Toolpath.lastPoint?_eq_getLast?]
    rfl
  exact ⟨hfirst ▸ h.2, hlast ▸ h.1⟩

theorem Routed.anchored (h : b.Routed b') (hb : b.Anchored) : b'.Anchored := by
  cases h with
  | kept => exact hb
  | turned _ h => exact hb.reversed? h

theorem Routed.eq_or_turned (h : b.Routed b') : b' = b ∨ b.Turned b' := by
  cases h with
  | kept => exact .inl rfl
  | turned allowed hb =>
    obtain ⟨t, ht, heq⟩ := Option.map_eq_some_iff.1 hb
    exact .inr ⟨allowed, ⟨t, ht, heq.symm⟩, (anchored_of_isReversible allowed).reversed? hb⟩

end Block

/-- The router permutes the blocks and turns round some that may be. A block that it turns round
is anchored, and so is every other one that was. -/
theorem exists_perm_turned (start : Point) (blocks : List Block) :
    ∃ order : List Block, order.Perm blocks ∧
      List.Forall₂ (fun b b' => (b' = b ∨ b.Turned b') ∧ (b.Anchored → b'.Anchored))
        order (optimizeTravel start blocks) := by
  obtain ⟨order, hp, hf⟩ := exists_perm_optimizeTravel start blocks
  exact ⟨order, hp, hf.imp fun _ _ h => ⟨h.eq_or_turned, h.anchored⟩⟩

end LaserPath
