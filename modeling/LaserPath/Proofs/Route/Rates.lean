import LaserPath.Proofs.Route.Relabel
import LaserPath.Proofs.Toolpath.Rates

/-!
# Routes at other rates

The router does not see rates, so it puts blocks at other rates into the same order and turns the
same ones round.

## Main statements

* `optimizeTravel_atRates` — the route of blocks at other rates.
-/

namespace LaserPath

variable (s : LaserSettings)

namespace Block

def atRates (b : Block) : Block := { b with toolpath := b.toolpath.atRates s }

theorem unseen_atRates : Unseen (atRates s) where
  start_eq _ := rfl
  finish_eq _ := rfl
  isReversible_eq b := by simp [isReversible, atRates, Toolpath.reversed?_atRates]
  reversed?_eq b := by
    simp only [reversed?, atRates, Toolpath.reversed?_atRates, Option.map_map]
    rfl

end Block

/-- The router does not read rates. -/
theorem optimizeTravel_atRates (start : Point) (blocks : List Block) :
    optimizeTravel start (blocks.map (Block.atRates s)) =
      (optimizeTravel start blocks).map (Block.atRates s) :=
  (Block.unseen_atRates s).optimizeTravel_map start blocks

@[simp] theorem travelDistance_atRates (pen : Point) (blocks : List Block) :
    travelDistance pen (blocks.map (Block.atRates s)) = travelDistance pen blocks :=
  (Block.unseen_atRates s).travelDistance_map pen blocks

end LaserPath
