import LaserPath.Settings

/-!
# Requests

A request names a scene and says which settings it is compiled with and where
the program goes.

## Main definitions

* `Overrides` — settings given beside a configuration.
* `Request` — what one run is asked to do.

## Main statements

* `Overrides.apply_empty` — nothing is overridden unless it is given.
-/

namespace LaserPath

/-- Settings that take the place of those of a configuration. -/
structure Overrides where
  feedRate? : Option Float := none
  rapidFeedRate? : Option Float := none
  power? : Option Float := none
  startX? : Option Float := none
  startY? : Option Float := none
  /-- Are shapes left in the order of the selection? -/
  keepsOrder : Bool := false
  /-- Does the laser not follow the speed of the head? -/
  plainLaser : Bool := false
  deriving DecidableEq

namespace Overrides

/-- The configuration with the given settings in it. -/
def apply (o : Overrides) (c : Config) : Config where
  laser :=
    { feedRate := o.feedRate?.getD c.laser.feedRate
      rapidFeedRate := o.rapidFeedRate?.getD c.laser.rapidFeedRate
      power := o.power?.getD c.laser.power }
  output :=
    { optimizeTravel := c.output.optimizeTravel && !o.keepsOrder
      startX := o.startX?.getD c.output.startX
      startY := o.startY?.getD c.output.startY
      inlineLaser := c.output.inlineLaser && !o.plainLaser }

@[simp] theorem apply_empty (c : Config) : ({} : Overrides).apply c = c := by
  simp [apply]

end Overrides

/-- What one run is asked to do. -/
structure Request where
  /-- The path of the scene. -/
  scene : String
  /-- The path of a configuration in place of that of the user. -/
  config? : Option String := none
  /-- The path of the program, or of a directory for it. -/
  output? : Option String := none
  /-- The path under which the settings of the run are saved. -/
  saveConfig? : Option String := none
  overrides : Overrides := {}
  deriving DecidableEq

end LaserPath
