import LaserPath.Point
import LaserPath.Decimal.Spelling

/-!
# Settings

The rates and the power of the laser, and how the program is put together.
Settings are checked before they are used.

## Main definitions

* `LaserSettings`, `OutputSettings`, `Config` — the settings with their
  defaults.
* `SettingsError` — why settings are refused.
* `Config.check` — the first reason to refuse, if there is one.
-/

namespace LaserPath

/-- The rates in millimetres per minute and the power of the laser. -/
structure LaserSettings where
  feedRate : Float := 1000
  rapidFeedRate : Float := 3000
  power : Float := 255
  deriving DecidableEq

/-- How the program is put together. -/
structure OutputSettings where
  /-- Are shapes put into an order with less travel? -/
  optimizeTravel : Bool := true
  /-- Where the head is at the start. -/
  startX : Float := 0
  startY : Float := 0
  /-- Does the laser follow the speed of the head? -/
  inlineLaser : Bool := true
  deriving DecidableEq

/-- Where the head is at the start. -/
def OutputSettings.start (s : OutputSettings) : Point := ⟨s.startX, s.startY⟩

/-- All settings. -/
structure Config where
  laser : LaserSettings := {}
  output : OutputSettings := {}
  deriving DecidableEq

/-- Why settings are refused, with the value that is refused. -/
inductive SettingsError where
  | feedRate (value : Float)
  | rapidFeedRate (value : Float)
  | power (value : Float)
  | start (x y : Float)
  deriving DecidableEq

/-- The text of a refusal. -/
def SettingsError.message : SettingsError → String
  | .feedRate value =>
    "Invalid parameters: feed rate must be positive (got " ++
      spellShortest .plain value ++ ")"
  | .rapidFeedRate value =>
    "Invalid parameters: rapid feed rate must be positive (got " ++
      spellShortest .plain value ++ ")"
  | .power value =>
    "Invalid parameters: laser power must be non-negative (got " ++
      spellShortest .plain value ++ ")"
  | .start x y =>
    "Invalid setting 'start position': (" ++ spellShortest .plain x ++ ", " ++
      spellShortest .plain y ++ ") is not finite"

/-- Both rates are finite and positive; the power is finite and not negative. -/
def LaserSettings.check (s : LaserSettings) : Except SettingsError Unit :=
  if !s.feedRate.isFinite || s.feedRate ≤ 0 then .error (.feedRate s.feedRate)
  else if !s.rapidFeedRate.isFinite || s.rapidFeedRate ≤ 0 then
    .error (.rapidFeedRate s.rapidFeedRate)
  else if !s.power.isFinite || s.power < 0 then .error (.power s.power)
  else .ok ()

/-- The start is finite. -/
def OutputSettings.check (s : OutputSettings) : Except SettingsError Unit :=
  if !s.startX.isFinite || !s.startY.isFinite then .error (.start s.startX s.startY)
  else .ok ()

/-- Checks the laser first and the output second. -/
def Config.check (c : Config) : Except SettingsError Unit := do
  c.laser.check
  c.output.check

end LaserPath
