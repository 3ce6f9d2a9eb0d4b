import LaserPath.Config.Json
import LaserPath.Proofs.Json.Numbers
import LaserPath.Proofs.Settings

/-!
# Settings in JSON, written and read

Settings are read as they were written if each of their numbers is.

## Main statements

* `Config.readJson?_jsonText_iff` — settings are read back if all of their numbers are.
-/

namespace LaserPath

/-- The laser section is read field by field. -/
theorem LaserSettings.ofJson?_eq_some_iff {feedRate rapidFeedRate power : Json}
    {s : LaserSettings} :
    ofJson? (.object [("feed_rate", feedRate), ("rapid_feed_rate", rapidFeedRate),
      ("laser_power", power)]) = some s ↔ feedRate.float? = some s.feedRate ∧
        rapidFeedRate.float? = some s.rapidFeedRate ∧ power.float? = some s.power := by
  have hread : ofJson? (.object [("feed_rate", feedRate), ("rapid_feed_rate", rapidFeedRate),
      ("laser_power", power)]) = (do
    return ⟨← feedRate.float?, ← rapidFeedRate.float?, ← power.float?⟩) := rfl
  rw [hread]
  obtain ⟨a, b, d⟩ := s
  cases feedRate.float? <;> cases rapidFeedRate.float? <;> cases power.float? <;> simp

/-- The output section is read field by field. -/
theorem OutputSettings.ofJson?_eq_some_iff {startX startY : Json} {s : OutputSettings} :
    ofJson? (.object [("optimize_travel", .bool s.optimizeTravel), ("start_x", startX),
      ("start_y", startY), ("inline_laser", .bool s.inlineLaser)]) = some s ↔
        startX.float? = some s.startX ∧ startY.float? = some s.startY := by
  have hread : ofJson? (.object [("optimize_travel", .bool s.optimizeTravel), ("start_x", startX),
      ("start_y", startY), ("inline_laser", .bool s.inlineLaser)]) = (do
    return ⟨s.optimizeTravel, ← startX.float?, ← startY.float?, s.inlineLaser⟩) := rfl
  rw [hread]
  obtain ⟨a, b, d, e⟩ := s
  cases startX.float? <;> cases startY.float? <;> simp

namespace Config

variable {c : Config}

theorem ofJson?_eq_some_iff {laser output : Json} :
    ofJson? (.object [("laser", laser), ("output", output)]) = some c ↔
      LaserSettings.ofJson? laser = some c.laser ∧
        OutputSettings.ofJson? output = some c.output := by
  have hread : ofJson? (.object [("laser", laser), ("output", output)]) = (do
    return ⟨← LaserSettings.ofJson? laser, ← OutputSettings.ofJson? output⟩) := rfl
  rw [hread]
  obtain ⟨a, b⟩ := c
  cases LaserSettings.ofJson? laser <;> cases OutputSettings.ofJson? output <;> simp

/-- Finite settings are read back if the digits of their numbers are read with correct rounding. -/
theorem readJson?_jsonText_iff (h : ∀ x ∈ c.numbers, x.isFinite = true) :
    readJson? c.jsonText = some c ↔ ∀ x ∈ c.numbers, Json.ReadsNearest x := by
  have hread : readJson? c.jsonText = ofJson? (.object [
      ("laser", .object [("feed_rate", (Json.ofFloat c.laser.feedRate).reread),
        ("rapid_feed_rate", (Json.ofFloat c.laser.rapidFeedRate).reread),
        ("laser_power", (Json.ofFloat c.laser.power).reread)]),
      ("output", .object [("optimize_travel", .bool c.output.optimizeTravel),
        ("start_x", (Json.ofFloat c.output.startX).reread),
        ("start_y", (Json.ofFloat c.output.startY).reread),
        ("inline_laser", .bool c.output.inlineLaser)])]) := by
    rw [readJson?, jsonText, Json.read_pretty]
    rfl
  simp only [numbers, List.forall_mem_cons] at h ⊢
  obtain ⟨hf, hr, hp, hx, hy, -⟩ := h
  rw [hread, ofJson?_eq_some_iff, LaserSettings.ofJson?_eq_some_iff,
    OutputSettings.ofJson?_eq_some_iff, Json.float?_reread_iff hf, Json.float?_reread_iff hr,
    Json.float?_reread_iff hp, Json.float?_reread_iff hx, Json.float?_reread_iff hy]
  simp [and_assoc]

end Config

end LaserPath
