import LaserPath.Proofs.Decimal.Order
import LaserPath.Settings

/-!
# Settings that pass

Settings pass if both rates are above zero, the power is not below zero, and all of this and the
start are finite. Of several faults the first in this order is reported.

## Main definitions

* `Config.Valid` — what is asked of settings.
* `Config.FirstFault` — the fault that is reported.

## Main statements

* `Config.check_eq_ok_iff`, `Config.check_eq_error_iff` — the check finds the first fault.
-/

namespace LaserPath

namespace Binary64

variable {x y : Float}

theorem exists_place_of_isFinite (h : x.isFinite = true) : ∃ p, place? x = some p := by
  obtain ⟨p, hp, -⟩ := Place.lt_top_of_isFinite (a := x.toModel.unpack) h
  exact ⟨p, hp⟩

/-- Numbers are ordered linearly. -/
theorem not_le_iff_lt (hx : x.isFinite = true) (hy : y.isFinite = true) : ¬ x ≤ y ↔ y < x := by
  obtain ⟨p, hp⟩ := exists_place_of_isFinite hx
  obtain ⟨q, hq⟩ := exists_place_of_isFinite hy
  grind [lt_iff_place, le_iff_place]

theorem not_lt_iff_le (hx : x.isFinite = true) (hy : y.isFinite = true) : ¬ x < y ↔ y ≤ x := by
  obtain ⟨p, hp⟩ := exists_place_of_isFinite hx
  obtain ⟨q, hq⟩ := exists_place_of_isFinite hy
  grind [lt_iff_place, le_iff_place]

end Binary64

/-- A finite number above zero. -/
def IsPositive (x : Float) : Prop := x.isFinite = true ∧ 0 < x

/-- A finite number that is not below zero. -/
def IsNonnegative (x : Float) : Prop := x.isFinite = true ∧ 0 ≤ x

theorem refused_unless_positive (x : Float) : (!x.isFinite || x ≤ 0) = true ↔ ¬ IsPositive x := by
  cases h : x.isFinite with
  | false => simp [IsPositive, h]
  | true =>
    have := Binary64.not_le_iff_lt h (rfl : (0 : Float).isFinite = true)
    simp only [IsPositive, h]
    grind

theorem refused_unless_nonnegative (x : Float) :
    (!x.isFinite || x < 0) = true ↔ ¬ IsNonnegative x := by
  cases h : x.isFinite with
  | false => simp [IsNonnegative, h]
  | true =>
    have := Binary64.not_lt_iff_le h (rfl : (0 : Float).isFinite = true)
    simp only [IsNonnegative, h]
    grind

/-- Rates are above zero, the power is not below zero, and everything is finite. -/
structure Config.Valid (c : Config) : Prop where
  feedRate : IsPositive c.laser.feedRate
  rapidFeedRate : IsPositive c.laser.rapidFeedRate
  power : IsNonnegative c.laser.power
  startX : c.output.startX.isFinite = true
  startY : c.output.startY.isFinite = true

/-- The numbers of settings. -/
def Config.numbers (c : Config) : List Float :=
  [c.laser.feedRate, c.laser.rapidFeedRate, c.laser.power, c.output.startX, c.output.startY]

theorem Config.Valid.isFinite {c : Config} (h : c.Valid) {x : Float} (hx : x ∈ c.numbers) :
    x.isFinite = true := by
  simp only [Config.numbers, List.mem_cons, List.not_mem_nil, or_false] at hx
  rcases hx with rfl | rfl | rfl | rfl | rfl
  · exact h.feedRate.1
  · exact h.rapidFeedRate.1
  · exact h.power.1
  · exact h.startX
  · exact h.startY

/-- The first fault of settings: of the feed rate, the rapid feed rate, the power or the start. -/
inductive Config.FirstFault (c : Config) : SettingsError → Prop where
  | feedRate (h : ¬ IsPositive c.laser.feedRate) : c.FirstFault (.feedRate c.laser.feedRate)
  | rapidFeedRate (h₁ : IsPositive c.laser.feedRate) (h : ¬ IsPositive c.laser.rapidFeedRate) :
    c.FirstFault (.rapidFeedRate c.laser.rapidFeedRate)
  | power (h₁ : IsPositive c.laser.feedRate) (h₂ : IsPositive c.laser.rapidFeedRate)
    (h : ¬ IsNonnegative c.laser.power) : c.FirstFault (.power c.laser.power)
  | start (h₁ : IsPositive c.laser.feedRate) (h₂ : IsPositive c.laser.rapidFeedRate)
    (h₃ : IsNonnegative c.laser.power)
    (h : c.output.startX.isFinite = false ∨ c.output.startY.isFinite = false) :
    c.FirstFault (.start c.output.startX c.output.startY)

namespace Config

variable {c : Config} {error : SettingsError}

/-- The check says what is wrong first, or that nothing is. -/
theorem check_cases (c : Config) :
    (c.check = .ok () ∧ c.Valid) ∨ ∃ error, c.check = .error error ∧ c.FirstFault error := by
  unfold check LaserSettings.check OutputSettings.check
  split
  · next h => exact .inr ⟨_, rfl, .feedRate ((refused_unless_positive _).1 h)⟩
  next h₁ =>
  rw [refused_unless_positive, not_not] at h₁
  split
  · next h => exact .inr ⟨_, rfl, .rapidFeedRate h₁ ((refused_unless_positive _).1 h)⟩
  next h₂ =>
  rw [refused_unless_positive, not_not] at h₂
  split
  · next h => exact .inr ⟨_, rfl, .power h₁ h₂ ((refused_unless_nonnegative _).1 h)⟩
  next h₃ =>
  rw [refused_unless_nonnegative, not_not] at h₃
  cases hx : c.output.startX.isFinite with
  | false => exact .inr ⟨_, rfl, .start h₁ h₂ h₃ (.inl hx)⟩
  | true =>
    cases hy : c.output.startY.isFinite with
    | false => exact .inr ⟨_, rfl, .start h₁ h₂ h₃ (.inr hy)⟩
    | true => exact .inl ⟨rfl, h₁, h₂, h₃, hx, hy⟩

theorem FirstFault.not_valid (h : c.FirstFault error) : ¬ c.Valid := by
  intro hv
  cases h with
  | feedRate h => exact h hv.feedRate
  | rapidFeedRate _ h => exact h hv.rapidFeedRate
  | power _ _ h => exact h hv.power
  | start _ _ _ h => grind [hv.startX, hv.startY]

/-- There is one first fault at most. -/
theorem FirstFault.eq {other : SettingsError} (h : c.FirstFault error)
    (h' : c.FirstFault other) : error = other := by
  cases h <;> cases h' <;> trivial

theorem check_eq_ok_iff : c.check = .ok () ↔ c.Valid := by
  rcases check_cases c with ⟨hc, hv⟩ | ⟨error, hc, hf⟩
  · exact iff_of_true hc hv
  · rw [hc]
    exact iff_of_false nofun hf.not_valid

/-- Settings are refused for their first fault. -/
theorem check_eq_error_iff : c.check = .error error ↔ c.FirstFault error := by
  rcases check_cases c with ⟨hc, hv⟩ | ⟨first, hc, hf⟩
  · rw [hc]
    exact iff_of_false nofun fun h => h.not_valid hv
  · rw [hc, Except.error.injEq]
    refine ⟨?_, hf.eq⟩
    rintro rfl
    exact hf

end Config

end LaserPath
