import LaserPath.Calendar
import Mathlib

/-!
# The order of dates

Every day lies in the year that is found for it and in one of the months of that year. So later
days have later dates, over the ends of months and years and through leap days, and later moments
have a later date or a later second of the same day.

## Main definitions

* `Date.key` — a date as year, month and day, the year first.

## Main statements

* `Date.yearOfDays_bounds` — a day lies in its year.
* `Date.strictMono_key_ofDays` — later days have later dates.
* `Timestamp.date_lt_or_secondOfDay_lt` — later moments have a later date or a later second.
-/

namespace LaserPath

/-! ## Years -/

theorem strictMono_daysBeforeYear : StrictMono daysBeforeYear := by
  refine strictMono_int_of_lt_succ fun year => ?_
  rw [daysBeforeYear_succ]
  split <;> omega

/-- Four centuries have 146097 days, and a year begins near its share of them. -/
theorem daysBeforeYear_bounds (year : Int) :
    146097 * year - 396 ≤ 400 * daysBeforeYear year ∧
      400 * daysBeforeYear year ≤ 146097 * year + 699 := by
  unfold daysBeforeYear
  dsimp only
  omega

/-- A year has as many days as its months. -/
theorem daysBeforeYear_succ_eq_sum (year : Int) :
    daysBeforeYear (year + 1) = daysBeforeYear year + (monthLengths year).sum := by
  rw [daysBeforeYear_succ]
  cases h : isLeapYear year <;> simp [monthLengths, h]

/-! ## Months -/

section

variable {lengths : List Nat} {month a b day : Nat}

/-- A day of the year lies in one of the months. -/
theorem monthOfDay_bounds (month : Nat) (h : day < lengths.sum) :
    month ≤ (monthOfDay month day lengths).1 ∧
      (monthOfDay month day lengths).1 < month + lengths.length := by
  induction lengths generalizing month day with
  | nil => simp at h
  | cons length rest ih =>
    rw [List.sum_cons] at h
    rw [monthOfDay, List.length_cons]
    by_cases hd : day < length
    · rw [if_pos hd]
      omega
    · rw [if_neg hd]
      have hrest : day - length < rest.sum := by omega
      have := ih (month + 1) hrest
      omega

/-- A day of a month is not beyond the longest month. -/
theorem monthOfDay_day_le (month : Nat) {limit : Nat}
    (hl : ∀ length ∈ lengths, length ≤ limit) (h : day < lengths.sum) :
    (monthOfDay month day lengths).2 ≤ limit := by
  induction lengths generalizing month day with
  | nil => simp at h
  | cons length rest ih =>
    rw [List.forall_mem_cons] at hl
    rw [List.sum_cons] at h
    rw [monthOfDay]
    by_cases hd : day < length
    · rw [if_pos hd]
      have := hl.1
      omega
    · rw [if_neg hd]
      exact ih (month + 1) hl.2 (by omega)

/-- A later day of the year lies in a later month, or later in the same one. -/
theorem monthOfDay_lt (h : a < b) (hb : b < lengths.sum) :
    toLex (monthOfDay month a lengths) < toLex (monthOfDay month b lengths) := by
  rw [Prod.Lex.toLex_lt_toLex]
  induction lengths generalizing month a b with
  | nil => simp at hb
  | cons length rest ih =>
    rw [List.sum_cons] at hb
    rw [monthOfDay, monthOfDay]
    by_cases ha' : a < length <;> by_cases hb' : b < length
    · rw [if_pos ha', if_pos hb']
      exact .inr ⟨rfl, by omega⟩
    · -- the later day lies behind the month of the earlier one
      rw [if_pos ha', if_neg hb']
      have hrest : b - length < rest.sum := by omega
      have := monthOfDay_bounds (month + 1) hrest
      exact .inl (by omega)
    · omega
    · rw [if_neg ha', if_neg hb']
      exact ih (by omega) (by omega)

end

namespace Date

/-- A date as year, month and day. -/
def key (d : Date) : ℤ ×ₗ ℕ ×ₗ ℕ := toLex (d.year, toLex (d.month, d.day))

theorem key_lt_key_iff {d e : Date} : d.key < e.key ↔
    d.year < e.year ∨
      d.year = e.year ∧ (d.month < e.month ∨ d.month = e.month ∧ d.day < e.day) := by
  simp only [key, Prod.Lex.toLex_lt_toLex]

/-- A day lies in the year that is found for it. -/
theorem yearOfDays_bounds (days : Int) : daysBeforeYear (yearOfDays days) ≤ days ∧
    days < daysBeforeYear (yearOfDays days + 1) := by
  unfold yearOfDays
  dsimp only
  -- the quotient is off by one at most
  have hbefore := daysBeforeYear_bounds (400 * days / 146097 - 1)
  have hbehind := daysBeforeYear_bounds (400 * days / 146097 + 1 + 1)
  split
  · omega
  split
  · rw [Int.sub_add_cancel]
    omega
  · omega

/-- The days of a year that have passed are fewer than its months have. -/
theorem toNat_sub_daysBeforeYear_lt (days : Int) :
    (days - daysBeforeYear (yearOfDays days)).toNat < (monthLengths (yearOfDays days)).sum := by
  have hbounds := yearOfDays_bounds days
  rw [daysBeforeYear_succ_eq_sum] at hbounds
  omega

theorem yearOfDays_mono {a b : Int} (h : a ≤ b) : yearOfDays a ≤ yearOfDays b := by
  have ha := yearOfDays_bounds a
  have hb := yearOfDays_bounds b
  have hlt : daysBeforeYear (yearOfDays a) < daysBeforeYear (yearOfDays b + 1) := by omega
  have := strictMono_daysBeforeYear.lt_iff_lt.1 hlt
  omega

/-- The date of a day is its year and its month of that year. Days are counted from the first of
January 1970, and those of `yearOfDays` from the beginning of the year zero. -/
theorem ofDays_eq {days year : Int} (h : yearOfDays (days + 719528) = year) : ofDays days =
    ⟨year, (monthOfDay 1 (days + 719528 - daysBeforeYear year).toNat (monthLengths year)).1,
      (monthOfDay 1 (days + 719528 - daysBeforeYear year).toNat (monthLengths year)).2⟩ := by
  rw [← h]
  rfl

/-- Months and days of dates have two digits at most. -/
theorem ofDays_lt_hundred (days : Int) : (ofDays days).month < 100 ∧ (ofDays days).day < 100 := by
  have hlt := toNat_sub_daysBeforeYear_lt (days + 719528)
  have hmonth := monthOfDay_bounds 1 hlt
  have hlengths : ∀ length ∈ monthLengths (yearOfDays (days + 719528)), length ≤ 31 := by
    cases h : isLeapYear (yearOfDays (days + 719528)) <;> simp [monthLengths, h]
  have hday := monthOfDay_day_le 1 hlengths hlt
  have hlength : (monthLengths (yearOfDays (days + 719528))).length = 12 := rfl
  rw [ofDays_eq rfl]
  dsimp only
  omega

/-- Later days have later dates. -/
theorem strictMono_key_ofDays : StrictMono fun days => (ofDays days).key := by
  intro a b hab
  have hle := yearOfDays_mono (a := a + 719528) (b := b + 719528) (by omega)
  rw [key_lt_key_iff]
  rcases hle.lt_or_eq with hyear | hyear
  · exact .inl hyear
  · refine .inr ⟨hyear, ?_⟩
    -- within a year the order is that of its months
    have ha := (yearOfDays_bounds (a + 719528)).1
    have hlt := toNat_sub_daysBeforeYear_lt (b + 719528)
    rw [hyear] at ha
    rw [ofDays_eq hyear, ofDays_eq rfl, ← Prod.Lex.toLex_lt_toLex]
    exact monthOfDay_lt (by omega) hlt

end Date

namespace Timestamp

variable {t u : Timestamp}

theorem secondOfDay_lt (t : Timestamp) : t.secondOfDay < 86400 := by
  unfold secondOfDay
  omega

/-- Later moments have a later date, or a later second of the same day. -/
theorem date_lt_or_secondOfDay_lt (h : t.seconds < u.seconds) : t.date.key < u.date.key ∨
    t.date = u.date ∧ t.secondOfDay < u.secondOfDay := by
  rcases (Int.ediv_le_ediv (by decide : (0 : ℤ) < 86400) h.le).lt_or_eq with hday | hday
  · exact .inl (Date.strictMono_key_ofDays hday)
  · refine .inr ⟨congrArg Date.ofDays hday, ?_⟩
    unfold secondOfDay
    omega

end Timestamp

end LaserPath
