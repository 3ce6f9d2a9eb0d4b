import LaserPath.Proofs.Decimal.Finite
import LaserPath.Proofs.Decimal.Shortest

/-!
# Reading doubles back

A finite double is put together from its sign and the word of its magnitude, and a decimal that
rounds to the magnitude is read as that double. So whatever decimal has the value that is written
for a double, however its digits are split, is read as the double.

## Main statements

* `Binary64.signed_word` — a double is that of its sign and of the word of its magnitude.
* `Decimal.toFloat_eq_of_rounds` — a decimal that rounds to a magnitude is read as it.
* `Decimal.toFloat_eq_of_ofFloat?_eq` — a decimal of the value that is written reads back.
-/

namespace LaserPath

namespace Binary64

variable {x : Float} {negative : Bool} {d : Dyadic}

/-- The sign and the magnitude of a double are parts of its word. -/
theorem sign_word_of_ofFloat (h : ofFloat x = .finite negative d) :
    negative = signOf x.toBits.toNat ∧
      d.word = biasedOf x.toBits.toNat * twoTo 52 + fractionOf x.toBits.toNat := by
  unfold ofFloat ofWord at h
  split at h
  · split at h <;> cases h
  split at h
  · next hz =>
    obtain ⟨rfl, rfl⟩ := Binary64.finite.inj h
    rw [hz]
    exact ⟨rfl, rfl⟩
  · next hz =>
    obtain ⟨rfl, rfl⟩ := Binary64.finite.inj h
    refine ⟨rfl, ?_⟩
    obtain ⟨b, hb⟩ := Nat.exists_eq_succ_of_ne_zero hz
    have he : ((biasedOf x.toBits.toNat : ℤ) - 1075 + 1074).toNat = b := by omega
    rw [Dyadic.word, he, hb, Nat.succ_mul, Nat.add_assoc]

/-- A double is that of its sign and of the word of its magnitude. -/
theorem signed_word (h : ofFloat x = .finite negative d) : signed negative d.word = x := by
  obtain ⟨rfl, hw⟩ := sign_word_of_ofFloat h
  suffices hword : (if signOf x.toBits.toNat then twoTo 63 + d.word else d.word) =
      x.toBits.toNat by
    rw [signed, hword, Nat.toUInt64_eq, UInt64.ofNat_toNat, Float.ofBits_toBits]
  have h11 : twoTo 11 = 2048 := rfl
  have h52 : twoTo 52 = 4503599627370496 := rfl
  have h63 : twoTo 63 = 9223372036854775808 := rfl
  have hx : x.toBits.toNat < 18446744073709551616 := x.toBits.toNat_lt
  rw [hw, signOf, biasedOf, fractionOf, h11, h52, h63]
  generalize x.toBits.toNat = word at hx
  simp only [decide_eq_true_eq]
  split <;> omega

end Binary64

namespace Decimal

variable {magnitude : Dyadic} {d : Decimal}

/-- A number that rounds to a magnitude is far from the limits of reading. -/
theorem bounds_of_rounds {v : ℚ} (hc : magnitude.Canonical) (hm : 0 < magnitude.mantissa)
    (h : magnitude.Rounds v) : 2 ^ (-1076 : ℤ) < v ∧ v < 2 ^ (1025 : ℤ) := by
  have h2 : (0 : ℚ) < 2 ^ magnitude.exponent := by positivity
  have hlow : (1 / 2 : ℚ) ≤ v / 2 ^ magnitude.exponent := by
    have : (1 : ℚ) ≤ magnitude.mantissa := by exact_mod_cast hm
    linarith [h.low, magnitude.gapBelow_le]
  have hhigh : v / 2 ^ magnitude.exponent < 2 ^ 54 := by
    have : (magnitude.mantissa : ℚ) < 2 ^ 53 := by exact_mod_cast hc.mantissa_lt
    linarith [h.high]
  rw [le_div_iff₀ h2] at hlow
  rw [div_lt_iff₀ h2] at hhigh
  constructor
  · calc (2 : ℚ) ^ (-1076 : ℤ) < 2 ^ (-1 + -1074 : ℤ) :=
          zpow_lt_zpow_right₀ one_lt_two (by norm_num)
      _ = 1 / 2 * 2 ^ (-1074 : ℤ) := by
          rw [zpow_add₀ two_ne_zero]
          norm_num
      _ ≤ 1 / 2 * 2 ^ magnitude.exponent := by
          gcongr
          · exact one_le_two
          · exact hc.le_exponent
      _ ≤ v := hlow
  · calc v < 2 ^ 54 * 2 ^ magnitude.exponent := hhigh
      _ ≤ 2 ^ 54 * 2 ^ (971 : ℤ) := by
          gcongr
          · exact one_le_two
          · exact hc.exponent_le
      _ = 2 ^ (1025 : ℤ) := by
          rw [← zpow_natCast, ← zpow_add₀ two_ne_zero]
          rfl

/-- A decimal that is not too great is read with its power of ten. -/
theorem exponent_le_of_magnitude_lt (hpos : 0 < d.coefficient)
    (h : d.magnitude < 2 ^ (1025 : ℤ)) : d.exponent ≤ 310 := by
  by_contra hlt
  have hc : (1 : ℚ) ≤ d.coefficient := by exact_mod_cast hpos
  have hle : (2 : ℚ) ^ (1025 : ℤ) ≤ d.magnitude := by
    calc (2 : ℚ) ^ (1025 : ℤ) ≤ 2 ^ (1026 : ℤ) := zpow_le_zpow_right₀ one_le_two (by norm_num)
      _ = 2 ^ 3 * (2 ^ 33) ^ 31 := by
          rw [← pow_mul, ← pow_add]
          rfl
      _ ≤ 10 * (10 ^ 10) ^ 31 := by
          gcongr <;> norm_num
      _ = 1 * 10 ^ (311 : ℤ) := by
          rw [one_mul, ← pow_mul, ← pow_succ']
          rfl
      _ ≤ d.coefficient * 10 ^ d.exponent := by
          gcongr
          · norm_num
          · omega
  exact absurd h (not_lt.2 hle)

/-- A decimal that is not too small is read with its power of ten. -/
theorem le_exponent_of_lt_magnitude (h : 2 ^ (-1076 : ℤ) < d.magnitude) :
    -(400 + d.coefficient.log2 : ℤ) ≤ d.exponent := by
  by_contra hlt
  have hc : (d.coefficient : ℚ) < 2 ^ (d.coefficient.log2 + 1) := by
    exact_mod_cast Nat.lt_log2_self
  obtain ⟨n, hn⟩ := Int.eq_ofNat_of_zero_le (by omega : 0 ≤ -d.exponent)
  have he : d.exponent = -n := by omega
  have hten : (10 : ℚ) ^ d.exponent ≤ 2 ^ (3 * d.exponent) := by
    have h8 : (2 : ℚ) ^ (3 * d.exponent) = 8 ^ d.exponent := by
      rw [zpow_mul]
      norm_num
    rw [h8, he, zpow_neg, zpow_neg, zpow_natCast, zpow_natCast]
    gcongr
    norm_num
  have hle : d.magnitude ≤ 2 ^ (-1076 : ℤ) := by
    calc d.magnitude ≤ 2 ^ (d.coefficient.log2 + 1) * 2 ^ (3 * d.exponent) :=
          mul_le_mul hc.le hten (by positivity) (by positivity)
      _ = 2 ^ ((d.coefficient.log2 + 1 : ℕ) + 3 * d.exponent : ℤ) := by
          rw [zpow_add₀ two_ne_zero, zpow_natCast]
      _ ≤ 2 ^ (-1076 : ℤ) := zpow_le_zpow_right₀ one_le_two (by omega)
  exact absurd h (not_lt.2 hle)

/-- A decimal that rounds to a magnitude is read as it. -/
theorem toFloat_eq_of_rounds (hc : magnitude.Canonical) (hm : 0 < magnitude.mantissa)
    (h : magnitude.Rounds d.magnitude) :
    d.toFloat = Binary64.signed d.negative magnitude.word := by
  obtain ⟨hlow, hhigh⟩ := bounds_of_rounds hc hm h
  have hpos : 0 < d.coefficient := by
    refine Nat.pos_of_ne_zero fun hz => ?_
    have hv := h.pos hm
    simp [Decimal.magnitude, hz] at hv
  have hle := exponent_le_of_magnitude_lt hpos hhigh
  have hge := le_exponent_of_lt_magnitude hlow
  have hquotient : ((d.coefficient * tenTo d.exponent.toNat : Nat) : ℚ) /
      (tenTo (-d.exponent).toNat : Nat) = d.magnitude := by
    rw [Decimal.magnitude, zpow_eq_div 10]
    push_cast [cast_tenTo]
    ring
  rw [toFloat, if_neg hpos.ne', if_neg (by omega), if_neg (by omega), Binary64.nearest,
    Dyadic.nearestBits_eq_word hc hm (tenTo_pos _) (hquotient ▸ h)]

/-- A decimal that has the value and the sign of what is written for a double is read as the
double. -/
theorem toFloat_eq_of_ofFloat?_eq {tie : Tie} {x : Float} {written : Decimal}
    (h : ofFloat? tie x = some written) (hn : d.negative = written.negative)
    (hm : d.magnitude = written.magnitude) : d.toFloat = x := by
  obtain ⟨magnitude, hx, ⟨hz, hw⟩ | ⟨hpos, hw⟩⟩ := ofFloat?_eq_some h
  · -- a zero has no digits but a sign, and its word has no exponent
    have hcoefficient : d.coefficient = 0 := by
      have h10 : (10 : ℚ) ^ d.exponent ≠ 0 := by positivity
      rw [hw, Decimal.magnitude] at hm
      exact_mod_cast (mul_eq_zero.1 hm).resolve_right h10
    have hexponent : magnitude.exponent = -1074 :=
      (Binary64.canonical_of_ofFloat hx).normal.resolve_left (by omega)
    have hword : magnitude.word = 0 := by
      rw [Dyadic.word, hexponent, hz]
      rfl
    rw [toFloat, if_pos hcoefficient, hn, ← Binary64.signed_word hx, hword]
  · have hc := Binary64.canonical_of_ofFloat hx
    rw [toFloat_eq_of_rounds hc hpos (hm ▸ hw), hn, Binary64.signed_word hx]

/-- Digits are written for every finite double. -/
theorem exists_ofFloat?_eq (tie : Tie) {x : Float} (h : x.isFinite = true) :
    ∃ d, ofFloat? tie x = some d := by
  obtain ⟨negative, magnitude, hx⟩ := (Binary64.isFinite_iff_exists x).1 h
  unfold ofFloat?
  rw [hx]
  dsimp only
  split
  · exact ⟨_, rfl⟩
  · exact ⟨_, rfl⟩

end Decimal

end LaserPath
