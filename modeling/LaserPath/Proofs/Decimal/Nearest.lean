import LaserPath.Decimal.Binary64
import Mathlib.Algebra.Order.Field.Power
import Mathlib.Algebra.Order.Ring.Rat
import Mathlib.Data.Rat.Cast.Order
import Mathlib.Tactic.FieldSimp
import Mathlib.Tactic.GCongr
import Mathlib.Tactic.Linarith
import Mathlib.Tactic.NormNum
import Mathlib.Tactic.Positivity

/-!
# The numbers that round to a double

A quotient is rounded to a mantissa of 53 bits, or of fewer at the least exponent. So the numbers
that are rounded to a magnitude are those within half a gap of it, where the gap below a power of
two is half the gap above it; of the two ends, those of an even mantissa belong to it.

## Main definitions

* `Dyadic.value`, `Dyadic.word` — a magnitude as a rational and as a word.
* `Dyadic.Canonical` — the magnitudes of doubles.
* `Dyadic.Rounds` — the numbers that round to a magnitude.

## Main statements

* `exponentFor_spec` — the exponent at which a quotient has 53 bits.
* `roundDiv_toEven_eq` — the natural that a quotient is rounded to.
* `nearestBits_eq_word` — a number that rounds to a magnitude is rounded to it.
-/

namespace LaserPath

theorem cast_twoTo (n : Nat) : (twoTo n : ℚ) = 2 ^ n := by
  rw [twoTo]
  exact Nat.cast_pow 2 n

theorem cast_tenTo (n : Nat) : (tenTo n : ℚ) = 10 ^ n := by
  rw [tenTo]
  exact Nat.cast_pow 10 n

/-- A power with an integer exponent is a quotient of two powers, of which one is one. -/
theorem zpow_eq_div (b : ℚ) (e : ℤ) : b ^ e = b ^ e.toNat / b ^ (-e).toNat := by
  rcases Int.le_total 0 e with h | h
  · obtain ⟨n, rfl⟩ := Int.eq_ofNat_of_zero_le h
    simp
  · obtain ⟨n, hn⟩ := Int.eq_ofNat_of_zero_le (Int.neg_nonneg_of_nonpos h)
    obtain rfl : e = -n := by omega
    simp

/-- A quotient whose terms are scaled by the two powers of an exponent. -/
theorem scaled_div (num den : Nat) (e : ℤ) :
    ((num * twoTo (-e).toNat : Nat) : ℚ) / (den * twoTo e.toNat : Nat) = num / den / 2 ^ e := by
  rw [zpow_eq_div 2]
  push_cast [cast_twoTo]
  field_simp

section Rounding

variable {num den : Nat}

/-- A quotient within half a unit of a natural is rounded to it; at half a unit the natural has
to be even. -/
theorem roundDiv_toEven_eq (hden : 0 < den) {n : Nat} (hlow : (n : ℚ) - 1 / 2 ≤ num / den)
    (hhigh : (num : ℚ) / den ≤ n + 1 / 2)
    (hends : n % 2 = 0 ∨ (n : ℚ) - 1 / 2 < num / den ∧ (num : ℚ) / den < n + 1 / 2) :
    roundDiv .toEven num den = n := by
  have hd : (0 : ℚ) < den := by exact_mod_cast hden
  have hlow' : 2 * (n * den) ≤ 2 * num + den := by
    rw [le_div_iff₀ hd] at hlow
    have : (2 * (n * den) : ℚ) ≤ 2 * num + den := by linarith
    exact_mod_cast this
  have hhigh' : 2 * num ≤ 2 * (n * den) + den := by
    rw [div_le_iff₀ hd] at hhigh
    have : (2 * num : ℚ) ≤ 2 * (n * den) + den := by linarith
    exact_mod_cast this
  have hends' : n % 2 = 0 ∨ 2 * (n * den) < 2 * num + den ∧ 2 * num < 2 * (n * den) + den := by
    refine hends.imp_right fun ⟨hl, hh⟩ => ?_
    rw [lt_div_iff₀ hd] at hl
    rw [div_lt_iff₀ hd] at hh
    constructor
    · have : (2 * (n * den) : ℚ) < 2 * num + den := by linarith
      exact_mod_cast this
    · have : (2 * num : ℚ) < 2 * (n * den) + den := by linarith
      exact_mod_cast this
  have hdiv := Nat.div_add_mod num den
  have hmod := Nat.mod_lt num hden
  rw [Nat.mul_comm] at hdiv
  -- the natural is the quotient rounded down or up
  have hle : num / den ≤ n := by
    by_contra hlt
    have := Nat.mul_le_mul_right den (Nat.succ_le_of_lt (Nat.lt_of_not_le hlt))
    rw [Nat.succ_mul] at this
    omega
  have hge : n ≤ num / den + 1 := by
    by_contra hlt
    have := Nat.mul_le_mul_right den (Nat.succ_le_of_lt (Nat.lt_of_not_le hlt))
    rw [Nat.succ_mul, Nat.add_mul] at this
    omega
  rcases Nat.lt_or_ge (num / den) n with hlt | hge'
  · obtain rfl : n = num / den + 1 := by omega
    rw [Nat.add_mul] at hlow' hhigh' hends'
    simp only [roundDiv]
    split_ifs <;> omega
  · obtain rfl : n = num / den := by omega
    simp only [roundDiv]
    split_ifs <;> omega

/-- A rounded quotient is within half a unit of the quotient. -/
theorem abs_roundDiv_sub_le (tie : Tie) (num : Nat) (hden : 0 < den) :
    |(roundDiv tie num den : ℚ) - num / den| ≤ 1 / 2 := by
  have hd : (0 : ℚ) < den := by exact_mod_cast hden
  have hhigh : (2 * (roundDiv tie num den * den) : ℚ) ≤ 2 * num + den := by
    exact_mod_cast roundDiv_le tie num den
  have hlow : (2 * num : ℚ) ≤ 2 * (roundDiv tie num den * den) + den := by
    exact_mod_cast le_roundDiv tie num hden
  have hle : (roundDiv tie num den : ℚ) - 1 / 2 ≤ num / den := by
    rw [le_div_iff₀ hd]
    linarith
  have hge : (num : ℚ) / den ≤ roundDiv tie num den + 1 / 2 := by
    rw [div_le_iff₀ hd]
    linarith
  rw [abs_sub_le_iff]
  constructor <;> linarith

end Rounding

namespace Binary64

variable {num den : Nat}

/-- A quotient between two powers of two, read off the lengths of its terms. -/
theorem quotient_bounds (hnum : 0 < num) (hden : 0 < den) :
    (2 : ℚ) ^ ((num.log2 : ℤ) - den.log2 - 1) < num / den ∧
      (num : ℚ) / den < 2 ^ ((num.log2 : ℤ) - den.log2 + 1) := by
  have hd : (0 : ℚ) < den := by exact_mod_cast hden
  have hnlow : (2 : ℚ) ^ num.log2 ≤ num := by exact_mod_cast Nat.log2_self_le hnum.ne'
  have hnhigh : (num : ℚ) < 2 ^ (num.log2 + 1) := by exact_mod_cast Nat.lt_log2_self
  have hdlow : (2 : ℚ) ^ den.log2 ≤ den := by exact_mod_cast Nat.log2_self_le hden.ne'
  have hdhigh : (den : ℚ) < 2 ^ (den.log2 + 1) := by exact_mod_cast Nat.lt_log2_self
  constructor
  · rw [lt_div_iff₀ hd]
    calc (2 : ℚ) ^ ((num.log2 : ℤ) - den.log2 - 1) * den
        < 2 ^ ((num.log2 : ℤ) - den.log2 - 1) * 2 ^ (den.log2 + 1) := by gcongr
      _ = 2 ^ num.log2 := by
          rw [← zpow_natCast, ← zpow_natCast, ← zpow_add₀ two_ne_zero]
          congr 1
          omega
      _ ≤ num := hnlow
  · rw [div_lt_iff₀ hd]
    calc (num : ℚ) < 2 ^ (num.log2 + 1) := hnhigh
      _ = 2 ^ ((num.log2 : ℤ) - den.log2 + 1) * 2 ^ den.log2 := by
          rw [← zpow_natCast, ← zpow_natCast, ← zpow_add₀ two_ne_zero]
          congr 1
          omega
      _ ≤ 2 ^ ((num.log2 : ℤ) - den.log2 + 1) * den := by gcongr

/-- A quotient is compared with a power of two by scaling its terms. -/
theorem scaled_lt_iff (hden : 0 < den) (e : ℤ) :
    num * twoTo (-e).toNat < twoTo 53 * (den * twoTo e.toNat) ↔
      (num : ℚ) / den < 2 ^ (e + 53) := by
  have hd : (0 : ℚ) < (den * twoTo e.toNat : Nat) := by
    exact_mod_cast Nat.mul_pos hden (twoTo_pos _)
  have he : (0 : ℚ) < 2 ^ e := by positivity
  rw [zpow_add₀ two_ne_zero, mul_comm (2 ^ e : ℚ), ← div_lt_iff₀ he, ← scaled_div,
    div_lt_iff₀ hd]
  have h53 : (2 : ℚ) ^ (53 : ℤ) = (twoTo 53 : Nat) := by
    rw [cast_twoTo]
    rfl
  rw [h53]
  exact_mod_cast Iff.rfl

/-- At the exponent for a quotient its mantissa has 53 bits, or fewer at the least exponent. -/
theorem exponentFor_spec (hnum : 0 < num) (hden : 0 < den) :
    -1074 ≤ exponentFor num den ∧ (num : ℚ) / den < 2 ^ (exponentFor num den + 53) ∧
      (exponentFor num den = -1074 ∨ 2 ^ (exponentFor num den + 52) ≤ (num : ℚ) / den) := by
  obtain ⟨hlow, hhigh⟩ := quotient_bounds hnum hden
  have hmono {a b : ℤ} (h : a ≤ b) : (2 : ℚ) ^ a ≤ 2 ^ b := zpow_le_zpow_right₀ one_le_two h
  unfold exponentFor
  dsimp only
  generalize he : (num.log2 : ℤ) - den.log2 - 53 = e
  simp only [scaled_lt_iff hden]
  split
  · next h =>
    refine ⟨le_max_left _ _, h.trans_le (hmono (by omega)), ?_⟩
    rcases max_choice (-1074) e with hm | hm
    · exact .inl hm
    · rw [hm]
      exact .inr ((hmono (by omega)).trans hlow.le)
  · next h =>
    refine ⟨le_max_left _ _, hhigh.trans_le (hmono (by omega)), ?_⟩
    rcases max_choice (-1074) (e + 1) with hm | hm
    · exact .inl hm
    · rw [hm]
      exact .inr ((hmono (by omega)).trans (not_lt.1 h))

end Binary64

namespace Dyadic

/-- The magnitude as a rational. -/
def value (d : Dyadic) : ℚ := d.mantissa * 2 ^ d.exponent

/-- The quotient that a magnitude is written as. -/
theorem num_div_den (d : Dyadic) : (d.num : ℚ) / d.den = d.value := by
  rw [num, den, value, zpow_eq_div]
  push_cast [cast_twoTo]
  exact mul_div_assoc _ _ _

/-- The magnitudes of doubles: a mantissa of 53 bits, or of fewer at the least exponent. -/
structure Canonical (d : Dyadic) : Prop where
  mantissa_lt : d.mantissa < 2 ^ 53
  le_exponent : -1074 ≤ d.exponent
  exponent_le : d.exponent ≤ 971
  normal : 2 ^ 52 ≤ d.mantissa ∨ d.exponent = -1074

/-- The word of the magnitude. -/
def word (d : Dyadic) : Nat := (d.exponent + 1074).toNat * twoTo 52 + d.mantissa

/-- The gap below the magnitude, in halves of the gap above it. -/
def gapBelow (d : Dyadic) : Nat := if d.mantissa = twoTo 52 ∧ -1074 < d.exponent then 1 else 2

/-- The number is within half a gap of the magnitude; at half a gap the mantissa is even. -/
structure Rounds (d : Dyadic) (v : ℚ) : Prop where
  low : (d.mantissa : ℚ) - d.gapBelow / 4 ≤ v / 2 ^ d.exponent
  high : v / 2 ^ d.exponent ≤ d.mantissa + 1 / 2
  ends : d.mantissa % 2 = 0 ∨ (d.mantissa : ℚ) - d.gapBelow / 4 < v / 2 ^ d.exponent ∧
    v / 2 ^ d.exponent < d.mantissa + 1 / 2

theorem gapBelow_le (d : Dyadic) : (d.gapBelow : ℚ) ≤ 2 := by
  unfold gapBelow
  split <;> norm_num

theorem word_le {d : Dyadic} (hc : d.Canonical) : d.word ≤ Binary64.infinityWord := by
  have h52 : twoTo 52 = 2 ^ 52 := rfl
  obtain ⟨hm, hlow, hhigh, -⟩ := hc
  rw [word, Binary64.infinityWord, h52]
  omega

open Binary64

section

variable {d : Dyadic} {v : ℚ}

theorem Rounds.pos (hm : 0 < d.mantissa) (h : d.Rounds v) : 0 < v := by
  have hg := d.gapBelow_le
  have hm' : (1 : ℚ) ≤ d.mantissa := by exact_mod_cast hm
  have hq : 0 < v / 2 ^ d.exponent := by linarith [h.low]
  exact (div_pos_iff_of_pos_right (by positivity)).1 hq

/-- The exponent for a number that rounds to a magnitude is that of the magnitude, but for the
numbers just below a power of two. -/
theorem Rounds.exponent_cases (hc : d.Canonical) (h : d.Rounds v) {e : ℤ} (he : -1074 ≤ e)
    (hlt : v < 2 ^ (e + 53)) (hge : e = -1074 ∨ 2 ^ (e + 52) ≤ v) :
    e = d.exponent ∨ e = d.exponent - 1 ∧ d.mantissa = 2 ^ 52 ∧ -1074 < d.exponent := by
  obtain ⟨hm, hlow, -, hn⟩ := hc
  have hp : (0 : ℚ) < 2 ^ d.exponent := by positivity
  have hmono {a b : ℤ} (h : a ≤ b) : (2 : ℚ) ^ a ≤ 2 ^ b := zpow_le_zpow_right₀ one_le_two h
  have hscale (k : ℤ) : (2 : ℚ) ^ (e + k) / 2 ^ d.exponent = 2 ^ (e - d.exponent + k) := by
    rw [← zpow_sub₀ two_ne_zero]
    congr 1
    omega
  have hq : v / 2 ^ d.exponent < 2 ^ (e - d.exponent + 53) := by
    rw [← hscale]
    gcongr
  have hm53 : (d.mantissa : ℚ) ≤ 2 ^ 53 - 1 := by
    have : d.mantissa + 1 ≤ 2 ^ 53 := hm
    have : (d.mantissa : ℚ) + 1 ≤ 2 ^ 53 := by exact_mod_cast this
    linarith
  rcases lt_trichotomy e d.exponent with hlt' | heq | hgt
  · -- the mantissa is one more than the quotient has room for
    refine .inr ?_
    have h52 : v / 2 ^ d.exponent < 2 ^ 52 :=
      hq.trans_le ((hmono (by omega : e - d.exponent + 53 ≤ 52)).trans_eq (by norm_num))
    have hnormal : 2 ^ 52 ≤ d.mantissa := by omega
    have hmantissa : d.mantissa = 2 ^ 52 := by
      by_contra hne
      have : 2 ^ 52 + 1 ≤ d.mantissa := by omega
      have : (2 : ℚ) ^ 52 + 1 ≤ d.mantissa := by exact_mod_cast this
      linarith [h.low, d.gapBelow_le]
    refine ⟨?_, hmantissa, by omega⟩
    by_contra hne
    have h51 : v / 2 ^ d.exponent < 2 ^ 51 :=
      hq.trans_le ((hmono (by omega : e - d.exponent + 53 ≤ 51)).trans_eq (by norm_num))
    have := h.low
    rw [hmantissa] at this
    push_cast at this
    linarith [d.gapBelow_le]
  · exact .inl heq
  · have hge' : (2 : ℚ) ^ (e + 52) ≤ v := by
      rcases hge with rfl | hge
      · omega
      · exact hge
    have h53 : (2 : ℚ) ^ 53 ≤ v / 2 ^ d.exponent := by
      calc (2 : ℚ) ^ 53 = 2 ^ (53 : ℤ) := by norm_num
        _ ≤ 2 ^ (e - d.exponent + 52) := hmono (by omega)
        _ = 2 ^ (e + 52) / 2 ^ d.exponent := (hscale 52).symm
        _ ≤ v / 2 ^ d.exponent := by gcongr
    linarith [h.high]

/-- A number that rounds to a magnitude is rounded to it. -/
theorem nearestBits_eq_word (hc : d.Canonical) (hm : 0 < d.mantissa) {num den : Nat}
    (hden : 0 < den) (h : d.Rounds (num / den)) : nearestBits num den = d.word := by
  have hd : (0 : ℚ) < den := by exact_mod_cast hden
  have hnum : 0 < num := by
    have hv := h.pos hm
    exact_mod_cast (div_pos_iff_of_pos_right hd).1 hv
  obtain ⟨he, hlt, hge⟩ := exponentFor_spec hnum hden
  have hden' : 0 < den * twoTo (exponentFor num den).toNat := Nat.mul_pos hden (twoTo_pos _)
  unfold nearestBits
  rw [if_neg hnum.ne']
  dsimp only
  rcases h.exponent_cases hc he hlt hge with heq | ⟨heq, hmantissa, hexponent⟩
  · rw [heq] at hden' ⊢
    have hround : roundDiv .toEven (num * twoTo (-d.exponent).toNat)
        (den * twoTo d.exponent.toNat) = d.mantissa := by
      refine roundDiv_toEven_eq hden' ?_ ?_ ?_ <;> rw [scaled_div]
      · linarith [h.low, d.gapBelow_le]
      · exact h.high
      · exact h.ends.imp_right fun ⟨hl, hh⟩ => ⟨by linarith [d.gapBelow_le], hh⟩
    rw [hround]
    exact min_eq_left (word_le hc)
  · rw [heq] at hden' hlt ⊢
    have hq : (num : ℚ) / den / 2 ^ (d.exponent - 1) = 2 * (num / den / 2 ^ d.exponent) := by
      rw [zpow_sub_one₀ two_ne_zero]
      field_simp
    have hgap : d.gapBelow = 1 := if_pos ⟨hmantissa, hexponent⟩
    have hround : roundDiv .toEven (num * twoTo (-(d.exponent - 1)).toNat)
        (den * twoTo (d.exponent - 1).toNat) = 2 ^ 53 := by
      have hlow := h.low
      rw [hmantissa, hgap] at hlow
      have hhigh : (num : ℚ) / den / 2 ^ d.exponent < 2 ^ 52 := by
        rw [div_lt_iff₀ (by positivity)]
        refine hlt.trans_eq ?_
        rw [mul_comm, ← zpow_natCast, ← zpow_add₀ two_ne_zero]
        congr 1
        omega
      refine roundDiv_toEven_eq hden' ?_ ?_ (.inl (by norm_num)) <;> rw [scaled_div, hq] <;>
        push_cast at * <;> linarith
    -- the mantissa carries into the exponent
    have hcarry : (d.exponent - 1 + 1074).toNat * twoTo 52 + 2 ^ 53 = d.word := by
      have he1 : (d.exponent + 1074).toNat = (d.exponent - 1 + 1074).toNat + 1 := by omega
      have h53 : 2 ^ 53 = twoTo 52 + 2 ^ 52 := rfl
      rw [word, hmantissa, he1, Nat.succ_mul, h53, Nat.add_assoc]
    rw [hround, hcarry]
    exact min_eq_left (word_le hc)

end

end Dyadic

namespace Binary64

/-- The magnitude of a double. -/
theorem canonical_of_ofFloat {x : Float} {negative : Bool} {d : Dyadic}
    (h : ofFloat x = .finite negative d) : d.Canonical := by
  have h11 : twoTo 11 = 2048 := rfl
  have h52 : twoTo 52 = 2 ^ 52 := rfl
  have hf : fractionOf x.toBits.toNat < 2 ^ 52 := Nat.mod_lt _ (twoTo_pos 52)
  have hb : biasedOf x.toBits.toNat < 2048 := Nat.mod_lt _ (twoTo_pos 11)
  unfold ofFloat ofWord at h
  split at h
  · split at h <;> cases h
  next hne =>
  split at h
  · obtain ⟨-, rfl⟩ := Binary64.finite.inj h
    exact ⟨by dsimp only; omega, le_refl _, by norm_num, .inr rfl⟩
  · obtain ⟨-, rfl⟩ := Binary64.finite.inj h
    rw [h52]
    refine ⟨?_, ?_, ?_, .inl ?_⟩ <;> dsimp only <;> omega

end Binary64

end LaserPath
