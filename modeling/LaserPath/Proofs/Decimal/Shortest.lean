import LaserPath.Decimal.Shortest
import LaserPath.Proofs.Decimal.Nearest
import Mathlib.Data.Nat.Cast.Order.Field
import Mathlib.Tactic.Ring

/-!
# The fewest digits read back

The digits that are written for a double are those of a number that rounds to it: a grid of
seventeen digits is finer than the doubles are, so one of the two neighbours of a double on that
grid, or on a coarser one, rounds to it.

## Main definitions

* `Decimal.magnitude` — a decimal without its sign, as a rational.

## Main statements

* `Dyadic.rounds_shortest` — the number that is written rounds to the magnitude.
* `Decimal.ofFloat?_eq_some` — what is written for a double.
-/

namespace LaserPath

namespace Dyadic

section

variable {d : Dyadic}

theorem cast_sub_gapBelow (hm : 0 < d.mantissa) :
    ((4 * d.mantissa - d.gapBelow : Nat) : ℚ) = 4 * d.mantissa - d.gapBelow := by
  have hg : d.gapBelow ≤ 4 * d.mantissa := by
    unfold gapBelow
    split <;> omega
  push_cast [hg]
  rfl

/-- Quarters of a unit of the mantissa, counted in units of a power of ten. -/
theorem cast_quarters (d : Dyadic) (quarters : Nat) (p : ℤ) :
    ((quarters * twoTo (d.exponent - 2).toNat * tenTo (-p).toNat : Nat) : ℚ) =
      quarters / 4 * 2 ^ d.exponent / 10 ^ p *
        (twoTo (2 - d.exponent).toNat * tenTo p.toNat : Nat) := by
  have h4 : (2 : ℚ) ^ d.exponent = 4 * 2 ^ (d.exponent - 2) := by
    rw [zpow_sub₀ two_ne_zero]
    norm_num
    ring
  rw [h4, zpow_eq_div 2, zpow_eq_div 10, neg_sub]
  push_cast [cast_twoTo, cast_tenTo]
  field_simp

/-- The whole numbers in a basin, in units of a power of ten, are the numbers of that grid that
round to the magnitude. -/
theorem holds_scale_iff (hm : 0 < d.mantissa) (p : ℤ) (n : Nat) :
    (d.basin.scale p).holds n = true ↔ d.Rounds (n * 10 ^ p) := by
  have hden : (0 : ℚ) < (twoTo (2 - d.exponent).toNat * tenTo p.toNat : Nat) := by
    exact_mod_cast Nat.mul_pos (twoTo_pos _) (tenTo_pos _)
  have h10 : (0 : ℚ) < 10 ^ p := by positivity
  have h2 : (0 : ℚ) < 2 ^ d.exponent := by positivity
  -- a bound in quarters of a unit of the mantissa is compared on the rationals
  have hle (quarters : Nat) : quarters * twoTo (d.exponent - 2).toNat * tenTo (-p).toNat ≤
      n * (twoTo (2 - d.exponent).toNat * tenTo p.toNat) ↔
        (quarters / 4 : ℚ) ≤ n * 10 ^ p / 2 ^ d.exponent := by
    rw [← Nat.cast_le (α := ℚ), cast_quarters, Nat.cast_mul n, mul_le_mul_iff_left₀ hden,
      div_le_iff₀ h10, le_div_iff₀ h2]
  have hge (quarters : Nat) : n * (twoTo (2 - d.exponent).toNat * tenTo p.toNat) ≤
      quarters * twoTo (d.exponent - 2).toNat * tenTo (-p).toNat ↔
        n * 10 ^ p / 2 ^ d.exponent ≤ (quarters / 4 : ℚ) := by
    rw [← Nat.cast_le (α := ℚ), cast_quarters, Nat.cast_mul n, mul_le_mul_iff_left₀ hden,
      le_div_iff₀ h10, div_le_iff₀ h2]
  have hlow : ((4 * d.mantissa - d.gapBelow : Nat) / 4 : ℚ) = d.mantissa - d.gapBelow / 4 := by
    rw [cast_sub_gapBelow hm]
    ring
  have hhigh : ((4 * d.mantissa + 2 : Nat) / 4 : ℚ) = d.mantissa + 1 / 2 := by
    push_cast
    ring
  have hl := hle (4 * d.mantissa - d.gapBelow)
  have hh := hge (4 * d.mantissa + 2)
  rw [hlow] at hl
  rw [hhigh] at hh
  have hl' := not_congr (hge (4 * d.mantissa - d.gapBelow))
  have hh' := not_congr (hle (4 * d.mantissa + 2))
  rw [hlow, not_le, not_le] at hl'
  rw [hhigh, not_le, not_le] at hh'
  unfold Basin.holds Basin.scale basin
  dsimp only
  split
  · next he =>
    rw [decide_eq_true_eq] at he
    rw [Bool.and_eq_true, decide_eq_true_eq, decide_eq_true_eq]
    exact ⟨fun h => ⟨hl.1 h.1, hh.1 h.2, .inl he⟩, fun h => ⟨hl.2 h.low, hh.2 h.high⟩⟩
  · next ho =>
    rw [decide_eq_true_eq] at ho
    rw [Bool.and_eq_true, decide_eq_true_eq, decide_eq_true_eq]
    constructor
    · rintro ⟨hl₁, hh₁⟩
      have hl₂ := hl'.1 hl₁
      have hh₂ := hh'.1 hh₁
      exact ⟨hl₂.le, hh₂.le, .inr ⟨hl₂, hh₂⟩⟩
    · intro h
      obtain ⟨hl₁, hh₁⟩ := h.ends.resolve_left ho
      exact ⟨hl'.2 hl₁, hh'.2 hh₁⟩

/-- A whole number that is found lies in the basin. -/
theorem Basin.holds_of_whole?_eq {tie : Tie} {b : Basin} {n : Nat}
    (h : b.whole? tie = some n) : b.holds n = true := by
  unfold whole? at h
  dsimp only at h
  split at h
  · next hbelow habove =>
    cases h
    rcases roundDiv_eq_or tie b.value b.den with ⟨hr, -⟩ | ⟨hr, -⟩ <;> rwa [hr]
  · next hbelow _ =>
    cases h
    exact hbelow
  · next _ habove =>
    cases h
    exact habove
  · cases h

/-- If a whole number around the value lies in the basin, one is found. -/
theorem Basin.isSome_whole? {tie : Tie} {b : Basin}
    (h : b.holds (b.value / b.den) = true ∨ b.holds (b.value / b.den + 1) = true) :
    (b.whole? tie).isSome = true := by
  unfold whole?
  dsimp only
  split
  · rfl
  · rfl
  · rfl
  · next hbelow habove => simp [hbelow, habove] at h

/-- The value of a basin is the magnitude. -/
theorem basin_value_div_den (d : Dyadic) : (d.basin.value : ℚ) / d.basin.den = d.value := by
  have h := cast_quarters d (4 * d.mantissa) 0
  have h0 : tenTo 0 = 1 := rfl
  simp only [neg_zero, Int.toNat_zero, h0, Nat.mul_one, zpow_zero, div_one] at h
  have hden : (twoTo (2 - d.exponent).toNat : ℚ) ≠ 0 := by
    exact_mod_cast (twoTo_pos _).ne'
  rw [basin]
  dsimp only
  rw [h, mul_div_cancel_right₀ _ hden, value]
  push_cast
  ring

theorem scale_value_div_den (d : Dyadic) (p : ℤ) :
    ((d.basin.scale p).value : ℚ) / (d.basin.scale p).den = d.value / 10 ^ p := by
  rw [← basin_value_div_den, zpow_eq_div 10]
  simp only [Basin.scale]
  push_cast [cast_tenTo]
  field_simp

/-- The power of ten above a quotient is at most ten times the quotient. -/
theorem decimalTop_le {num den : Nat} (hnum : 0 < num) (hden : 0 < den) :
    (10 : ℚ) ^ (decimalTop num den - 1) ≤ num / den := by
  have hd : (0 : ℚ) < den := by exact_mod_cast hden
  have hn : (0 : ℚ) < num := by exact_mod_cast hnum
  unfold decimalTop digitsOf
  split
  · next h =>
    have hq : 0 < num / den := Nat.div_pos h hden
    generalize hlen : (Nat.toDigits 10 (num / den)).length = len
    have hpos : 0 < len := hlen ▸ Nat.length_toDigits_pos
    have hpow : 10 ^ (len - 1) ≤ num / den := by
      by_contra hlt
      rcases Nat.eq_or_lt_of_le (Nat.succ_le_of_lt hpos) with h1 | h1
      · rw [← h1] at hlt
        exact hlt hq
      · have := (Nat.length_toDigits_le_iff (by decide) (by omega)).2 (not_le.1 hlt)
        omega
    have hcast : (10 : ℚ) ^ (len - 1) ≤ (num / den : Nat) := by exact_mod_cast hpow
    calc (10 : ℚ) ^ ((len : ℤ) - 1) = 10 ^ (len - 1) := by
          rw [← zpow_natCast]
          congr 1
          omega
      _ ≤ (num / den : Nat) := hcast
      _ ≤ num / den := Nat.cast_div_le
  · next h =>
    generalize hlen : (Nat.toDigits 10 ((den + num - 1) / num - 1)).length = len
    have hpos : 0 < len := hlen ▸ Nat.length_toDigits_pos
    have hlt : (den + num - 1) / num - 1 < 10 ^ len :=
      (Nat.length_toDigits_le_iff (by decide) hpos).1 hlen.le
    have hceil : den ≤ 10 ^ len * num := by
      have h1 : (den + num - 1) / num ≤ 10 ^ len := by omega
      have h2 := Nat.div_add_mod (den + num - 1) num
      have h3 := Nat.mod_lt (den + num - 1) hnum
      have h4 := Nat.mul_le_mul_left num h1
      rw [Nat.mul_comm (10 ^ len)]
      omega
    have hcast : (den : ℚ) ≤ 10 ^ len * num := by exact_mod_cast hceil
    have he : (1 - (len : ℤ) - 1) = -len := by ring
    rw [he, zpow_neg, zpow_natCast, inv_le_comm₀ (by positivity) (by positivity), inv_div,
      div_le_iff₀ hn]
    exact hcast

/-- The gap above a magnitude and half the gap below it are wider than a grid of seventeen
digits. -/
theorem lt_gaps (hc : d.Canonical) {step : ℚ} (h : 10 ^ 16 * step ≤ d.mantissa) :
    step < 1 / 2 + d.gapBelow / 4 := by
  have hm : (d.mantissa : ℚ) < 2 ^ 53 := by exact_mod_cast hc.mantissa_lt
  unfold gapBelow
  split
  · next hp =>
    have h52 : (d.mantissa : ℚ) = 2 ^ 52 := by
      rw [hp.1, cast_twoTo]
    rw [h52] at h
    push_cast
    linarith
  · push_cast
    linarith

/-- On a grid of seventeen digits one of the neighbours of the magnitude rounds to it. -/
theorem rounds_of_grid (hc : d.Canonical) {p : ℤ} {n : Nat}
    (hp : 10 ^ (p + 16) ≤ d.value) (hlow : (n : ℚ) ≤ d.value / 10 ^ p)
    (hhigh : d.value / 10 ^ p < n + 1) :
    d.Rounds (n * 10 ^ p) ∨ d.Rounds ((n + 1 : Nat) * 10 ^ p) := by
  have h2 : (0 : ℚ) < 2 ^ d.exponent := by positivity
  have h10 : (0 : ℚ) < 10 ^ p := by positivity
  have hm : d.value / 2 ^ d.exponent = d.mantissa := mul_div_cancel_right₀ _ h2.ne'
  generalize hs : (10 : ℚ) ^ p / 2 ^ d.exponent = step
  have hpos : 0 < step := hs ▸ div_pos h10 h2
  have hstep : 10 ^ 16 * step ≤ d.mantissa := by
    rw [← hm, ← hs, ← mul_div_assoc]
    refine div_le_div_of_nonneg_right (le_trans (le_of_eq ?_) hp) h2.le
    rw [zpow_add₀ (by norm_num), mul_comm]
    norm_num
  have hbelow : n * step ≤ d.mantissa := by
    rw [← hm, ← hs, ← mul_div_assoc]
    exact div_le_div_of_nonneg_right ((le_div_iff₀ h10).1 hlow) h2.le
  have habove : d.mantissa < (n + 1) * step := by
    rw [← hm, ← hs, ← mul_div_assoc]
    exact div_lt_div_of_pos_right ((div_lt_iff₀ h10).1 hhigh) h2
  have hgaps := lt_gaps hc hstep
  have hgap : (0 : ℚ) ≤ d.gapBelow := Nat.cast_nonneg _
  have hn (k : Nat) : (k : ℚ) * 10 ^ p / 2 ^ d.exponent = k * step := by
    rw [← hs, mul_div_assoc]
  rcases lt_or_ge ((d.mantissa : ℚ) - d.gapBelow / 4) (n * step) with h | h
  · refine .inl ⟨?_, ?_, .inr ⟨?_, ?_⟩⟩ <;> rw [hn] <;> linarith
  · refine .inr ⟨?_, ?_, .inr ⟨?_, ?_⟩⟩ <;> rw [hn] <;> push_cast <;> linarith

/-- On a grid of seventeen digits a number that rounds to the magnitude is found. -/
theorem isSome_whole?_scale (hc : d.Canonical) (hm : 0 < d.mantissa) (tie : Tie) {p : ℤ}
    (hp : 10 ^ (p + 16) ≤ d.value) : ((d.basin.scale p).whole? tie).isSome = true := by
  have hden : 0 < (d.basin.scale p).den := Nat.mul_pos (twoTo_pos _) (tenTo_pos _)
  have hd : (0 : ℚ) < (d.basin.scale p).den := by exact_mod_cast hden
  have hvalue := scale_value_div_den d p
  refine Basin.isSome_whole? ?_
  generalize hn : (d.basin.scale p).value / (d.basin.scale p).den = n
  have hlow : (n : ℚ) ≤ d.value / 10 ^ p := by
    rw [← hvalue, ← hn]
    exact Nat.cast_div_le
  have hhigh : d.value / 10 ^ p < n + 1 := by
    have hlt := Nat.lt_mul_div_succ (d.basin.scale p).value hden
    rw [hn] at hlt
    rw [← hvalue, div_lt_iff₀ hd, mul_comm]
    exact_mod_cast hlt
  rw [holds_scale_iff hm, holds_scale_iff hm]
  exact rounds_of_grid hc hp hlow hhigh

/-- The number that is written rounds to the magnitude. -/
theorem rounds_shortest (hc : d.Canonical) (hm : 0 < d.mantissa) (tie : Tie) :
    d.Rounds ((d.shortest tie).1 * 10 ^ (d.shortest tie).2) := by
  have hden : 0 < d.basin.den := twoTo_pos _
  have hvalue : 0 < d.basin.value := Nat.mul_pos (Nat.mul_pos (by decide) hm) (twoTo_pos _)
  have htop := decimalTop_le hvalue hden
  rw [basin_value_div_den] at htop
  unfold shortest
  dsimp only
  generalize decimalTop d.basin.value d.basin.den = top at htop
  generalize hg : (fun count : Nat => ((d.basin.scale (top - count)).whole? tie).map
    fun n => (n, top - (count : ℤ))) = onGrid
  have hfound {count : Nat} {c : Nat × ℤ} (h : onGrid count = some c) :
      d.Rounds (c.1 * 10 ^ c.2) := by
    rw [← hg] at h
    obtain ⟨n, hn, rfl⟩ := Option.map_eq_some_iff.1 h
    exact (holds_scale_iff hm _ n).1 (Basin.holds_of_whole?_eq hn)
  -- the grid of seventeen digits has a number, if no coarser one has
  have hlast : (onGrid 17).isSome = true := by
    rw [← hg, Option.isSome_map]
    refine isSome_whole?_scale hc hm tie (le_of_eq_of_le ?_ htop)
    congr 1
    push_cast
    ring
  cases hf : (List.range' 1 17).findSome? onGrid with
  | none =>
    rw [List.findSome?_eq_none_iff] at hf
    rw [hf 17 (by decide)] at hlast
    cases hlast
  | some c =>
    obtain ⟨count, -, h⟩ := List.exists_of_findSome?_eq_some hf
    exact hfound h

end

end Dyadic

/-! ## Decimals -/

namespace Decimal

/-- A decimal without its sign. -/
def magnitude (d : Decimal) : ℚ := d.coefficient * 10 ^ d.exponent

theorem trim_magnitude (coefficient : Nat) (exponent : ℤ) :
    ((trim coefficient exponent).1 : ℚ) * 10 ^ (trim coefficient exponent).2 =
      coefficient * 10 ^ exponent := by
  fun_induction trim coefficient exponent with
  | case1 coefficient exponent h ih =>
    have hten : (coefficient : ℚ) = 10 * (coefficient / 10 : Nat) := by
      exact_mod_cast (Nat.mul_div_cancel' (Nat.dvd_of_mod_eq_zero h.2)).symm
    rw [ih, zpow_add_one₀ (by norm_num), hten]
    ring
  | case2 => rfl

/-- Zeros at the end do not matter. -/
@[simp] theorem magnitude_normal (d : Decimal) : d.normal.magnitude = d.magnitude := by
  unfold normal magnitude
  split
  · next h => simp [h]
  · exact trim_magnitude d.coefficient d.exponent

@[simp] theorem negative_normal (d : Decimal) : d.normal.negative = d.negative := by
  unfold normal
  split <;> rfl

theorem exponent_normal (d : Decimal) (h : d.normal.coefficient = 0) : d.normal.exponent = 0 := by
  have hm := d.magnitude_normal
  unfold normal at h hm ⊢
  split
  · rfl
  · next hz =>
    rw [if_neg hz] at h hm
    have h10 : (10 : ℚ) ^ d.exponent ≠ 0 := by positivity
    have hzero : d.magnitude = 0 := by
      rw [← hm, magnitude, h, Nat.cast_zero, zero_mul]
    exact absurd (by exact_mod_cast (mul_eq_zero.1 hzero).resolve_right h10) hz

/-- A zero is written without an exponent. -/
theorem exponent_of_ofFloat?_eq {tie : Tie} {x : Float} {d : Decimal}
    (h : ofFloat? tie x = some d) (hz : d.coefficient = 0) : d.exponent = 0 := by
  unfold ofFloat? at h
  split at h
  · split at h
    · cases h
      rfl
    · cases h
      exact exponent_normal _ hz
  · cases h

/-- What is written for a double: its sign, and a number that rounds to its magnitude. -/
theorem ofFloat?_eq_some {tie : Tie} {x : Float} {d : Decimal} (h : ofFloat? tie x = some d) :
    ∃ magnitude, Binary64.ofFloat x = .finite d.negative magnitude ∧
      (magnitude.mantissa = 0 ∧ d.magnitude = 0 ∨
        0 < magnitude.mantissa ∧ magnitude.Rounds d.magnitude) := by
  unfold ofFloat? at h
  split at h
  · next negative magnitude hx =>
    split at h
    · next hz =>
      cases h
      exact ⟨magnitude, hx, .inl ⟨hz, by simp [Decimal.magnitude]⟩⟩
    · next hz =>
      generalize hs : magnitude.shortest tie = written at h
      obtain ⟨coefficient, exponent⟩ := written
      cases h
      refine ⟨magnitude, by rw [hx, negative_normal], .inr ⟨Nat.pos_of_ne_zero hz, ?_⟩⟩
      have hc := Binary64.canonical_of_ofFloat hx
      have hr := Dyadic.rounds_shortest hc (Nat.pos_of_ne_zero hz) tie
      rw [hs] at hr
      rw [magnitude_normal]
      exact hr
  · cases h

end Decimal

end LaserPath
