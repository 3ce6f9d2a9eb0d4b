import LaserPath.Proofs.Decimal.Finite
import LaserPath.Proofs.Decimal.Nearest

/-!
# The leading bits of doubles

A double of full length is not below the power of two of its leading bit. Rounding may raise this
bit but never lowers it, so how small a result can be is a matter of exponents. A double rounded to
a whole number is zero or leads from the bit of one; a thousandth of it then leads from the tenth
bit behind the point, which is more than half of a thousandth.

## Main definitions

* `LeadsFrom` — an unpacked double of full length that is not below a power of two.
* `Leads` — a double that is not below a power of two.

## Main statements

* `leadsFrom_roundWithAccuracy` — rounding does not lower the leading bit.
* `Binary64.roundAway_cases` — a double rounded to a whole number is zero or one at least.
* `leads_div_thousand` — what division by a thousand leaves of the leading bit.
-/

namespace LaserPath

open Float.Model Float.Model.UnpackedFloat

/-- A mantissa of 53 bits whose leading bit is not below a power of two. -/
def LeadsFrom (bit : ℤ) : UnpackedFloat → Prop
  | .finite _ mantissa exponent _ => mantissa.log2 = 52 ∧ bit ≤ exponent + 52
  | _ => False

/-- A finite double whose magnitude is at least a power of two. -/
structure Leads (bit : ℤ) (x : Float) : Prop where
  isFinite : x.isFinite = true
  le_biased : bit + 1023 ≤ Binary64.biasedOf x.toBits.toNat

section

variable {bit : ℤ}

/-! ## Rounding -/

theorem log2_div_two_pow (m k : ℕ) : (m / 2 ^ k).log2 = m.log2 - k := by
  rw [Nat.log2_eq_log_two, Nat.log2_eq_log_two, Nat.log_div_base_pow]

/-- A long mantissa is shifted to 53 bits, and its leading bit stays where it is. -/
theorem log2_shiftToTargetExponent {mantissa : ℕ} (exponent : ℤ) (accuracy : Accuracy)
    (hlong : 52 ≤ mantissa.log2) (hbit : -1022 ≤ mantissa.log2 + exponent) :
    (shiftToTargetExponent Format.binary64 mantissa exponent accuracy).1.mantissa.log2 = 52 ∧
      (shiftToTargetExponent Format.binary64 mantissa exponent accuracy).2 =
        mantissa.log2 + exponent - 52 := by
  have htarget : Format.binary64.targetExponent (totalExponent mantissa exponent) =
      mantissa.log2 + exponent - 52 := by
    rw [targetExponent_eq, totalExponent]
    omega
  have hshift : (mantissa.log2 + exponent - 52 - exponent).toNat = mantissa.log2 - 52 := by
    omega
  simp only [shiftToTargetExponent, shiftToExponent, htarget, hshift, mantissa_shiftRight,
    mantissa_ofMantissaAndAccuracy, log2_div_two_pow]
  omega

theorem le_roundedMantissa (em : ExtendedMantissa) : em.mantissa ≤ em.roundedMantissa := by
  rw [ExtendedMantissa.roundedMantissa]
  rcases em.accuracy with _ | _ | _ | _ <;> simp only [Accuracy.roundToNearestEven] <;> omega

/-- Rounding does not lower the leading bit of a long mantissa. -/
theorem leadsFrom_roundWithAccuracy (sign : Sign) {mantissa : ℕ} {exponent : ℤ}
    (accuracy : Accuracy) (hlong : 52 ≤ mantissa.log2) (hlow : -1022 ≤ bit)
    (hbit : bit ≤ mantissa.log2 + exponent) :
    LeadsFrom bit (roundWithAccuracy Format.binary64 sign mantissa exponent accuracy) := by
  obtain ⟨hlog, hexponent⟩ := log2_shiftToTargetExponent exponent accuracy hlong (by omega)
  rw [roundWithAccuracy]
  generalize shiftToTargetExponent Format.binary64 mantissa exponent accuracy = shifted at *
  obtain ⟨em, e⟩ := shifted
  -- a carry may make the mantissa longer, and it is shifted once more
  have hrounded : 52 ≤ em.roundedMantissa.log2 := hlog ▸ log2_le_log2 (le_roundedMantissa em)
  obtain ⟨hlog', hexponent'⟩ := log2_shiftToTargetExponent e .exact hrounded
    (by dsimp only at hexponent; omega)
  dsimp only at hexponent ⊢
  split
  · next hz =>
    rw [hz] at hlog'
    cases hlog'
  · exact ⟨hlog', by omega⟩

/-! ## Packing -/

/-- An exponent that is high enough is that of a mantissa of full length. -/
theorem leadsFrom_unpack {b : BitVec Format.binary64.numBits} (hlow : -1022 ≤ bit)
    (hfinite : Binary64.biasedOf b.toNat ≠ 2047) (hbit : bit + 1023 ≤ Binary64.biasedOf b.toNat) :
    LeadsFrom bit (unpack Format.binary64 b) := by
  have hbias : Format.binary64.exponentBias = 1023 := rfl
  have hne := unpackExponent_ne_iff.2 hfinite
  rw [← toNat_unpackExponent] at hbit
  have hzero : unpackExponent b ≠ 0#_ := by
    intro h
    rw [h, BitVec.toNat_zero] at hbit
    omega
  have hmantissa : (1#1 ++ unpackMantissa b).toNat.log2 = 52 := by
    have hone : (1#1 ++ unpackMantissa b).toNat = 2 ^ 52 + (unpackMantissa b).toNat := by
      rw [BitVec.toNat_append, ← Nat.shiftLeft_add_eq_or_of_lt (unpackMantissa b).isLt]
      rfl
    have hlt : (unpackMantissa b).toNat < 2 ^ 52 := (unpackMantissa b).isLt
    rw [hone, Nat.log2_eq_iff (by omega)]
    omega
  rw [UnpackedFloat.unpack]
  dsimp only
  rw [if_neg hne, if_neg hzero, LeadsFrom, hbias]
  refine ⟨hmantissa, ?_⟩
  omega

/-- A double of full length is packed with its exponent. -/
theorem le_biasedOf_pack {u : UnpackedFloat} (hlow : -1022 ≤ bit) (h : LeadsFrom bit u)
    (hfits : Fits u) :
    bit + 1023 ≤ Binary64.biasedOf (UnpackedFloat.pack Format.binary64 u).toNat := by
  have hbias : Format.binary64.exponentBias = 1023 := rfl
  have hbits : 2 ^ Format.binary64.exponentBits = 2048 := rfl
  cases u with
  | finite sign mantissa exponent positive =>
    obtain ⟨hlog, hbit⟩ := h
    rw [Fits, greatestExponent] at hfits
    rw [← toNat_unpackExponent, UnpackedFloat.pack]
    dsimp only
    rw [hbias, hbits, if_neg (by omega), if_pos (by rw [hlog]; rfl), unpackExponent_packComponents]
    have hm : (exponent + (1023 : ℕ) + (52 : ℕ)).toNat % 2048 = exponent + 1075 := by omega
    have hb : bit + 1023 ≤ exponent + 1075 := by omega
    exact hb.trans_eq hm.symm
  | _ => exact h.elim

theorem Leads.leadsFrom {x : Float} (h : Leads bit x) (hlow : -1022 ≤ bit) :
    LeadsFrom bit x.toModel.unpack :=
  leadsFrom_unpack (b := x.toBits.toBitVec) hlow ((isFinite_iff_biasedOf x).1 h.isFinite)
    h.le_biased

/-- The leading bit is a lower bound for the magnitude. -/
theorem Leads.le_value {x : Float} {negative : Bool} {magnitude : Dyadic} (h : Leads bit x)
    (hlow : -1022 ≤ bit) (hx : Binary64.ofFloat x = .finite negative magnitude) :
    (2 : ℚ) ^ bit ≤ magnitude.value := by
  have hbit := h.le_biased
  rw [Binary64.ofFloat, Binary64.ofWord] at hx
  split at hx
  · split at hx <;> cases hx
  split at hx
  · omega
  · obtain ⟨-, rfl⟩ := Binary64.finite.inj hx
    generalize Binary64.biasedOf x.toBits.toNat = biased at hbit
    generalize Binary64.fractionOf x.toBits.toNat = fraction
    rw [Dyadic.value]
    push_cast [cast_twoTo]
    calc (2 : ℚ) ^ bit ≤ 2 ^ ((52 : ℤ) + (biased - 1075)) :=
          zpow_le_zpow_right₀ one_le_two (by omega)
      _ = 2 ^ 52 * 2 ^ ((biased : ℤ) - 1075) := by
          rw [zpow_add₀ two_ne_zero]
          rfl
      _ ≤ (2 ^ 52 + fraction) * 2 ^ ((biased : ℤ) - 1075) := by
          gcongr
          linarith [(fraction.cast_nonneg : (0 : ℚ) ≤ fraction)]

/-! ## Division by a thousand -/

/-- A thousand has ten bits, so a thousandth leads from a bit that is lower by ten at most. -/
theorem leads_div_thousand {x : Float} (hlow : -1012 ≤ bit) (h : Leads bit x) :
    Leads (bit - 10) (x / 1000) := by
  have hfinite := (isFinite_div_thousand_iff x).2 h.isFinite
  refine ⟨hfinite, ?_⟩
  have hbits : (x / 1000).toBits.toNat = (UnpackedFloat.pack Format.binary64
    (UnpackedFloat.div Format.binary64 x.toModel.unpack (1000 : Float).toModel.unpack)).toNat := rfl
  have hdiv : (x / 1000).isFinite = (Float.Model.pack (UnpackedFloat.div Format.binary64
    x.toModel.unpack (1000 : Float).toModel.unpack)).isFinite := rfl
  rw [hdiv, isFinite_pack_iff] at hfinite
  rw [hbits]
  refine le_biasedOf_pack (by omega) ?_ hfinite
  have hx := h.leadsFrom (by omega)
  rw [unpack_thousand]
  generalize x.toModel.unpack = u at hx
  cases u with
  | finite sign mantissa exponent positive =>
    obtain ⟨hlog, hbit⟩ := hx
    have hthousand : (1000 * 2 ^ 43).log2 = 52 := by decide
    rw [UnpackedFloat.div, divCore]
    dsimp only
    rw [targetExponent_eq, totalExponent, totalExponent, hthousand, hlog]
    have htarget : min (exponent - -43) (max (((52 : ℕ) : ℤ) + 1 + exponent -
        (((52 : ℕ) : ℤ) + 1 + -43) - 53) (-1074)) = exponent - 10 := by
      omega
    have hshift : (exponent - -43 - (exponent - 10)).toNat = 53 := by omega
    rw [htarget, hshift]
    -- the mantissa is shifted so far that the quotient has at least 53 bits again
    have hquotient : 52 ≤ ((mantissa <<< 53) / (1000 * 2 ^ 43)).log2 := by
      have hm : 2 ^ 52 ≤ mantissa := ((Nat.log2_eq_iff positive.ne').1 hlog).1
      have hle : 2 ^ 52 ≤ (mantissa <<< 53) / (1000 * 2 ^ 43) := by
        rw [Nat.shiftLeft_eq, Nat.le_div_iff_mul_le (by decide)]
        omega
      exact (Nat.le_log2 (by omega)).2 hle
    exact leadsFrom_roundWithAccuracy _ _ hquotient (by omega) (by omega)
  | _ => exact hx.elim

/-- There are two zeros. -/
theorem eq_zero_of_beq_zero {x : Float} (h : (x == 0) = true) : x = 0 ∨ x = -0 := by
  have hbeq : (x == 0) = UnpackedFloat.beq x.toModel.unpack (0 : Float).toModel.unpack := rfl
  have hp : (0 : Float).toModel.unpack = .zero .positive := rfl
  have hn : (-0 : Float).toModel.unpack = .zero .negative := rfl
  -- a double is determined by what it is taken apart into
  have hinj (y : Float) (hy : x.toModel.unpack = y.toModel.unpack) : x = y := by
    have hbits : x.toBits.toBitVec = y.toBits.toBitVec :=
      (UnpackedFloat.unpack_inj_of_valid x.toModel.valid y.toModel.valid).1 hy
    rw [← Float.ofBits_toBits x, ← Float.ofBits_toBits y, UInt64.toBitVec_inj.1 hbits]
  rw [hbeq, hp, UnpackedFloat.beq_iff_ne_notANumber_and_eq] at h
  rcases h.2.2 with h | ⟨-, h⟩ | ⟨h, -⟩
  · exact .inl (hinj 0 (h.trans hp.symm))
  · cases h
  · exact .inr (hinj (-0) (h.trans hn.symm))

end

namespace Binary64

/-! ## Whole numbers -/

theorem div_le_roundDiv (tie : Tie) (num den : ℕ) : num / den ≤ roundDiv tie num den := by
  rcases roundDiv_eq_or tie num den with ⟨h, -⟩ | ⟨h, -⟩ <;> omega

/-- The word of a natural that is not zero is that of one or greater. -/
theorem le_nearestBits {n : ℕ} (hn : 0 < n) : 1023 * twoTo 52 ≤ nearestBits n 1 := by
  unfold nearestBits
  rw [if_neg hn.ne']
  dsimp only
  rw [exponentFor_one hn]
  have hmantissa : twoTo 52 ≤ roundDiv .toEven (n * twoTo (-((n.log2 : ℤ) - 52)).toNat)
      (1 * twoTo ((n.log2 : ℤ) - 52).toNat) := by
    refine le_trans ?_ (div_le_roundDiv _ _ _)
    rw [Nat.one_mul, Nat.le_div_iff_mul_le (twoTo_pos _)]
    exact twoTo_mul_le hn 52
  have hexponent : 1022 ≤ ((n.log2 : ℤ) - 52 + 1074).toNat := by omega
  have hword := Nat.mul_le_mul_right (twoTo 52) hexponent
  rw [infinityWord]
  omega

/-- A word of a magnitude keeps its exponent with either sign. -/
theorem leads_signed (negative : Bool) {word : ℕ} {bit : ℤ} (hlow : -1022 ≤ bit)
    (hfinite : word < infinityWord) (hbit : bit + 1023 ≤ (word / twoTo 52 : ℕ)) :
    Leads bit (signed negative word) := by
  have hsigned := isFinite_signed negative hfinite
  have hbiased := biasedOf_signed negative hfinite
  refine ⟨hsigned, ?_⟩
  unfold signed at hsigned ⊢
  generalize (if negative then twoTo 63 + word else word).toUInt64 = bits at hsigned hbiased
  rw [← hbiased] at hbit
  have hpack : (Float.ofBits bits).toBits.toNat = (UnpackedFloat.pack Format.binary64
    (UnpackedFloat.unpack Format.binary64 bits.toBitVec)).toNat := rfl
  have hne := (isFinite_ofBits_iff bits).1 hsigned
  rw [hpack]
  exact le_biasedOf_pack hlow (leadsFrom_unpack (b := bits.toBitVec) hlow hne hbit)
    (fits_unpack (isFinite_unpack_iff.2 (unpackExponent_ne_iff.2 hne)))

/-- A finite double rounded to a whole number is zero or one at least. -/
theorem roundAway_cases {x : Float} (h : x.isFinite = true) :
    (roundAway x == 0) = true ∨ Leads 0 (roundAway x) := by
  obtain ⟨negative, magnitude, hx⟩ := (isFinite_iff_exists x).1 h
  unfold roundAway
  rw [hx]
  dsimp only
  split
  · next hwhole =>
    -- a double without places is as it is
    refine .inr ⟨h, ?_⟩
    rw [ofFloat, ofWord] at hx
    split at hx
    · split at hx <;> cases hx
    split at hx
    · obtain ⟨-, rfl⟩ := Binary64.finite.inj hx
      dsimp only at hwhole
      omega
    · obtain ⟨-, rfl⟩ := Binary64.finite.inj hx
      dsimp only at hwhole
      omega
  · have hlimit := roundDiv_den_le hx
    rw [nearest]
    rcases Nat.eq_zero_or_pos (roundDiv .up magnitude.mantissa magnitude.den) with hz | hpos
    · rw [hz]
      cases negative <;> exact .inl (by decide +kernel)
    · refine .inr (leads_signed negative (by decide) (nearestBits_lt hlimit) ?_)
      have hword := le_nearestBits hpos
      have := (Nat.le_div_iff_mul_le (twoTo_pos 52)).2 hword
      omega

end Binary64

end LaserPath
