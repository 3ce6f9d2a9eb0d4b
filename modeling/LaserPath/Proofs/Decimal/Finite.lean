import LaserPath.Decimal.Binary64
import Mathlib

/-!
# Finite doubles

A double is finite if its biased exponent is not the greatest one. An operation rounds to a
mantissa and an exponent, and its result is finite if the exponent is not too great. So
finiteness is a matter of exponents, and a quotient by a thousand, whose exponent is hardly
greater than that of the dividend less ten, stays finite.

## Main definitions

* `Fits` — an unpacked double that is finite when it is packed.

## Main statements

* `isFinite_iff_biasedOf`, `Binary64.isFinite_iff_exists` — a finite double is one that is taken
  apart into a magnitude.
* `Binary64.isFinite_roundAway_iff` — a double rounded to a whole number is finite if and only if
  the double is.
* `isFinite_div_thousand_iff` — a double divided by a thousand is finite if and only if the
  double is.
-/

namespace LaserPath

open Float.Model Float.Model.UnpackedFloat

/-- The greatest exponent of a double with a mantissa of 53 bits. -/
def greatestExponent : Int := 971

/-- Is the unpacked double finite when it is packed? -/
def Fits : UnpackedFloat → Prop
  | .zero _ => True
  | .finite _ _ exponent _ => exponent ≤ greatestExponent
  | _ => False

section Bits

variable {b : BitVec Format.binary64.numBits}

theorem isFinite_unpack_iff : (unpack Format.binary64 b).isFinite = true ↔
    unpackExponent b ≠ -1#_ := by
  unfold UnpackedFloat.unpack
  dsimp only
  split
  · next h =>
    split
    · exact iff_of_false Bool.false_ne_true fun hn => hn h
    · exact iff_of_false Bool.false_ne_true fun hn => hn h
  · next h =>
    split
    · split
      · exact iff_of_true rfl h
      · exact iff_of_true rfl h
    · exact iff_of_true rfl h

theorem toNat_unpackExponent : (unpackExponent b).toNat = Binary64.biasedOf b.toNat := by
  simp [unpackExponent, Binary64.biasedOf, twoTo, Nat.shiftRight_eq_div_pow]

theorem unpackExponent_ne_iff : unpackExponent b ≠ -1#_ ↔ Binary64.biasedOf b.toNat ≠ 2047 := by
  rw [← toNat_unpackExponent, ne_eq, ← BitVec.toNat_inj]
  rfl

/-- An unpacked double that is finite fits. -/
theorem fits_unpack (h : (unpack Format.binary64 b).isFinite = true) :
    Fits (unpack Format.binary64 b) := by
  have hb := isFinite_unpack_iff.1 h
  have hne := unpackExponent_ne_iff.1 hb
  rw [← toNat_unpackExponent] at hne
  have hlt : (unpackExponent b).toNat < 2048 := (unpackExponent b).isLt
  have hbias : Format.binary64.exponentBias = 1023 := rfl
  unfold UnpackedFloat.unpack
  dsimp only
  rw [if_neg hb]
  split
  · next hz =>
    split
    · trivial
    · rw [Fits, hz, hbias]
      decide
  · rw [Fits, greatestExponent, hbias]
    omega

end Bits

/-- A double is finite when it is packed exactly if it fits. -/
theorem isFinite_pack_iff (u : UnpackedFloat) :
    (Float.Model.pack u).isFinite = true ↔ Fits u := by
  have hpack : (Float.Model.pack u).isFinite =
      (unpack Format.binary64 (UnpackedFloat.pack Format.binary64 u)).isFinite := rfl
  have hbias : Format.binary64.exponentBias = 1023 := rfl
  rw [hpack, isFinite_unpack_iff]
  cases u with
  | infinity sign =>
    simp only [UnpackedFloat.pack, packedInfinity, unpackExponent_packComponents, Fits]
    simp
  | notANumber =>
    simp only [UnpackedFloat.pack, packedNaN, unpackExponent_packComponents, Fits]
    simp
  | zero sign =>
    simp only [UnpackedFloat.pack, packedZero, unpackExponent_packComponents, Fits]
    simp
  | finite sign mantissa exponent positive =>
    have hbits : 2 ^ Format.binary64.exponentBits = 2048 := rfl
    rw [UnpackedFloat.pack, Fits, greatestExponent]
    dsimp only
    rw [hbias, hbits]
    split
    · next h =>
      refine iff_of_false (fun hn => hn ?_) (by omega)
      rw [packedInfinity, unpackExponent_packComponents]
    · next h =>
      split
      · refine iff_of_true ?_ (by omega)
        rw [unpackExponent_packComponents, ne_eq, ← BitVec.toNat_inj]
        have hm : (exponent + (1023 : Nat) + (52 : Nat)).toNat % 2048 ≠ 2047 := by omega
        exact hm
      · refine iff_of_true ?_ (by omega)
        rw [unpackExponent_packComponents]
        decide

/-! ## Exponents under rounding -/

/-- The mantissa of a shifted extended mantissa is the quotient by the power of two. -/
theorem mantissa_shiftRight (em : ExtendedMantissa) (n : Nat) :
    (em >>> n).mantissa = em.mantissa / 2 ^ n := by
  induction n with
  | zero => exact (Nat.div_one _).symm
  | succ n ih =>
    have hs : (em >>> (n + 1)).mantissa = (em >>> n).mantissa / 2 := rfl
    rw [hs, ih, Nat.div_div_eq_div_mul, Nat.pow_succ]

theorem mantissa_ofMantissaAndAccuracy (mantissa : Nat) (accuracy : Accuracy) :
    (ExtendedMantissa.ofMantissaAndAccuracy mantissa accuracy).mantissa = mantissa := by
  rcases accuracy with _ | _ | _ | _ <;> rfl

theorem roundedMantissa_le (em : ExtendedMantissa) : em.roundedMantissa ≤ em.mantissa + 1 := by
  rw [ExtendedMantissa.roundedMantissa]
  rcases em.accuracy with _ | _ | _ | _ <;> simp only [Accuracy.roundToNearestEven] <;> omega

theorem targetExponent_eq (total : Int) :
    Format.binary64.targetExponent total = max (total - 53) (-1074) :=
  rfl

theorem exponent_shiftToTargetExponent (mantissa : Nat) (exponent : Int) (accuracy : Accuracy) :
    (shiftToTargetExponent Format.binary64 mantissa exponent accuracy).2 =
      max exponent (Format.binary64.targetExponent (totalExponent mantissa exponent)) := by
  simp only [shiftToTargetExponent, shiftToExponent]
  omega

theorem log2_succ_le (n : Nat) : (n + 1).log2 ≤ n.log2 + 1 := by
  rcases Nat.eq_zero_or_pos n with rfl | hn
  · decide
  · have h : n < 2 ^ (n.log2 + 1) := Nat.lt_log2_self
    have h2 : n + 1 < 2 ^ (n.log2 + 2) := by
      rw [Nat.pow_succ]
      omega
    exact Nat.lt_succ_iff.1 ((Nat.log2_lt (by omega)).2 h2)

theorem log2_le_log2 {m n : Nat} (h : m ≤ n) : m.log2 ≤ n.log2 := by
  rw [Nat.log2_eq_log_two, Nat.log2_eq_log_two]
  exact Nat.log_mono_right h

/-- Bits that are shifted out are missing from the length of the mantissa. -/
theorem log2_div_add_le {m k : Nat} (h : m / 2 ^ k ≠ 0) : (m / 2 ^ k).log2 + k ≤ m.log2 := by
  have hm : m ≠ 0 := by
    rintro rfl
    simp at h
  have hle : 2 ^ ((m / 2 ^ k).log2 + k) ≤ m := by
    rw [Nat.pow_add]
    calc 2 ^ (m / 2 ^ k).log2 * 2 ^ k ≤ m / 2 ^ k * 2 ^ k :=
          Nat.mul_le_mul_right _ (Nat.log2_self_le h)
      _ ≤ m := Nat.div_mul_le_self m (2 ^ k)
  exact (Nat.le_log2 hm).2 hle

/-- Rounding raises the exponent at most so far that the mantissa has 53 bits, and once more. -/
theorem fits_roundWithAccuracy (sign : Sign) {mantissa : Nat} {exponent : Int}
    (accuracy : Accuracy) (he : exponent ≤ greatestExponent)
    (ht : totalExponent mantissa exponent - 52 ≤ greatestExponent) :
    Fits (roundWithAccuracy Format.binary64 sign mantissa exponent accuracy) := by
  rw [greatestExponent] at he ht
  rw [totalExponent] at ht
  rw [roundWithAccuracy]
  generalize hs : shiftToTargetExponent Format.binary64 mantissa exponent accuracy = shifted
  obtain ⟨em, e⟩ := shifted
  have hshift : e = max exponent (max (mantissa.log2 + 1 + exponent - 53) (-1074)) := by
    have h := exponent_shiftToTargetExponent mantissa exponent accuracy
    rw [hs, targetExponent_eq, totalExponent] at h
    exact h
  have hem : em.mantissa = mantissa / 2 ^ (e - exponent).toNat := by
    have h := congrArg Prod.fst hs
    simp only [shiftToTargetExponent, shiftToExponent, targetExponent_eq, totalExponent] at h
    rw [← h, mantissa_shiftRight, mantissa_ofMantissaAndAccuracy]
    congr 2
    omega
  have hlog : em.roundedMantissa.log2 + (e - exponent) ≤ mantissa.log2 + 1 ∨
      em.roundedMantissa.log2 ≤ 1 := by
    have hr := (log2_le_log2 (roundedMantissa_le em)).trans (log2_succ_le _)
    rw [hem] at hr
    by_cases hz : mantissa / 2 ^ (e - exponent).toNat = 0
    · rw [hz] at hr
      exact .inr hr
    · have hd := log2_div_add_le hz
      omega
  have hfinal := exponent_shiftToTargetExponent em.roundedMantissa e .exact
  rw [targetExponent_eq, totalExponent] at hfinal
  dsimp only
  split
  · trivial
  · rw [Fits, greatestExponent, hfinal]
    omega

/-! ## Division by a thousand -/

theorem unpack_thousand :
    (1000 : Float).toModel.unpack = .finite .positive (1000 * 2 ^ 43) (-43) (by decide) := by
  rfl

/-- The mantissa of a double has 53 bits. -/
theorem mantissa_lt_of_unpack {b : BitVec Format.binary64.numBits} {sign : Sign} {mantissa : Nat}
    {exponent : Int} {positive : 0 < mantissa}
    (h : UnpackedFloat.unpack Format.binary64 b = .finite sign mantissa exponent positive) :
    mantissa < 2 ^ 53 := by
  unfold UnpackedFloat.unpack at h
  dsimp only at h
  split at h
  · split at h <;> cases h
  · split at h
    · split at h
      · cases h
      · cases h
        exact Nat.lt_trans (unpackMantissa b).isLt (by decide)
    · cases h
      exact (1#1 ++ unpackMantissa b).isLt

theorem log2_shiftLeft_lt {m : Nat} (hm : m < 2 ^ 53) (k : Nat) : (m <<< k).log2 ≤ 52 + k := by
  rcases Nat.eq_zero_or_pos m with rfl | hp
  · simp
  · have hlt : m <<< k < 2 ^ (53 + k) := by
      rw [Nat.shiftLeft_eq, Nat.pow_add]
      exact Nat.mul_lt_mul_of_pos_right hm (Nat.two_pow_pos k)
    have hne : m <<< k ≠ 0 := by
      rw [Nat.shiftLeft_eq]
      exact Nat.mul_ne_zero hp.ne' (Nat.two_pow_pos k).ne'
    have := (Nat.log2_lt hne).2 hlt
    omega

/-- The quotient of a mantissa by that of a thousand is no longer than the shift. -/
theorem log2_div_thousand_le {m : Nat} (hm : m < 2 ^ 53) (k : Nat) :
    ((m <<< k) / (1000 * 2 ^ 43)).log2 ≤ k := by
  have hq : (m <<< k) / (1000 * 2 ^ 43) ≤ (m <<< k) / 2 ^ 52 :=
    Nat.div_le_div_left (by decide) (by decide)
  have hlog := log2_le_log2 hq
  by_cases hz : (m <<< k) / 2 ^ 52 = 0
  · rw [hz] at hlog
    exact hlog.trans (Nat.zero_le k)
  · have hd := log2_div_add_le hz
    have hs := log2_shiftLeft_lt hm k
    omega

theorem fits_div_thousand (sign : Sign) {mantissa : Nat} {exponent : Int}
    {positive : 0 < mantissa} (hm : mantissa < 2 ^ 53) (he : exponent ≤ greatestExponent)
    (h : 0 < 1000 * 2 ^ 43) :
    Fits (UnpackedFloat.div Format.binary64 (.finite sign mantissa exponent positive)
      (.finite .positive (1000 * 2 ^ 43) (-43) h)) := by
  rw [greatestExponent] at he
  have hlog : mantissa.log2 < 53 := (Nat.log2_lt positive.ne').2 hm
  have hthousand : (1000 * 2 ^ 43).log2 = 52 := by decide
  rw [UnpackedFloat.div, divCore]
  dsimp only
  rw [targetExponent_eq, totalExponent, totalExponent, hthousand]
  generalize ht : min (exponent - -43) (max (mantissa.log2 + 1 + exponent -
    ((52 : Nat) + 1 + -43) - 53) (-1074)) = target
  have hq := log2_div_thousand_le hm (exponent - -43 - target).toNat
  refine fits_roundWithAccuracy _ _ ?_ ?_
  · rw [greatestExponent]
    omega
  · rw [greatestExponent, totalExponent]
    omega

/-- A double divided by a thousand is finite if and only if the double is. -/
theorem isFinite_div_thousand_iff (x : Float) :
    (x / 1000).isFinite = true ↔ x.isFinite = true := by
  have hdiv : (x / 1000).isFinite = (Float.Model.pack (UnpackedFloat.div Format.binary64
    x.toModel.unpack (1000 : Float).toModel.unpack)).isFinite := rfl
  have hx : x.isFinite = x.toModel.unpack.isFinite := rfl
  rw [hdiv, hx, isFinite_pack_iff, unpack_thousand]
  cases hu : x.toModel.unpack with
  | infinity sign => exact iff_of_false id Bool.false_ne_true
  | notANumber => exact iff_of_false id Bool.false_ne_true
  | zero sign => exact iff_of_true trivial rfl
  | finite sign mantissa exponent positive =>
    have hfits : Fits (.finite sign mantissa exponent positive) := by
      rw [← hu]
      exact fits_unpack (b := x.toModel.toBits.toBitVec) (by rw [← Float.Model.unpack, hu]; rfl)
    exact iff_of_true (fits_div_thousand sign (mantissa_lt_of_unpack hu) hfits _) rfl

/-- A double that is not finite is not zero. -/
theorem beq_zero_of_not_isFinite {x : Float} (h : x.isFinite = false) : (x == 0) = false := by
  have hx : x.isFinite = x.toModel.unpack.isFinite := rfl
  have hbeq : (x == 0) = UnpackedFloat.beq x.toModel.unpack (0 : Float).toModel.unpack := rfl
  have hz : (0 : Float).toModel.unpack = .zero .positive := rfl
  rw [hbeq, hz]
  rw [hx] at h
  cases hu : x.toModel.unpack with
  | infinity sign => cases sign <;> rfl
  | notANumber => rfl
  | zero sign => simp [hu, UnpackedFloat.isFinite] at h
  | finite sign mantissa exponent positive => simp [hu, UnpackedFloat.isFinite] at h

/-- A finite double is defined. -/
theorem isNaN_eq_false_of_isFinite {x : Float} (h : x.isFinite = true) : x.isNaN = false := by
  have hx : x.isFinite = x.toModel.unpack.isFinite := rfl
  have hn : x.isNaN = x.toModel.unpack.isNaN := rfl
  rw [hx] at h
  rw [hn]
  cases hu : x.toModel.unpack with
  | notANumber => simp [hu, UnpackedFloat.isFinite] at h
  | _ => rfl

/-! ## Words -/

theorem isFinite_iff_biasedOf (x : Float) :
    x.isFinite = true ↔ Binary64.biasedOf x.toBits.toNat ≠ 2047 :=
  isFinite_unpack_iff.trans unpackExponent_ne_iff

theorem isFinite_ofBits_iff (word : UInt64) :
    (Float.ofBits word).isFinite = true ↔ Binary64.biasedOf word.toNat ≠ 2047 := by
  have h : (Float.ofBits word).isFinite = (Float.Model.pack
    (UnpackedFloat.unpack Format.binary64 word.toBitVec)).isFinite := rfl
  rw [h, isFinite_pack_iff]
  refine Iff.trans ⟨fun hf => ?_, fits_unpack⟩ (isFinite_unpack_iff.trans unpackExponent_ne_iff)
  cases hu : UnpackedFloat.unpack Format.binary64 word.toBitVec with
  | infinity sign => rw [hu] at hf; exact hf.elim
  | notANumber => rw [hu] at hf; exact hf.elim
  | zero sign => rfl
  | finite sign mantissa exponent positive => rfl

namespace Binary64

/-- A finite double is one that is taken apart into a magnitude. -/
theorem isFinite_iff_exists (x : Float) :
    x.isFinite = true ↔ ∃ negative magnitude, ofFloat x = .finite negative magnitude := by
  rw [isFinite_iff_biasedOf, ofFloat, ofWord]
  split
  · next h =>
    refine iff_of_false (fun hn => hn h) ?_
    split <;> simp
  · next h =>
    refine iff_of_true h ?_
    split
    · exact ⟨_, _, rfl⟩
    · exact ⟨_, _, rfl⟩

theorem mantissa_lt_of_ofFloat {x : Float} {negative : Bool} {magnitude : Dyadic}
    (h : ofFloat x = .finite negative magnitude) : magnitude.mantissa < twoTo 53 := by
  have hf : fractionOf x.toBits.toNat < twoTo 52 := Nat.mod_lt _ (twoTo_pos 52)
  have h52 : twoTo 52 = 4503599627370496 := rfl
  have h53 : twoTo 53 = 9007199254740992 := rfl
  rw [ofFloat, ofWord] at h
  split at h
  · split at h <;> cases h
  · split at h
    · obtain ⟨-, rfl⟩ := Binary64.finite.inj h
      exact Nat.lt_trans hf (by decide)
    · obtain ⟨-, rfl⟩ := Binary64.finite.inj h
      dsimp only
      omega

/-- The exponent of a word is that of its magnitude with either sign. -/
theorem biasedOf_signed (negative : Bool) {word : Nat} (h : word < infinityWord) :
    biasedOf (if negative then twoTo 63 + word else word).toUInt64.toNat = word / twoTo 52 := by
  have h11 : twoTo 11 = 2048 := rfl
  have h52 : twoTo 52 = 4503599627370496 := rfl
  have h63 : twoTo 63 = 9223372036854775808 := rfl
  rw [infinityWord, h52] at h
  rw [biasedOf, h11, h52, h63]
  cases negative with
  | false =>
    have hw : word.toUInt64.toNat = word % 18446744073709551616 := rfl
    rw [if_neg Bool.false_ne_true, hw]
    omega
  | true =>
    have hw : (9223372036854775808 + word).toUInt64.toNat =
        (9223372036854775808 + word) % 18446744073709551616 := rfl
    rw [if_pos rfl, hw]
    omega

/-- A word below that of infinity is finite with either sign. -/
theorem isFinite_signed (negative : Bool) {word : Nat} (h : word < infinityWord) :
    (signed negative word).isFinite = true := by
  rw [signed, isFinite_ofBits_iff, biasedOf_signed negative h]
  exact ((Nat.div_lt_iff_lt_mul (twoTo_pos 52)).2 h).ne

theorem roundDiv_le_add_one (tie : Tie) (num den : Nat) : roundDiv tie num den ≤ num + 1 := by
  have hd := Nat.div_le_self num den
  rcases roundDiv_eq_or tie num den with ⟨h, -⟩ | ⟨h, -⟩ <;> omega

/-- A natural that is not zero is not below the power of two of its leading bit, in units of
another power of two. -/
theorem twoTo_mul_le {n : Nat} (hn : 0 < n) (k : Nat) :
    twoTo k * twoTo ((n.log2 : Int) - k).toNat ≤ n * twoTo (-((n.log2 : Int) - k)).toNat := by
  have hle : twoTo n.log2 ≤ n := Nat.log2_self_le hn.ne'
  calc twoTo k * twoTo ((n.log2 : Int) - k).toNat
      = twoTo n.log2 * twoTo (-((n.log2 : Int) - k)).toNat := by
        rw [← twoTo_add, ← twoTo_add]
        congr 1
        omega
    _ ≤ n * twoTo (-((n.log2 : Int) - k)).toNat := Nat.mul_le_mul_right _ hle

/-- A natural that is not zero has its leading bit at the end of a mantissa of 53 bits. -/
theorem exponentFor_one {n : Nat} (hn : 0 < n) : exponentFor n 1 = n.log2 - 52 := by
  have h1 : Nat.log2 1 = 0 := rfl
  have hlow := twoTo_mul_le hn 53
  rw [← Nat.not_lt, Nat.cast_ofNat] at hlow
  rw [exponentFor, h1, Nat.one_mul, Int.natCast_zero, Int.sub_zero, if_neg hlow]
  omega

/-- A natural of 53 bits is finite as a double. -/
theorem nearestBits_lt {n : Nat} (h : n ≤ twoTo 53) : nearestBits n 1 < infinityWord := by
  have h54 : twoTo 54 = 4 * twoTo 52 := rfl
  have hpos : 4 ≤ twoTo 52 := by decide
  unfold nearestBits
  split
  · decide
  · next hn =>
    have hlog : n.log2 < 54 := (Nat.log2_lt hn).2 (h.trans_lt (by decide))
    have hexponent := exponentFor_one (Nat.pos_of_ne_zero hn)
    dsimp only
    generalize exponentFor n 1 = e at hexponent
    have hscaled : n * twoTo (-e).toNat ≤ twoTo 54 := by
      have hlt : n < twoTo (n.log2 + 1) := Nat.lt_log2_self
      calc n * twoTo (-e).toNat ≤ twoTo (n.log2 + 1) * twoTo (53 - n.log2) := by
            refine Nat.mul_le_mul hlt.le (Nat.pow_le_pow_right (by decide) ?_)
            omega
        _ = twoTo (n.log2 + 1 + (53 - n.log2)) := (twoTo_add _ _).symm
        _ ≤ twoTo 54 := Nat.pow_le_pow_right (by decide) (by omega)
    have hr := roundDiv_le_add_one .toEven (n * twoTo (-e).toNat) (1 * twoTo e.toNat)
    have he : (e + 1074).toNat ≤ 1075 := by omega
    have hword := Nat.mul_le_mul_right (twoTo 52) he
    rw [infinityWord]
    generalize twoTo 52 = unit at *
    omega

/-- The whole number nearest to a magnitude is not above the least natural of 54 bits. -/
theorem roundDiv_den_le {x : Float} {negative : Bool} {magnitude : Dyadic}
    (h : ofFloat x = .finite negative magnitude) :
    roundDiv .up magnitude.mantissa magnitude.den ≤ twoTo 53 := by
  have hm := mantissa_lt_of_ofFloat h
  have hr := roundDiv_le_add_one .up magnitude.mantissa magnitude.den
  omega

/-- A double rounded to a whole number is finite if and only if the double is. -/
theorem isFinite_roundAway_iff (x : Float) :
    (roundAway x).isFinite = true ↔ x.isFinite = true := by
  unfold roundAway
  split
  · next negative magnitude h =>
    split
    · rfl
    · exact iff_of_true (isFinite_signed negative (nearestBits_lt (roundDiv_den_le h)))
        ((isFinite_iff_exists x).2 ⟨_, _, h⟩)
  · rfl

end Binary64

end LaserPath
