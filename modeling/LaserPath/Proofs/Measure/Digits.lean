import LaserPath.Proofs.Decimal.Leading
import LaserPath.Proofs.Decimal.Numeral
import LaserPath.Proofs.Measure.Coordinate

/-!
# The digits of a coordinate

Where a coordinate is written as a number, its digits count thousandths of a millimetre, and they
are the thousandths nearest to the rounded coordinate. A rounded coordinate that is not zero is at
least a thousandth, up to the error of a division. So one of its digits is not zero, and a minus
sign never stands in front of a text that is zero.

## Main definitions

* `CoordinateText` — the parts of the text of a coordinate.
* `CoordinateText.ofThousandths` — the text of a count of thousandths.
* `CoordinateText.Gives` — the text is that of a double.

## Main statements

* `Measure.exists_coordinateText` — the text of a coordinate, and the number it is the text of.
-/

namespace LaserPath

/-! ## Digits and a point -/

theorem exists_ne_zero_of_valueOfDigits_pos {digits : List Char} (h : 0 < valueOfDigits digits) :
    ∃ c ∈ digits, c ≠ '0' := by
  by_contra hnone
  push Not at hnone
  rw [List.eq_replicate_of_mem hnone, valueOfDigits_replicate_zero] at h
  exact absurd h (lt_irrefl 0)

theorem valueOfDigits_pointDigits (places n : Nat) : valueOfDigits (pointDigits places n) = n := by
  rw [pointDigits, valueOfDigits_zeros_append, valueOfDigits_digitsOf]

/-- In front of the point there is one zero or no zero leads. -/
theorem lead_take_pointDigits (places n : Nat) :
    (pointDigits places n).take ((pointDigits places n).length - places) = ['0'] ∨
      ((pointDigits places n).take ((pointDigits places n).length - places)).head? ≠ some '0' := by
  rcases Nat.lt_or_ge places (digitsOf n).length with hlong | hshort
  · -- there are digits enough, and no zero is put in front of them
    have hdigits : pointDigits places n = digitsOf n := by
      rw [pointDigits, Nat.sub_eq_zero_of_le hlong]
      rfl
    rw [hdigits, List.head?_take, if_neg (by omega)]
    rcases digitsOf_lead n with h | h
    · left
      rw [h] at hlong ⊢
      obtain rfl : places = 0 := by simpa using hlong
      rfl
    · exact .inr h
  · left
    obtain ⟨k, hk⟩ : ∃ k, places + 1 - (digitsOf n).length = k + 1 :=
      ⟨places - (digitsOf n).length, by omega⟩
    have hlength : (pointDigits places n).length - places = 1 := by
      rw [pointDigits, List.length_append, List.length_replicate]
      omega
    rw [hlength, pointDigits, hk, List.replicate_succ]
    rfl

/-! ## Texts of coordinates -/

/-- The parts of the text of a coordinate: digits without a zero in front of others, three digits
behind the point, and a minus sign only if one of the digits is not zero. -/
structure CoordinateText where
  negative : Bool
  whole : List Char
  places : List Char
  whole_ne_nil : whole ≠ []
  lead : whole = ['0'] ∨ whole.head? ≠ some '0'
  isDigit : ∀ c ∈ whole ++ places, c.isDigit = true
  length_places : places.length = 3
  significant : negative = true → ∃ c ∈ whole ++ places, c ≠ '0'

namespace CoordinateText

/-- The text itself. -/
def text (t : CoordinateText) : String :=
  String.ofList (if t.negative then '-' :: (t.whole ++ '.' :: t.places)
    else t.whole ++ '.' :: t.places)

/-- The digits as a count of thousandths. -/
def thousandths (t : CoordinateText) : Nat := valueOfDigits (t.whole ++ t.places)

/-- The text of a count of thousandths. -/
def ofThousandths (negative : Bool) (n : Nat) (h : negative = true → 0 < n) : CoordinateText where
  negative := negative
  whole := (pointDigits 3 n).take ((pointDigits 3 n).length - 3)
  places := (pointDigits 3 n).drop ((pointDigits 3 n).length - 3)
  whole_ne_nil := by
    have := lt_length_pointDigits 3 n
    refine List.ne_nil_of_length_pos ?_
    rw [List.length_take]
    omega
  lead := lead_take_pointDigits 3 n
  isDigit := by
    rw [List.take_append_drop]
    exact fun _ => isDigit_of_mem_pointDigits
  length_places := by
    have := lt_length_pointDigits 3 n
    rw [List.length_drop]
    omega
  significant := by
    intro hnegative
    apply exists_ne_zero_of_valueOfDigits_pos
    rw [List.take_append_drop, valueOfDigits_pointDigits]
    exact h hnegative

variable {negative : Bool} {n : Nat}

theorem text_ofThousandths (h : negative = true → 0 < n) : (ofThousandths negative n h).text =
    String.ofList (if negative then '-' :: placePoint 3 n else placePoint 3 n) :=
  rfl

@[simp] theorem thousandths_ofThousandths (h : negative = true → 0 < n) :
    (ofThousandths negative n h).thousandths = n := by
  rw [thousandths, ofThousandths, List.take_append_drop, valueOfDigits_pointDigits]

/-- A minus sign does not stand in front of zeros. -/
theorem text_ne (t : CoordinateText) : t.text ≠ "-0.000" := by
  intro h
  have hchars := congrArg String.toList h
  rw [text, String.toList_ofList] at hchars
  cases hsign : t.negative with
  | false =>
    rw [hsign, if_neg Bool.false_ne_true] at hchars
    obtain ⟨c, rest, hwhole⟩ := List.exists_cons_of_ne_nil t.whole_ne_nil
    have hdigit := t.isDigit c (by simp [hwhole])
    rw [hwhole] at hchars
    obtain ⟨rfl, -⟩ := List.cons.inj hchars
    exact absurd hdigit (by decide)
  | true =>
    rw [hsign, if_pos rfl] at hchars
    have htail : t.whole ++ '.' :: t.places = ['0'] ++ ['.', '0', '0', '0'] :=
      (List.cons.inj hchars).2
    obtain ⟨hwhole, hplaces⟩ := List.append_inj' htail (by simp [t.length_places])
    obtain ⟨c, hc, hne⟩ := t.significant hsign
    rw [hwhole, (List.cons.inj hplaces).2] at hc
    exact hne (by simpa using hc)

/-- The digits are the thousandths nearest to a double, and the sign is that of the double unless
the double is zero. -/
def Gives (t : CoordinateText) (y : Float) : Prop :=
  ∃ negative magnitude, Binary64.ofFloat y = .finite negative magnitude ∧
    t.negative = (negative && decide (magnitude.mantissa ≠ 0)) ∧
      |(t.thousandths : ℚ) - 1000 * magnitude.value| ≤ 1 / 2

end CoordinateText

/-! ## Rounding to thousandths -/

/-- The thousandths nearest to a magnitude. -/
theorem abs_thousandths_sub_le (d : Dyadic) :
    |(roundDiv .toEven (d.num * tenTo 3) d.den : ℚ) - 1000 * d.value| ≤ 1 / 2 := by
  have h := abs_roundDiv_sub_le .toEven (d.num * tenTo 3) d.den_pos
  have hquotient : ((d.num * tenTo 3 : Nat) : ℚ) / d.den = 1000 * d.value := by
    rw [← d.num_div_den]
    push_cast [cast_tenTo]
    ring
  rwa [hquotient] at h

namespace Measure

variable {x : Float}

/-- A rounded coordinate that is not zero is at least 2⁻¹⁰. -/
theorem leads_toThousandth (h : (x * 1000).isFinite = true) (hz : (toThousandth x == 0) = false) :
    Leads (-10) (toThousandth x) := by
  rcases Binary64.roundAway_cases h with hzero | hleads
  · unfold toThousandth at hz
    rcases eq_zero_of_beq_zero hzero with h0 | h0 <;> rw [h0] at hz
    · exact absurd hz (by decide +kernel)
    · exact absurd hz (by decide +kernel)
  · exact leads_div_thousand (by decide) hleads

/-- More than half a thousandth is not rounded to zero. -/
theorem thousandths_pos {y : Float} {negative : Bool} {magnitude : Dyadic} (h : Leads (-10) y)
    (hy : Binary64.ofFloat y = .finite negative magnitude) :
    0 < roundDiv .toEven (magnitude.num * tenTo 3) magnitude.den := by
  have hvalue := h.le_value (by decide) hy
  have hnear := (abs_sub_le_iff.1 (abs_thousandths_sub_le magnitude)).2
  have hten : (2 : ℚ) ^ (-10 : ℤ) = 1 / 1024 := by norm_num
  rw [hten] at hvalue
  have : (0 : ℚ) < roundDiv .toEven (magnitude.num * tenTo 3) magnitude.den := by linarith
  exact_mod_cast this

/-- Both zeros are written without a sign. -/
theorem gives_zero {y : Float} (hz : (y == 0) = true) :
    (CoordinateText.ofThousandths false 0 nofun).Gives y := by
  rcases eq_zero_of_beq_zero hz with rfl | rfl
  · refine ⟨false, ⟨0, -1074⟩, by decide +kernel, rfl, ?_⟩
    simp [Dyadic.value]
  · refine ⟨true, ⟨0, -1074⟩, by decide +kernel, rfl, ?_⟩
    simp [Dyadic.value]

/-- A coordinate whose product by a thousand is finite is written with a digit or more and no zero
in front of others, a point and three digits, and with a minus sign only if one of the digits is
not zero. The digits are the thousandths nearest to the rounded coordinate. -/
theorem exists_coordinateText (h : (x * 1000).isFinite = true) :
    ∃ t : CoordinateText, coordinate x = t.text ∧ t.text ≠ "-0.000" ∧
      t.Gives (toThousandth x) := by
  suffices ∃ t : CoordinateText, coordinate x = t.text ∧ t.Gives (toThousandth x) by
    obtain ⟨t, htext, hgives⟩ := this
    exact ⟨t, htext, t.text_ne, hgives⟩
  unfold coordinate
  dsimp only
  cases hz : toThousandth x == 0 with
  | true => exact ⟨.ofThousandths false 0 nofun, rfl, gives_zero hz⟩
  | false =>
    obtain ⟨negative, magnitude, hy⟩ :=
      (Binary64.isFinite_iff_exists _).1 ((isFinite_toThousandth_iff x).2 h)
    have hpos := thousandths_pos (leads_toThousandth h hz) hy
    have hmantissa : magnitude.mantissa ≠ 0 := by
      intro h0
      rw [Dyadic.num, h0, Nat.zero_mul, Nat.zero_mul] at hpos
      exact absurd hpos (by simp [roundDiv])
    refine ⟨.ofThousandths negative _ fun _ => hpos, ?_, negative, magnitude, hy, ?_, ?_⟩
    · rw [CoordinateText.text_ofThousandths, if_neg Bool.false_ne_true, spellFixed, hy]
    · simp [CoordinateText.ofThousandths, hmantissa]
    · rw [CoordinateText.thousandths_ofThousandths]
      exact abs_thousandths_sub_le magnitude

/-- Half a thousandth is rounded away from zero and keeps its sign. -/
theorem exists_coordinateText_of_half_thousandth :
    ((-0.0005 : Float) * 1000).isFinite = true ∧ coordinate (-0.0005) = "-0.001" ∧
      ∃ t : CoordinateText, coordinate (-0.0005) = t.text ∧ t.text ≠ "-0.000" ∧
        t.Gives (toThousandth (-0.0005)) :=
  ⟨by decide +kernel, by decide +kernel, exists_coordinateText (by decide +kernel)⟩

example : coordinate (-0.0004) = "0.000" := by decide +kernel

end Measure

end LaserPath
