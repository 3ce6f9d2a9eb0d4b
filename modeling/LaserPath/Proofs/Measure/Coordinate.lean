import LaserPath.Proofs.Decimal.Characters
import LaserPath.Proofs.Decimal.Finite

/-!
# The text of a coordinate

A coordinate is rounded to thousandths and written with three places. The rounding multiplies
by a thousand first, and this product may be infinite although the coordinate is not. Where it
is finite everything behind it is finite, and the text is that of a number.

## Main definitions

* `IsCoordinateText` — a sign or none, digits, a point and three digits.

## Main statements

* `Measure.isCoordinateText_coordinate_iff` — exactly which coordinates are written so.
-/

namespace LaserPath

/-- An optional minus sign, one or more digits, a point and exactly three digits. -/
def IsCoordinateText (s : String) : Prop :=
  ∃ sign whole places : List Char, s.toList = sign ++ (whole ++ '.' :: places) ∧
    (sign = [] ∨ sign = ['-']) ∧ whole ≠ [] ∧ (∀ c ∈ whole, c.isDigit = true) ∧
      places.length = 3 ∧ ∀ c ∈ places, c.isDigit = true

theorem IsCoordinateText.point_mem {s : String} (h : IsCoordinateText s) : '.' ∈ s.toList := by
  obtain ⟨sign, whole, places, heq, -⟩ := h
  rw [heq]
  simp

/-- A finite double is written with its places. -/
theorem isCoordinateText_spellFixed {x : Float} (h : x.isFinite = true) :
    IsCoordinateText (spellFixed 3 x) := by
  obtain ⟨negative, magnitude, hx⟩ := (Binary64.isFinite_iff_exists x).1 h
  obtain ⟨whole, places, hp, hne, hw, hl, hd⟩ := placePoint_eq 3
    (roundDiv .toEven (magnitude.num * tenTo 3) magnitude.den)
  rw [spellFixed, hx]
  dsimp only
  rw [hp]
  cases negative with
  | false =>
    rw [if_neg Bool.false_ne_true]
    exact ⟨[], whole, places, String.toList_ofList, .inl rfl, hne, hw, hl, hd⟩
  | true =>
    rw [if_pos rfl]
    exact ⟨['-'], whole, places, String.toList_ofList, .inr rfl, hne, hw, hl, hd⟩

/-- Any other double is written as a word. -/
theorem spellFixed_of_not_isFinite (places : Nat) {x : Float} (h : x.isFinite = false) :
    spellFixed places x ∈ ["inf", "-inf", "NaN"] := by
  unfold spellFixed
  split
  · decide
  · next negative hx => cases negative <;> decide
  · next negative magnitude hx =>
    have hf := (Binary64.isFinite_iff_exists x).2 ⟨_, _, hx⟩
    rw [h] at hf
    exact absurd hf Bool.false_ne_true

namespace Measure

/-- Rounding to thousandths is finite if and only if the product by a thousand is. -/
theorem isFinite_toThousandth_iff (x : Float) :
    (toThousandth x).isFinite = true ↔ (x * 1000).isFinite = true := by
  rw [toThousandth, isFinite_div_thousand_iff, Binary64.isFinite_roundAway_iff]

theorem isCoordinateText_of_isFinite {x : Float} (h : (x * 1000).isFinite = true) :
    IsCoordinateText (coordinate x) := by
  unfold coordinate
  dsimp only
  split
  · have hz (n : Nat) : ∀ c ∈ List.replicate n '0', c.isDigit = true :=
      fun _ => isDigit_of_mem_zeros
    exact ⟨[], ['0'], ['0', '0', '0'], rfl, .inl rfl, by simp, hz 1, rfl, hz 3⟩
  · exact isCoordinateText_spellFixed ((isFinite_toThousandth_iff x).2 h)

theorem coordinate_of_not_isFinite {x : Float} (h : (x * 1000).isFinite = false) :
    coordinate x ∈ ["inf", "-inf", "NaN"] := by
  have hr : (toThousandth x).isFinite = false := by
    rw [← Bool.not_eq_true, isFinite_toThousandth_iff, h]
    exact Bool.false_ne_true
  have hz := beq_zero_of_not_isFinite hr
  rw [coordinate, hz, if_neg Bool.false_ne_true]
  exact spellFixed_of_not_isFinite 3 hr

/-- A coordinate is written with three places exactly if its product by a thousand is finite. -/
theorem isCoordinateText_coordinate_iff (x : Float) :
    IsCoordinateText (coordinate x) ↔ (x * 1000).isFinite = true := by
  refine ⟨fun h => ?_, isCoordinateText_of_isFinite⟩
  by_contra hn
  have hm := coordinate_of_not_isFinite (Bool.eq_false_iff.2 hn)
  have hp := h.point_mem
  simp only [List.mem_cons, List.not_mem_nil, or_false] at hm
  rcases hm with hm | hm | hm <;> rw [hm] at hp <;> exact absurd hp (by decide)

end Measure

end LaserPath
