import LaserPath.Measure
import Mathlib.Data.List.Basic

/-!
# Characters of numbers

The texts of numbers are made of digits, signs and points, and of the letters of the values
that are no numbers. So no number breaks a line, ends a word or begins a comment.

## Main definitions

* `isNumberChar` — the characters of numbers.
* `IsNumberText` — a text of such characters.

## Main statements

* `isNumberText_toString`, `isNumberText_spellFixed`, `isNumberText_spellShortest` — the
  writers of numbers write such texts.
* `placePoint_eq` — what stands before and behind the point.
-/

namespace LaserPath

/-- Does the character occur in the text of a number? -/
def isNumberChar (c : Char) : Bool :=
  c.isDigit || ['-', '.', 'i', 'n', 'f', 'N', 'a'].contains c

/-- A text made of characters of numbers. -/
def IsNumberText (s : String) : Prop := ∀ c ∈ s.toList, isNumberChar c = true

instance (s : String) : Decidable (IsNumberText s) :=
  decidable_of_iff (s.toList.all isNumberChar = true) List.all_eq_true

theorem isDigit_of_mem_digitsOf {n : Nat} {c : Char} (h : c ∈ digitsOf n) : c.isDigit = true :=
  Nat.isDigit_of_mem_toDigits (by decide) (by decide) h

theorem isNumberChar_of_isDigit {c : Char} (h : c.isDigit = true) : isNumberChar c = true := by
  rw [isNumberChar, h, Bool.true_or]

theorem isDigit_of_mem_zeros {n : Nat} {c : Char} (h : c ∈ List.replicate n '0') :
    c.isDigit = true := by
  rw [List.eq_of_mem_replicate h]
  decide

/-- The digits of a natural with zeros in front, so that there are more than `places`. -/
def pointDigits (places n : Nat) : List Char :=
  List.replicate (places + 1 - (digitsOf n).length) '0' ++ digitsOf n

theorem lt_length_pointDigits (places n : Nat) : places < (pointDigits places n).length := by
  rw [pointDigits, List.length_append, List.length_replicate]
  omega

theorem isDigit_of_mem_pointDigits {places n : Nat} {c : Char}
    (h : c ∈ pointDigits places n) : c.isDigit = true := by
  rcases List.mem_append.1 h with hz | hd
  · exact isDigit_of_mem_zeros hz
  · exact isDigit_of_mem_digitsOf hd

/-- There is a digit before the point and there are `places` digits behind it. -/
theorem placePoint_eq (places n : Nat) :
    ∃ whole part : List Char, placePoint places n = whole ++ '.' :: part ∧
      whole ≠ [] ∧ (∀ c ∈ whole, c.isDigit = true) ∧
      part.length = places ∧ ∀ c ∈ part, c.isDigit = true := by
  have hl := lt_length_pointDigits places n
  refine ⟨(pointDigits places n).take ((pointDigits places n).length - places),
    (pointDigits places n).drop ((pointDigits places n).length - places), rfl, ?_, ?_, ?_, ?_⟩
  · refine List.ne_nil_of_length_pos ?_
    rw [List.length_take]
    omega
  · intro c hc
    exact isDigit_of_mem_pointDigits (List.mem_of_mem_take hc)
  · rw [List.length_drop]
    omega
  · intro c hc
    exact isDigit_of_mem_pointDigits (List.mem_of_mem_drop hc)

theorem isNumberChar_of_mem_placePoint {places n : Nat} {c : Char} (h : c ∈ placePoint places n) :
    isNumberChar c = true := by
  obtain ⟨whole, part, heq, -, hw, -, hp⟩ := placePoint_eq places n
  rw [heq, List.mem_append, List.mem_cons] at h
  rcases h with h | rfl | h
  · exact isNumberChar_of_isDigit (hw c h)
  · decide
  · exact isNumberChar_of_isDigit (hp c h)

theorem isNumberChar_of_mem_sign {negative : Bool} {body : List Char}
    (hb : ∀ c ∈ body, isNumberChar c = true) :
    ∀ c ∈ (if negative then '-' :: body else body), isNumberChar c = true := by
  cases negative with
  | false => exact hb
  | true => exact List.forall_mem_cons.2 ⟨by decide, hb⟩

theorem isNumberText_infinityText (negative : Bool) : IsNumberText (infinityText negative) := by
  cases negative <;> decide

theorem isNumberText_toString (n : Nat) : IsNumberText (toString n) := by
  intro c hc
  rw [Nat.toString_eq_repr, Nat.toList_repr] at hc
  exact isNumberChar_of_isDigit (isDigit_of_mem_digitsOf hc)

theorem isNumberText_spellFixed (places : Nat) (x : Float) :
    IsNumberText (spellFixed places x) := by
  unfold spellFixed
  split
  · decide
  · exact isNumberText_infinityText _
  · rw [IsNumberText, String.toList_ofList]
    exact isNumberChar_of_mem_sign fun c => isNumberChar_of_mem_placePoint

namespace Decimal

theorem isNumberChar_of_mem_inPlaceText {digits : List Char} (exponent : Int)
    (hd : ∀ c ∈ digits, c.isDigit = true) :
    ∀ c ∈ inPlaceText [] digits exponent, isNumberChar c = true := by
  intro c hc
  unfold inPlaceText at hc
  split at hc
  · simp only [List.append_nil, List.mem_append] at hc
    rcases hc with h | h
    · exact isNumberChar_of_isDigit (hd c h)
    · exact isNumberChar_of_isDigit (isDigit_of_mem_zeros h)
  · dsimp only at hc
    split at hc
    · rw [List.mem_append, List.mem_cons] at hc
      rcases hc with h | rfl | h
      · exact isNumberChar_of_isDigit (hd c (List.mem_of_mem_take h))
      · decide
      · exact isNumberChar_of_isDigit (hd c (List.mem_of_mem_drop h))
    · simp only [List.mem_cons, List.mem_append] at hc
      rcases hc with rfl | rfl | h | h
      · decide
      · decide
      · exact isNumberChar_of_isDigit (isDigit_of_mem_zeros h)
      · exact isNumberChar_of_isDigit (hd c h)

theorem isNumberChar_of_mem_spell (d : Decimal) :
    ∀ c ∈ d.spell .plain, isNumberChar c = true :=
  isNumberChar_of_mem_sign
    (isNumberChar_of_mem_inPlaceText d.exponent fun _ => isDigit_of_mem_digitsOf)

end Decimal

theorem isNumberText_spellShortest (x : Float) : IsNumberText (spellShortest .plain x) := by
  unfold spellShortest
  split
  · decide
  · exact isNumberText_infinityText _
  · cases Decimal.ofFloat? .up x with
    | none => decide
    | some d =>
      rw [IsNumberText, Option.map_some, Option.getD_some, Function.comp_apply,
        String.toList_ofList]
      exact d.isNumberChar_of_mem_spell

namespace Measure

theorem isNumberText_coordinate (x : Float) : IsNumberText (coordinate x) := by
  unfold coordinate
  dsimp only
  split
  · decide
  · exact isNumberText_spellFixed 3 _

theorem isNumberText_rate (x : Float) : IsNumberText (rate x) := by
  unfold rate
  split
  · decide
  · exact isNumberText_spellShortest x

theorem isNumberText_length (x : Float) : IsNumberText (length x) := isNumberText_spellFixed 3 x

theorem isNumberText_percent (x : Float) : IsNumberText (percent x) := isNumberText_spellFixed 1 x

end Measure

end LaserPath
