import LaserPath.Proofs.Decimal.Numeral
import LaserPath.Proofs.Decimal.Readback
import LaserPath.Proofs.Text.Words

/-!
# Numbers in words

A word that is read as a finite number is made of digits, signs, points and the marks of exponents.
All other words that are read stand for infinity or for the undefined number. Every finite double
has a word that is read as it.

## Main definitions

* `isNumeralChar` — the characters of words for finite numbers.

## Main statements

* `isNumeralChar_of_readNumber?` — a word for a finite number is made of these characters.
* `exists_numeral_spellShortest` — the text of a finite double is a numeral.
* `exists_readNumber?_eq` — a finite double has a word.
-/

namespace LaserPath

/-- Does the character occur in a word for a finite number? -/
def isNumeralChar (c : Char) : Bool := c.isDigit || ['+', '-', '.', 'e', 'E'].contains c

theorem isNumeralChar_of_isDigit {c : Char} (h : c.isDigit = true) : isNumeralChar c = true := by
  simp [isNumeralChar, h]

/-- What stands in front of the rest of a word is digits. -/
theorem isNumeralChar_of_dropWhile {text : List Char}
    (h : ∀ c ∈ text.dropWhile Char.isDigit, isNumeralChar c = true) :
    ∀ c ∈ text, isNumeralChar c = true := by
  intro c hc
  rw [← List.takeWhile_append_dropWhile (p := Char.isDigit) (l := text)] at hc
  rcases List.mem_append.1 hc with hc | hc
  · exact isNumeralChar_of_isDigit (List.mem_takeWhile_imp hc)
  · exact h c hc

/-- What stands in front is a sign. -/
theorem isNumeralChar_of_splitSign {word : List Char}
    (h : ∀ c ∈ (splitSign word).2, isNumeralChar c = true) :
    ∀ c ∈ word, isNumeralChar c = true := by
  intro c hc
  unfold splitSign at h
  split at h
  · rcases List.mem_cons.1 hc with rfl | hc
    · rfl
    · exact h c hc
  · rcases List.mem_cons.1 hc with rfl | hc
    · rfl
    · exact h c hc
  · exact h c hc

/-! ## The characters of a word that is read -/

namespace Decimal

theorem isNumeralChar_of_readExponent? {text : List Char} {n : Int}
    (h : readExponent? text = some n) : ∀ c ∈ text, isNumeralChar c = true := by
  apply isNumeralChar_of_splitSign
  intro c hc
  unfold readExponent? at h
  dsimp only at h
  split at h
  · cases h
  · next hdigits =>
    simp only [Bool.or_eq_true, Bool.not_eq_true', not_or, Bool.not_eq_false,
      List.all_eq_true] at hdigits
    exact isNumeralChar_of_isDigit (hdigits.2 c hc)

/-- Behind the digits there is nothing, or the mark of an exponent and the exponent. -/
theorem isNumeralChar_of_mark {rest : List Char} {whole d : Decimal} {f : Int → Decimal}
    (h : (match rest with
      | [] => some whole
      | mark :: power =>
        if mark = 'e' ∨ mark = 'E' then (readExponent? power).map f else none) = some d) :
    ∀ c ∈ rest, isNumeralChar c = true := by
  split at h
  · exact nofun
  · split at h
    · next hmark =>
      obtain ⟨n, hn, -⟩ := Option.map_eq_some_iff.1 h
      have hexponent := isNumeralChar_of_readExponent? hn
      rcases hmark with rfl | rfl
      · exact List.forall_mem_cons.2 ⟨rfl, hexponent⟩
      · exact List.forall_mem_cons.2 ⟨rfl, hexponent⟩
    · cases h

theorem isNumeralChar_of_readUnsigned? {negative : Bool} {text : List Char} {d : Decimal}
    (h : readUnsigned? negative text = some d) :
    text ≠ [] ∧ ∀ c ∈ text, isNumeralChar c = true := by
  constructor
  · rintro rfl
    cases h
  · apply isNumeralChar_of_dropWhile
    unfold readUnsigned? at h
    dsimp only at h
    split at h
    · next behind hdrop =>
      split at h
      · cases h
      · rw [hdrop]
        exact List.forall_mem_cons.2
          ⟨rfl, isNumeralChar_of_dropWhile (isNumeralChar_of_mark h)⟩
    · split at h
      · cases h
      · exact isNumeralChar_of_mark h

end Decimal

theorem Binary64.isFinite_signed_infinityWord (negative : Bool) :
    (signed negative infinityWord).isFinite = false := by
  cases negative <;> rfl

/-- A word for a finite number is made of digits, signs, points and marks of exponents. -/
theorem isNumeralChar_of_readNumber? {word : List Char} {x : Float}
    (h : readNumber? word = some x) (hx : x.isFinite = true) :
    word ≠ [] ∧ ∀ c ∈ word, isNumeralChar c = true := by
  unfold readNumber? at h
  dsimp only at h
  split at h
  · obtain rfl := Option.some.inj h
    rw [Binary64.isFinite_signed_infinityWord] at hx
    cases hx
  · split at h
    · obtain rfl := Option.some.inj h
      cases hx
    · obtain ⟨d, hd, -⟩ := Option.map_eq_some_iff.1 h
      obtain ⟨hne, hchars⟩ := Decimal.isNumeralChar_of_readUnsigned? hd
      refine ⟨?_, isNumeralChar_of_splitSign hchars⟩
      rintro rfl
      exact hne rfl

/-! ## The word of a number -/

/-- The text of a finite double is a numeral that has the value of the double. -/
theorem exists_numeral_spellShortest {x : Float} (h : x.isFinite = true) :
    ∃ (n : Numeral) (negative : Bool), n.WellFormed ∧ n.power? = none ∧
      (spellShortest .pointed x).toList = n.signed negative ∧ (n.decimal negative).toFloat = x := by
  obtain ⟨d, hd⟩ := Decimal.exists_ofFloat?_eq .up h
  obtain ⟨n, hw, hp, htext, hm⟩ := Decimal.exists_numeral (s := .pointed) rfl d
    (Decimal.exponent_of_ofFloat?_eq hd)
  refine ⟨n, d.negative, hw, hp rfl, ?_, Decimal.toFloat_eq_of_ofFloat?_eq hd rfl (hm d.negative)⟩
  rw [← htext]
  obtain ⟨_, _, hfinite⟩ := (Binary64.isFinite_iff_exists x).1 h
  unfold spellShortest
  rw [hfinite, hd]
  exact String.toList_ofList

section

variable {n : Numeral}

theorem toLower_of_isDigit {c : Char} (h : c.isDigit = true) : c.toLower = c := by
  simp only [Char.isDigit, Bool.and_eq_true, decide_eq_true_eq] at h
  unfold Char.toLower
  grind

/-- A numeral is not the name of infinity, nor of the undefined number. -/
theorem Numeral.toLower_chars_ne_cons (hw : n.WellFormed) {c : Char} (hc : c.isDigit = false)
    {rest : List Char} : n.chars.map Char.toLower ≠ c :: rest := by
  obtain ⟨first, tail, hchars, hd⟩ := exists_digit_of_wellFormed hw
  have hne := ne_of_isDigit hd hc
  simp [hchars, toLower_of_isDigit hd, hne]

theorem Decimal.readUnsigned?_chars (hw : n.WellFormed) (hp : n.power? = none) (negative : Bool) :
    readUnsigned? negative n.chars = some (n.decimal negative) := by
  have hpoint : ('.').isDigit = false := rfl
  have hplaces : n.places.takeWhile Char.isDigit = n.places :=
    List.takeWhile_eq_self_iff.2 hw.isDigit_places
  have hrest : n.places.dropWhile Char.isDigit = [] :=
    List.dropWhile_eq_nil_iff.2 hw.isDigit_places
  rw [Numeral.chars_of_power?_eq_none hw hp]
  unfold readUnsigned?
  simp only [takeWhile_append_cons hw.isDigit_whole hpoint,
    dropWhile_append_cons hw.isDigit_whole hpoint, hplaces, hrest]
  rw [if_neg (by simp [hw.whole_ne_nil]), Numeral.decimal, hp]
  rfl

/-- A numeral with a sign is read as its value. -/
theorem readNumber?_signed (hw : n.WellFormed) (hp : n.power? = none) (negative : Bool) :
    readNumber? (n.signed negative) = some (n.decimal negative).toFloat := by
  have hi : ('i').isDigit = false := rfl
  have hn : ('n').isDigit = false := rfl
  unfold readNumber?
  rw [Numeral.splitSign_signed hw]
  dsimp only
  rw [if_neg, if_neg, Decimal.readUnsigned?_chars hw hp, Option.map_some]
  · exact Numeral.toLower_chars_ne_cons hw hn
  · rintro (h | h)
    · exact Numeral.toLower_chars_ne_cons hw hi h
    · exact Numeral.toLower_chars_ne_cons hw hi h

end

/-- Every finite double has a word. -/
theorem exists_readNumber?_eq {x : Float} (h : x.isFinite = true) :
    ∃ word, readNumber? word = some x := by
  obtain ⟨n, negative, hw, hp, -, rfl⟩ := exists_numeral_spellShortest h
  exact ⟨n.signed negative, readNumber?_signed hw hp negative⟩

end LaserPath
