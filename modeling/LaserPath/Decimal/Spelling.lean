import LaserPath.Decimal.Shortest

/-!
# Texts of numbers

A decimal is spelled with its digits in place or with a power of ten behind
them. What a format decides — what follows a whole number and when the power
of ten is used — is a `Spelling`. A fixed number of places is written from the
exact value of a double.

## Main definitions

* `Spelling` — the decisions of a format.
* `Decimal.spell` — the text of a decimal.
* `spellShortest` — the text of a double with the fewest digits that read back.
* `spellFixed` — the text of a double with a fixed number of places.
-/

namespace LaserPath

/-- What a format decides about the text of a decimal. -/
structure Spelling where
  /-- What follows a whole number. -/
  wholeEnd : String
  /-- The exponents of the first digit whose digits are written in place, both
  ends included; outside them the exponent is written. Without a range all
  digits are written in place. -/
  inPlace : Option (Int × Int)
  deriving DecidableEq, Repr

namespace Spelling

/-- Digits in place and nothing behind a whole number. -/
def plain : Spelling := ⟨"", none⟩

/-- Digits in place, and a whole number ends in `.0`. -/
def pointed : Spelling := ⟨".0", none⟩

/-- A whole number ends in `.0`, and a number outside 10⁻⁵ up to 10¹⁶ has an
exponent. -/
def scientific : Spelling := ⟨".0", some (-5, 15)⟩

end Spelling

namespace Decimal

/-- Digits in place: `digits * 10 ^ exponent`. -/
def inPlaceText (wholeEnd : List Char) (digits : List Char) (exponent : Int) : List Char :=
  if 0 ≤ exponent then
    digits ++ List.replicate exponent.toNat '0' ++ wholeEnd
  else
    let places := (-exponent).toNat
    if places < digits.length then
      digits.take (digits.length - places) ++ '.' :: digits.drop (digits.length - places)
    else
      '0' :: '.' :: (List.replicate (places - digits.length) '0' ++ digits)

/-- One digit, the others behind a point, and the exponent with its sign. -/
def scientificText (digits : List Char) (lead : Int) : List Char :=
  let body := match digits with
    | first :: second :: rest => first :: '.' :: second :: rest
    | short => short
  body ++ 'e' :: (if lead < 0 then '-' else '+') :: digitsOf lead.natAbs

/-- The characters of a decimal in a format. -/
def spell (s : Spelling) (d : Decimal) : List Char :=
  let digits := digitsOf d.coefficient
  let lead : Int := d.exponent + digits.length - 1
  let body := match s.inPlace with
    | some (least, greatest) =>
      if least ≤ lead ∧ lead ≤ greatest then
        inPlaceText s.wholeEnd.toList digits d.exponent
      else scientificText digits lead
    | none => inPlaceText s.wholeEnd.toList digits d.exponent
  if d.negative then '-' :: body else body

end Decimal

/-- The text of infinity. -/
def infinityText (negative : Bool) : String := if negative then "-inf" else "inf"

/-- The text of a double with the fewest digits that read back. Of two equally
near digits the upper one is written. -/
def spellShortest (s : Spelling) (x : Float) : String :=
  match Binary64.ofFloat x with
  | .notANumber => "NaN"
  | .infinite negative => infinityText negative
  | .finite _ _ => ((Decimal.ofFloat? .up x).map (String.ofList ∘ Decimal.spell s)).getD ""

/-- The digits of `n` with a point before the last `places` of them, and at
least one digit before the point. -/
def placePoint (places n : Nat) : List Char :=
  let digits := digitsOf n
  let padded := List.replicate (places + 1 - digits.length) '0' ++ digits
  padded.take (padded.length - places) ++ '.' :: padded.drop (padded.length - places)

/-- The exact value of a double rounded to `places` places, halves to the even
digit. The sign is written also before zeros. -/
def spellFixed (places : Nat) (x : Float) : String :=
  match Binary64.ofFloat x with
  | .notANumber => "NaN"
  | .infinite negative => infinityText negative
  | .finite negative magnitude =>
    let body :=
      placePoint places (roundDiv .toEven (magnitude.num * tenTo places) magnitude.den)
    String.ofList (if negative then '-' :: body else body)

end LaserPath
