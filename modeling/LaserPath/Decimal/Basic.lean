import LaserPath.Decimal.Binary64

/-!
# Decimals

A decimal is a sign, a coefficient and a power of ten. Texts of numbers are
read into decimals and doubles are written through them.

## Main definitions

* `Decimal` — a signed `coefficient * 10 ^ exponent`.
* `Decimal.normal` — the same number with no zero at the end of its
  coefficient.
* `Decimal.toFloat` — the nearest double.
* `digitsOf` — the digits of a natural.
-/

namespace LaserPath

/-- The digits of a natural, most significant first; zero is a single `0`. -/
def digitsOf (n : Nat) : List Char := Nat.toDigits 10 n

/-- The number `± coefficient * 10 ^ exponent`. -/
structure Decimal where
  negative : Bool
  coefficient : Nat
  exponent : Int
  deriving DecidableEq, Repr

namespace Decimal

/-- Drops the zeros at the end of a coefficient and raises the exponent for each. -/
def trim (coefficient : Nat) (exponent : Int) : Nat × Int :=
  if h : coefficient ≠ 0 ∧ coefficient % 10 = 0 then
    trim (coefficient / 10) (exponent + 1)
  else (coefficient, exponent)
termination_by coefficient
decreasing_by omega

/-- The same number with no zero at the end of its coefficient; a zero has exponent zero. -/
def normal (d : Decimal) : Decimal :=
  if d.coefficient = 0 then ⟨d.negative, 0, 0⟩
  else
    let (coefficient, exponent) := trim d.coefficient d.exponent
    ⟨d.negative, coefficient, exponent⟩

/-- The whole number `n`. -/
def ofInt (n : Int) : Decimal := ⟨n < 0, n.natAbs, 0⟩

/-- The nearest double, halfway cases to the even one. A decimal of ten to the
power 310 and above is infinite and one below ten to the power −400 is zero,
so that no power of ten is computed that cannot matter. -/
def toFloat (d : Decimal) : Float :=
  if d.coefficient = 0 then Binary64.signed d.negative 0
  else if 310 < d.exponent then Binary64.signed d.negative Binary64.infinityWord
  else if d.exponent < -(400 + d.coefficient.log2 : Int) then Binary64.signed d.negative 0
  else Binary64.nearest d.negative
    (d.coefficient * tenTo d.exponent.toNat) (tenTo (-d.exponent).toNat)

end Decimal

end LaserPath
