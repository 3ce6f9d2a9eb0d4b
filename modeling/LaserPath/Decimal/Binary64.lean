import LaserPath.Decimal.Power
import LaserPath.Decimal.Rounding

/-!
# Doubles as exact numbers

A finite double is a sign and a magnitude `mantissa * 2 ^ exponent`. This
module takes a double apart into these and puts the double nearest to a
quotient of naturals together, both in exact arithmetic, so that everything
about the text of numbers can be said about naturals.

## Main definitions

* `Dyadic` — a magnitude `mantissa * 2 ^ exponent`.
* `Binary64` — a double taken apart; `Binary64.ofFloat` takes it apart.
* `nearestBits` — the word of the double nearest to a quotient.
* `Binary64.roundAway` — a double rounded to a whole number, halves away from
  zero.
-/

namespace LaserPath

/-- The magnitude `mantissa * 2 ^ exponent`. -/
structure Dyadic where
  mantissa : Nat
  exponent : Int
  deriving DecidableEq, Repr

namespace Dyadic

/-- A magnitude as the numerator of a quotient. -/
def num (d : Dyadic) : Nat := d.mantissa * twoTo d.exponent.toNat

/-- A magnitude as the denominator of a quotient, a power of two. -/
def den (d : Dyadic) : Nat := twoTo (-d.exponent).toNat

theorem den_pos (d : Dyadic) : 0 < d.den := twoTo_pos _

end Dyadic

/-- A double taken apart. -/
inductive Binary64 where
  | notANumber
  | infinite (negative : Bool)
  | finite (negative : Bool) (magnitude : Dyadic)
  deriving DecidableEq, Repr

namespace Binary64

/-- The sign of a word, its uppermost bit. -/
def signOf (word : Nat) : Bool := decide (word / twoTo 63 = 1)

/-- The biased exponent of a word. -/
def biasedOf (word : Nat) : Nat := word / twoTo 52 % twoTo 11

/-- The fraction of a word, its lower 52 bits. -/
def fractionOf (word : Nat) : Nat := word % twoTo 52

/-- Takes a word of 64 bits apart. -/
def ofWord (word : Nat) : Binary64 :=
  if biasedOf word = 2047 then
    if fractionOf word = 0 then .infinite (signOf word) else .notANumber
  else if biasedOf word = 0 then
    .finite (signOf word) ⟨fractionOf word, -1074⟩
  else
    .finite (signOf word) ⟨twoTo 52 + fractionOf word, biasedOf word - 1075⟩

/-- Takes a double apart. -/
def ofFloat (x : Float) : Binary64 := ofWord x.toBits.toNat

/-- The word of infinity, which is above the words of all finite magnitudes. -/
def infinityWord : Nat := 2047 * twoTo 52

/-- The exponent at which `num / den` has a mantissa of 53 bits, or the least
exponent of a double if that is greater. -/
def exponentFor (num den : Nat) : Int :=
  let low : Int := (num.log2 : Int) - den.log2 - 53
  let isLow := num * twoTo (-low).toNat < twoTo 53 * (den * twoTo low.toNat)
  max (-1074) (if isLow then low else low + 1)

end Binary64

open Binary64 in
/-- The word of the double nearest to `num / den`, halfway cases to the even
mantissa. A mantissa that rounds up to 54 bits carries into the exponent, and
one whose exponent is then too great becomes infinity. -/
def nearestBits (num den : Nat) : Nat :=
  if num = 0 then 0
  else
    let exponent := exponentFor num den
    let mantissa :=
      roundDiv .toEven (num * twoTo (-exponent).toNat) (den * twoTo exponent.toNat)
    min ((exponent + 1074).toNat * twoTo 52 + mantissa) infinityWord

namespace Binary64

/-- The double of a sign and the word of a magnitude. -/
def signed (negative : Bool) (word : Nat) : Float :=
  Float.ofBits (if negative then twoTo 63 + word else word).toUInt64

/-- The double nearest to `num / den` with the given sign. -/
def nearest (negative : Bool) (num den : Nat) : Float :=
  signed negative (nearestBits num den)

/-- The double nearest to a natural. -/
def ofNat (n : Nat) : Float := nearest false n 1

/-- A double rounded to a whole number, halves away from zero. The sign stays,
also on a zero. -/
def roundAway (x : Float) : Float :=
  match ofFloat x with
  | .finite negative magnitude =>
    if 0 ≤ magnitude.exponent then x
    else nearest negative (roundDiv .up magnitude.mantissa magnitude.den) 1
  | _ => x

end Binary64

end LaserPath
