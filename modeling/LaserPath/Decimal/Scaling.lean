import LaserPath.Decimal.Binary64

/-!
# Numbers by scaling

A number in JSON is read in the arithmetic of doubles. Its digits are taken
into a word of 64 bits as long as there is room, the word becomes the nearest
double, and that is multiplied or divided by a power of ten. Each step rounds,
so the result may be a neighbour of the double that is nearest to the number.

## Main definitions

* `Significand` — the word and the power of ten.
* `Significand.takeWhole`, `Significand.takePlaces` — the digits before and
  behind the point.
* `Significand.toFloat?` — the double, unless the number is out of range.

## Main statements

* `Significand.takeWhole_lt`, `Significand.takePlaces_lt` — the digits that are
  taken fit into a word.
-/

namespace LaserPath

/-- The digits that have been taken, as a word, and the power of ten by which it
is to be multiplied. -/
structure Significand where
  word : Nat
  exponent : Int
  deriving DecidableEq, Repr

namespace Significand

/-- No digits, to be multiplied by a power of ten. -/
def start (exponent : Int) : Significand := ⟨0, exponent⟩

/-- The word with one more digit. -/
def withDigit (word : Nat) (digit : Char) : Nat := 10 * word + (digit.toNat - '0'.toNat)

/-- Takes the digits before the point. From the first one for which there is no
room, each one only raises the power of ten. -/
def takeWhole (s : Significand) : List Char → Significand
  | [] => s
  | digit :: rest =>
    if withDigit s.word digit < twoTo 64 then
      takeWhole ⟨withDigit s.word digit, s.exponent⟩ rest
    else
      ⟨s.word, s.exponent + (rest.length + 1)⟩

/-- Takes the digits behind the point up to the first one for which there is no
room. There may be room for a small digit where there was none for a greater
one before the point. -/
def takePlaces (s : Significand) : List Char → Significand
  | [] => s
  | digit :: rest =>
    if withDigit s.word digit < twoTo 64 then
      takePlaces ⟨withDigit s.word digit, s.exponent - 1⟩ rest
    else
      s

theorem takeWhole_lt {s : Significand} (h : s.word < twoTo 64) (digits : List Char) :
    (s.takeWhole digits).word < twoTo 64 := by
  fun_induction takeWhole s digits with
  | case1 => exact h
  | case2 s digit rest hroom ih => exact ih hroom
  | case3 => exact h

theorem takePlaces_lt {s : Significand} (h : s.word < twoTo 64) (digits : List Char) :
    (s.takePlaces digits).word < twoTo 64 := by
  fun_induction takePlaces s digits with
  | case1 => exact h
  | case2 s digit rest hroom ih => exact ih hroom
  | case3 => exact h

/-- The greatest power of ten that is a double, by its exponent. -/
def greatestPower : Nat := 308

/-- The double nearest to a power of ten. -/
def powerOfTen (n : Nat) : Float := Binary64.ofNat (tenTo n)

/-- A double divided by a power of ten; by a power that is too great for a
double in several steps. -/
def scaleDown (x : Float) (n : Nat) : Float :=
  if n ≤ greatestPower then x / powerOfTen n
  else if x == 0 then x
  else scaleDown (x / powerOfTen greatestPower) (n - greatestPower)
termination_by n
decreasing_by
  simp only [greatestPower] at *
  omega

/-- A double multiplied by a power of ten, unless the product is out of range. -/
def scaleUp? (x : Float) (n : Nat) : Option Float :=
  if x == 0 then some x
  else if greatestPower < n then none
  else
    let product := x * powerOfTen n
    if product.isFinite then some product else none

/-- The double of a significand, unless it is out of range. -/
def toFloat? (s : Significand) : Option Float :=
  let x := Binary64.ofNat s.word
  if s.exponent < 0 then some (scaleDown x s.exponent.natAbs) else scaleUp? x s.exponent.toNat

/-- The number 9.999999999999999e-6 is not read as the double nearest to it. -/
example : toFloat? ⟨9999999999999999, -21⟩ = some 0.00001 := by decide +kernel

/-- The last digit before the point is left out, and the one behind it is taken. -/
example : ((start 0).takeWhole "18446744073709551619".toList).takePlaces ['2'] =
    ⟨18446744073709551612, 0⟩ := by
  decide +kernel

end Significand

end LaserPath
