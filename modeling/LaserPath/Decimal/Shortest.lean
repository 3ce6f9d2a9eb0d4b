import LaserPath.Decimal.Basic

/-!
# The fewest digits that read back

Among the decimals that read back as a given double, the one with the fewest
digits is written, and of those the nearest. The grids of decimals with one,
two, … seventeen digits are tried in turn: on each grid only the two
neighbours of the double can be nearest, and the first grid that has one of
them among the numbers that read back decides.

## Main definitions

* `Dyadic.Basin` — the numbers that round to a magnitude.
* `Dyadic.shortest` — the digits and the power of ten.
* `Decimal.ofFloat?` — the shortest decimal of a finite double.
-/

namespace LaserPath

namespace Dyadic

/-- The numbers that round to a magnitude, as numerators over one denominator:
those from `low` to `high`, the ends included when `closed`. -/
structure Basin where
  low : Nat
  value : Nat
  high : Nat
  den : Nat
  closed : Bool
  deriving DecidableEq, Repr

/-- The numbers that round to `d`. The gap below a power of two is half the gap
above it, unless the power is the least one. -/
def basin (d : Dyadic) : Basin :=
  let unit := twoTo (d.exponent - 2).toNat
  let below := if d.mantissa = twoTo 52 ∧ -1074 < d.exponent then 1 else 2
  { low := (4 * d.mantissa - below) * unit
    value := 4 * d.mantissa * unit
    high := (4 * d.mantissa + 2) * unit
    den := twoTo (2 - d.exponent).toNat
    closed := d.mantissa % 2 = 0 }

/-- The power of ten just above `num / den`: the least `p` with
`num / den < 10 ^ p`. -/
def decimalTop (num den : Nat) : Int :=
  if den ≤ num then (digitsOf (num / den)).length
  else 1 - (digitsOf ((den + num - 1) / num - 1)).length

namespace Basin

/-- The numerators of a basin in units of ten to the power `exponent`. -/
def scale (b : Basin) (exponent : Int) : Basin :=
  let up := tenTo (-exponent).toNat
  { b with
    low := b.low * up
    value := b.value * up
    high := b.high * up
    den := b.den * tenTo exponent.toNat }

/-- Does the whole number `n` lie in the basin? -/
def holds (b : Basin) (n : Nat) : Bool :=
  if b.closed then b.low ≤ n * b.den && n * b.den ≤ b.high
  else b.low < n * b.den && n * b.den < b.high

/-- Of the two whole numbers around the value, one that lies in the basin; of
two that do, the nearer. -/
def whole? (tie : Tie) (b : Basin) : Option Nat :=
  let below := b.value / b.den
  match b.holds below, b.holds (below + 1) with
  | true, true => some (roundDiv tie b.value b.den)
  | true, false => some below
  | false, true => some (below + 1)
  | false, false => none

end Basin

/-- The coefficient and the exponent of the shortest decimal that reads back as
`d`; a value between two equally near ones goes as `tie` says. Seventeen
digits always suffice. -/
def shortest (tie : Tie) (d : Dyadic) : Nat × Int :=
  let basin := d.basin
  let top := decimalTop basin.value basin.den
  let onGrid (count : Nat) : Option (Nat × Int) :=
    ((basin.scale (top - count)).whole? tie).map (·, top - count)
  ((List.range' 1 17).findSome? onGrid).getD (d.num, 0)

end Dyadic

/-- The shortest decimal that reads back as a finite double. -/
def Decimal.ofFloat? (tie : Tie) (x : Float) : Option Decimal :=
  match Binary64.ofFloat x with
  | .finite negative magnitude =>
    if magnitude.mantissa = 0 then some ⟨negative, 0, 0⟩
    else
      let (coefficient, exponent) := magnitude.shortest tie
      some (Decimal.normal ⟨negative, coefficient, exponent⟩)
  | _ => none

end LaserPath
