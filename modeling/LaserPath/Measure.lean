import LaserPath.Decimal.Spelling

/-!
# Measures in program text

How lengths and rates are written. Coordinates have three places, and one that
rounds to zero has no sign; rates have as few digits as will do; distances and
percentages in comments have three places and one.

## Main definitions

* `Measure.coordinate`, `Measure.rate`, `Measure.length`, `Measure.percent`.
-/

namespace LaserPath.Measure

/-- Thousandths of a millimetre, halves away from zero, as millimetres. -/
def toThousandth (x : Float) : Float := Binary64.roundAway (x * 1000) / 1000

/-- A coordinate, with three places. -/
def coordinate (x : Float) : String :=
  let rounded := toThousandth x
  if rounded == 0 then "0.000" else spellFixed 3 rounded

/-- A feed rate or a laser power, in the fewest digits. -/
def rate (x : Float) : String :=
  if x == 0 then "0" else spellShortest .plain x

/-- A travel distance, with three places. -/
def length (x : Float) : String := spellFixed 3 x

/-- A percentage, with one place. -/
def percent (x : Float) : String := spellFixed 1 x

/-- The unit of lengths. -/
def unit : String := "mm"

/-- The unit of feed rates. -/
def rateUnit : String := "mm/min"

end LaserPath.Measure
