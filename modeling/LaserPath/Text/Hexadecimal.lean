/-!
# Hexadecimal digits

Escapes in texts give the code of a character by hexadecimal digits of either
case.

## Main definitions

* `hexDigit?` — the value of one digit.
* `numberOfDigits` — the number with given digits to any base.
* `hexValue?` — the number that hexadecimal digits stand for.
-/

namespace LaserPath

/-- The value of a hexadecimal digit. -/
def hexDigit? (c : Char) : Option Nat :=
  if c.isDigit then some (c.toNat - '0'.toNat)
  else if 'a' ≤ c ∧ c ≤ 'f' then some (c.toNat - 'a'.toNat + 10)
  else if 'A' ≤ c ∧ c ≤ 'F' then some (c.toNat - 'A'.toNat + 10)
  else none

/-- The number with the given digits to a base, the most significant first. -/
def numberOfDigits (base : Nat) (digits : List Nat) : Nat := digits.foldl (base * · + ·) 0

/-- The number that hexadecimal digits stand for. -/
def hexValue? (digits : List Char) : Option Nat :=
  (digits.mapM hexDigit?).map (numberOfDigits 16)

example : hexValue? ['2', '0', 'a', 'C'] = some 0x20ac := by decide

end LaserPath
