import LaserPath.Decimal.Basic

/-!
# Numbers in words

A word is read as a number when it is an optional sign and either digits with
at most one point among or around them and at most one exponent, or the name
of infinity or of the undefined number in any case. All digits are ASCII.

## Main definitions

* `Decimal.readUnsigned?` — digits, point and exponent.
* `readNumber?` — the double that a word stands for.
-/

namespace LaserPath

/-- The value of a list of digits. -/
def valueOfDigits (digits : List Char) : Nat :=
  digits.foldl (fun n c => 10 * n + (c.toNat - '0'.toNat)) 0

/-- Splits an optional sign off: is it negative, and what follows. -/
def splitSign : List Char → Bool × List Char
  | '-' :: rest => (true, rest)
  | '+' :: rest => (false, rest)
  | text => (false, text)

namespace Decimal

/-- An exponent with an optional sign: one digit or more. -/
def readExponent? (text : List Char) : Option Int :=
  let (negative, digits) := splitSign text
  if digits.isEmpty || !digits.all Char.isDigit then none
  else
    let n : Int := valueOfDigits digits
    some (if negative then -n else n)

/-- The decimal with the given digits before and after its point. -/
def ofPlaces (negative : Bool) (whole places : List Char) (exponent : Int) : Decimal :=
  ⟨negative, valueOfDigits (whole ++ places), exponent - places.length⟩

/-- Digits, of which a point may stand anywhere, and an exponent behind `e` or `E`. -/
def readUnsigned? (negative : Bool) (text : List Char) : Option Decimal :=
  let whole := text.takeWhile Char.isDigit
  let (places, rest) := match text.dropWhile Char.isDigit with
    | '.' :: behind => (behind.takeWhile Char.isDigit, behind.dropWhile Char.isDigit)
    | behind => ([], behind)
  if whole.isEmpty && places.isEmpty then none
  else match rest with
    | [] => some (ofPlaces negative whole places 0)
    | mark :: power =>
      if mark = 'e' ∨ mark = 'E' then
        (readExponent? power).map (ofPlaces negative whole places)
      else none

end Decimal

/-- The double that a word stands for. -/
def readNumber? (word : List Char) : Option Float :=
  let (negative, text) := splitSign word
  let lower := text.map Char.toLower
  if lower = "inf".toList ∨ lower = "infinity".toList then
    some (Binary64.signed negative Binary64.infinityWord)
  else if lower = "nan".toList then some (Float.ofBits 0x7ff8000000000000)
  else (Decimal.readUnsigned? negative text).map Decimal.toFloat

end LaserPath
