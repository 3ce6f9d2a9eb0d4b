import LaserPath.Calendar
import LaserPath.Decimal.Reader
import LaserPath.Toml.Basic
import LaserPath.Toml.Text

/-!
# Numbers, truth values and dates in TOML

A value that is neither a string nor a container is a word, except that a date
and a time may be two words.

## Main definitions

* `Toml.integer?`, `Toml.float?`, `Toml.isDate`, `Toml.isDateTime` — words.
* `Toml.scalar?` — a value from where the text stands.
-/

namespace LaserPath.Toml

/-- Digits without the underscores between them. -/
def ungroup? (isDigit : Char → Bool) : List Char → Option (List Char)
  | [] => none
  | [d] => if isDigit d then some [d] else none
  | d :: '_' :: rest => if isDigit d then (ungroup? isDigit rest).map (d :: ·) else none
  | d :: rest => if isDigit d then (ungroup? isDigit rest).map (d :: ·) else none

/-- Decimal digits without the underscores between them, and with no zero in
front of other digits. -/
def wholeDigits? (text : List Char) : Option (List Char) :=
  if text.head? = some '0' ∧ text ≠ ['0'] then none else ungroup? Char.isDigit text

/-- A whole number of at most 64 bits with its sign. -/
def inRange? (n : Int) : Option Int := if -(twoTo 63 : Int) ≤ n ∧ n < twoTo 63 then some n else none

/-- A whole number to a base, from behind its mark. -/
def based? (base : Nat) (text : List Char) : Option Int := do
  let isDigit (c : Char) : Bool := (hexDigit? c).any (· < base)
  let values ← (← ungroup? isDigit text).mapM hexDigit?
  inRange? (numberOfDigits base values)

/-- A whole number. -/
def integer? (word : List Char) : Option Int :=
  match word with
  | '0' :: 'x' :: digits => based? 16 digits
  | '0' :: 'o' :: digits => based? 8 digits
  | '0' :: 'b' :: digits => based? 2 digits
  | word => do
    let (negative, text) := splitSign word
    let n : Int := valueOfDigits (← wholeDigits? text)
    inRange? (if negative then -n else n)

/-- The exponent behind the mark `e`. -/
def exponent? (text : List Char) : Option Int := do
  let (negative, digits) := splitSign text
  let n : Int := valueOfDigits (← ungroup? Char.isDigit digits)
  return if negative then -n else n

/-- Is it the mark of an exponent? -/
def isMark (c : Char) : Bool := c == 'e' || c == 'E'

/-- A number with a point or an exponent. -/
def decimal? (word : List Char) : Option Decimal := do
  let (negative, text) := splitSign word
  let body := text.takeWhile (!isMark ·)
  let power ← match text.dropWhile (!isMark ·) with
    | [] => some none
    | _ :: power => (exponent? power).map some
  let whole ← wholeDigits? (body.takeWhile (· != '.'))
  let places ← match body.dropWhile (· != '.') with
    | [] => some none
    | _ :: places => (ungroup? Char.isDigit places).map some
  if power.isNone && places.isNone then none
  else some (Decimal.ofPlaces negative whole (places.getD []) (power.getD 0))

/-- A number with a point or an exponent, or one of the numbers with a name.
One that is too great is refused. -/
def float? (word : List Char) : Option Float :=
  let (negative, text) := splitSign word
  if text = ['i', 'n', 'f'] then some (Binary64.signed negative Binary64.infinityWord)
  else if text = ['n', 'a', 'n'] then some (Float.ofBits 0x7ff8000000000000)
  else do
    let x := (← decimal? word).toFloat
    if x == Binary64.signed false Binary64.infinityWord then none else some x

/-! ## Dates and times -/

/-- A number of two digits in a range. -/
def twoDigits? (least greatest : Nat) : List Char → Option (Nat × List Char)
  | a :: b :: rest =>
    let n := valueOfDigits [a, b]
    if a.isDigit && b.isDigit && least ≤ n && n ≤ greatest then some (n, rest) else none
  | _ => none

/-- The text behind a character. -/
def behind? (c : Char) : List Char → Option (List Char)
  | d :: rest => if c = d then some rest else none
  | [] => none

/-- The text behind a date. -/
def behindDate? (text : List Char) : Option (List Char) := do
  let (century, rest) ← twoDigits? 0 99 text
  let (year, rest) ← twoDigits? 0 99 rest
  let (month, rest) ← twoDigits? 1 12 (← behind? '-' rest)
  let (_, rest) ← twoDigits? 1 ((monthLengths (100 * century + year)).getD (month - 1) 0)
    (← behind? '-' rest)
  return rest

/-- The text behind a time. -/
def behindTime? (text : List Char) : Option (List Char) := do
  let (_, rest) ← twoDigits? 0 23 text
  let (_, rest) ← twoDigits? 0 59 (← behind? ':' rest)
  let (_, rest) ← twoDigits? 0 60 (← behind? ':' rest)
  match rest with
  | '.' :: places =>
    if (places.takeWhile Char.isDigit).isEmpty then none
    else return places.dropWhile Char.isDigit
  | rest => return rest

/-- Is the text a time with at most an offset behind it? -/
def isOffsetTime (text : List Char) : Bool :=
  match behindTime? text with
  | none => false
  | some [] | some ['Z'] | some ['z'] => true
  | some (sign :: offset) =>
    (sign == '+' || sign == '-') && (do
      let (_, rest) ← twoDigits? 0 23 offset
      let (_, rest) ← twoDigits? 0 59 (← behind? ':' rest)
      return rest) == some []

/-- Is the word a date? -/
def isDate (word : List Char) : Bool := behindDate? word == some []

/-- Is the word a date, a time, or both with a `T` between? -/
def isDateTime (word : List Char) : Bool :=
  behindTime? word == some [] || match behindDate? word with
    | some [] => true
    | some (mark :: time) => (mark == 'T' || mark == 't') && isOffsetTime time
    | none => false

/-! ## Words -/

/-- May a character stand in a word? -/
def isWord (c : Char) : Bool :=
  isBareKey c || c == '+' || c == '.' || c == ':'

/-- The value of a word. -/
def wordValue? (word : List Char) : Option Toml :=
  if word = ['t', 'r', 'u', 'e'] then some (.bool true)
  else if word = ['f', 'a', 'l', 's', 'e'] then some (.bool false)
  else if isDateTime word then some .dateTime
  else match float? word with
    | some x => some (.float x)
    | none => (integer? word).map .integer

/-- A value that is a word, or a date and a time with a blank between. -/
def scalar? (text : List Char) : Option (Toml × List Char) :=
  let word := text.takeWhile isWord
  let rest := text.dropWhile isWord
  let time := (rest.drop 1).takeWhile isWord
  if isDate word && rest.head? == some ' ' && isOffsetTime time then
    some (.dateTime, (rest.drop 1).dropWhile isWord)
  else (wordValue? word).map (·, rest)

end LaserPath.Toml
