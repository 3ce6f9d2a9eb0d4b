import LaserPath.Decimal.Spelling
import LaserPath.Json.Basic

/-!
# Writing JSON

A value is written on one line or with one item or member on each line. Numbers
that are not whole are written as `Spelling.scientific` says, and in strings
only quotation marks, backslashes and control characters are escaped. What
has no text of its own is written as null.

## Main definitions

* `Json.compact` — a value on one line.
* `Json.pretty` — a value on many lines.
-/

namespace LaserPath.Json

/-- A hexadecimal digit. -/
def hexDigit (n : Nat) : Char := Nat.digitChar n

/-- A character within a string. -/
def escape (c : Char) : List Char :=
  match c with
  | '"' => ['\\', '"']
  | '\\' => ['\\', '\\']
  | '\x08' => ['\\', 'b']
  | '\x0c' => ['\\', 'f']
  | '\n' => ['\\', 'n']
  | '\r' => ['\\', 'r']
  | '\t' => ['\\', 't']
  | c =>
    if c.toNat < 0x20 then
      ['\\', 'u', '0', '0', hexDigit (c.toNat / 16), hexDigit (c.toNat % 16)]
    else [c]

/-- A string with its quotation marks. -/
def quoted (s : String) : List Char := '"' :: (s.toList.flatMap escape ++ ['"'])

/-- A whole number. -/
def wholeText (n : Int) : List Char :=
  if n < 0 then '-' :: digitsOf n.natAbs else digitsOf n.natAbs

/-- A number that is not whole, in the fewest digits that stand for it. Of two
equally near ones the even one is written. -/
def realText (x : Float) : List Char :=
  ((Decimal.ofFloat? .toEven x).map (Decimal.spell .scientific)).getD "null".toList

mutual

/-- A value on one line, without blanks. -/
def compactChars : Json → List Char
  | .null | .broken => "null".toList
  | .bool true => "true".toList
  | .bool false => "false".toList
  | .integer n => wholeText n
  | .real x => realText x
  | .string s => quoted s
  | .array [] => ['[', ']']
  | .array (item :: items) => '[' :: (compactChars item ++ compactItems items)
  | .object [] => ['{', '}']
  | .object ((key, value) :: members) =>
    '{' :: (quoted key ++ ':' :: (compactChars value ++ compactMembers members))

/-- The items behind the first one and the end of an array. -/
def compactItems : List Json → List Char
  | [] => [']']
  | item :: items => ',' :: (compactChars item ++ compactItems items)

/-- The members behind the first one and the end of an object. -/
def compactMembers : List (String × Json) → List Char
  | [] => ['}']
  | (key, value) :: members =>
    ',' :: (quoted key ++ ':' :: (compactChars value ++ compactMembers members))

end

/-- The beginning of a line inside `depth` containers. -/
def lineStart (depth : Nat) : List Char := '\n' :: List.replicate (2 * depth) ' '

mutual

/-- A value on many lines, inside `depth` containers. -/
def prettyChars (depth : Nat) : Json → List Char
  | .null | .broken => "null".toList
  | .bool true => "true".toList
  | .bool false => "false".toList
  | .integer n => wholeText n
  | .real x => realText x
  | .string s => quoted s
  | .array [] => ['[', ']']
  | .array (item :: items) =>
    '[' :: (lineStart (depth + 1) ++ prettyChars (depth + 1) item ++ prettyItems depth items)
  | .object [] => ['{', '}']
  | .object ((key, value) :: members) =>
    '{' :: (lineStart (depth + 1) ++ quoted key ++ ':' :: ' ' ::
      (prettyChars (depth + 1) value ++ prettyMembers depth members))

/-- The items behind the first one and the end of an array. -/
def prettyItems (depth : Nat) : List Json → List Char
  | [] => lineStart depth ++ [']']
  | item :: items =>
    ',' :: (lineStart (depth + 1) ++ prettyChars (depth + 1) item ++ prettyItems depth items)

/-- The members behind the first one and the end of an object. -/
def prettyMembers (depth : Nat) : List (String × Json) → List Char
  | [] => lineStart depth ++ ['}']
  | (key, value) :: members =>
    ',' :: (lineStart (depth + 1) ++ quoted key ++ ':' :: ' ' ::
      (prettyChars (depth + 1) value ++ prettyMembers depth members))

end

/-- The text of a value on one line. -/
def compact (json : Json) : String := String.ofList (compactChars json)

/-- The text of a value on many lines, each level two blanks further in. -/
def pretty (json : Json) : String := String.ofList (prettyChars 0 json)

end LaserPath.Json
