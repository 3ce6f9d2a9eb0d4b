import LaserPath.Text.Hexadecimal

/-!
# Strings and keys in TOML

Every reader here takes the text from where it stands and gives what it has
read and the text behind it, or nothing if the text is not as it should be.

## Main definitions

* `Toml.basicString?`, `Toml.longBasicString?`, `Toml.literalString?`,
  `Toml.longLiteralString?` — the four kinds of strings, without the opening
  marks.
* `Toml.simpleKey?`, `Toml.dottedKey?` — keys.
-/

namespace LaserPath.Toml

/-- Blanks within a line. -/
def isSpace (c : Char) : Bool := c == ' ' || c == '\t'

/-- The text behind blanks. -/
def skipSpace (text : List Char) : List Char := text.dropWhile isSpace

/-- May a character stand in a comment or a string? -/
def isText (c : Char) : Bool := c == '\t' || (0x20 ≤ c.toNat && c.toNat != 0x7f)

/-- The character with a code in hexadecimal digits. Surrogates are no characters. -/
def charOfHex? (digits : List Char) : Option Char := do
  let code ← hexValue? digits
  if code < 0xd800 ∨ (0xe000 ≤ code ∧ code < 0x110000) then some (Char.ofNat code) else none

/-- The character that an escape of one letter stands for. -/
def escaped? : Char → Option Char
  | 'b' => some '\x08'
  | 't' => some '\t'
  | 'n' => some '\n'
  | 'f' => some '\x0c'
  | 'r' => some '\r'
  | '"' => some '"'
  | '\\' => some '\\'
  | _ => none

/-- Puts a character in front of a string that has been read. -/
def prepend (c : Char) (read : Option (List Char × List Char)) :
    Option (List Char × List Char) :=
  read.map fun (s, rest) => (c :: s, rest)

/-- A string in quotation marks, from behind the first mark. -/
def basicString? : List Char → Option (List Char × List Char)
  | [] => none
  | '"' :: rest => some ([], rest)
  | '\\' :: 'u' :: a :: b :: c :: d :: rest => do
    prepend (← charOfHex? [a, b, c, d]) (basicString? rest)
  | '\\' :: 'U' :: a :: b :: c :: d :: e :: f :: g :: h :: rest => do
    prepend (← charOfHex? [a, b, c, d, e, f, g, h]) (basicString? rest)
  | '\\' :: c :: rest => do prepend (← escaped? c) (basicString? rest)
  | c :: rest => if isText c && c != '\\' then prepend c (basicString? rest) else none

/-- Where a long string stands: in its text, behind a backslash at the end of a
line, or in the blank lines that such a backslash takes away. -/
inductive LineEnding where
  | none
  | expected
  | passed
  deriving DecidableEq, Repr

/-- A string in three quotation marks, from behind the first three. Up to two
marks may stand in front of the last three. -/
def longBasicString? (ending : LineEnding) : List Char → Option (List Char × List Char)
  | [] => none
  | c :: rest =>
    match ending, c, rest with
    | .expected, '\n', rest => longBasicString? .passed rest
    | .expected, '\r', '\n' :: rest => longBasicString? .passed rest
    | .expected, c, rest => if isSpace c then longBasicString? .expected rest else none
    | .passed, '\n', rest | .passed, ' ', rest | .passed, '\t', rest =>
      longBasicString? .passed rest
    | .passed, '\r', '\n' :: rest => longBasicString? .passed rest
    | _, '"', '"' :: '"' :: '"' :: '"' :: rest => some (['"', '"'], rest)
    | _, '"', '"' :: '"' :: '"' :: rest => some (['"'], rest)
    | _, '"', '"' :: '"' :: rest => some ([], rest)
    | _, '\\', 'u' :: a :: b :: c :: d :: rest => do
      prepend (← charOfHex? [a, b, c, d]) (longBasicString? .none rest)
    | _, '\\', 'U' :: a :: b :: c :: d :: e :: f :: g :: h :: rest => do
      prepend (← charOfHex? [a, b, c, d, e, f, g, h]) (longBasicString? .none rest)
    | _, '\\', '\n' :: rest => longBasicString? .passed rest
    | _, '\\', '\r' :: '\n' :: rest => longBasicString? .passed rest
    | _, '\\', c :: rest =>
      if isSpace c then longBasicString? .expected rest
      else do prepend (← escaped? c) (longBasicString? .none rest)
    | _, '\r', '\n' :: rest => prepend '\n' (longBasicString? .none rest)
    | _, c, rest =>
      if (isText c || c == '\n') && c != '\\' then prepend c (longBasicString? .none rest)
      else none

/-- A string in apostrophes, from behind the first one. -/
def literalString? : List Char → Option (List Char × List Char)
  | [] => none
  | '\'' :: rest => some ([], rest)
  | c :: rest => if isText c then prepend c (literalString? rest) else none

/-- A string in three apostrophes, from behind the first three. Up to two may
stand in front of the last three. -/
def longLiteralString? : List Char → Option (List Char × List Char)
  | [] => none
  | '\'' :: '\'' :: '\'' :: '\'' :: '\'' :: rest => some (['\'', '\''], rest)
  | '\'' :: '\'' :: '\'' :: '\'' :: rest => some (['\''], rest)
  | '\'' :: '\'' :: '\'' :: rest => some ([], rest)
  | '\r' :: '\n' :: rest => prepend '\n' (longLiteralString? rest)
  | c :: rest => if isText c || c == '\n' then prepend c (longLiteralString? rest) else none

/-- The text behind a line end that directly follows the opening marks of a
long string. -/
def skipFirstLineEnd : List Char → List Char
  | '\n' :: rest => rest
  | '\r' :: '\n' :: rest => rest
  | text => text

/-- May a character stand in a key without marks? -/
def isBareKey (c : Char) : Bool := c.isAlphanum || c == '_' || c == '-'

/-- One part of a key. -/
def simpleKey? (text : List Char) : Option (String × List Char) :=
  match text with
  | '"' :: rest => (basicString? rest).map fun (s, rest) => (String.ofList s, rest)
  | '\'' :: rest => (literalString? rest).map fun (s, rest) => (String.ofList s, rest)
  | text =>
    let key := text.takeWhile isBareKey
    if key.isEmpty then none else some (String.ofList key, text.dropWhile isBareKey)

/-- The parts of a key that has `fuel` parts at most, blanks around them
included: all but the last one, and the last one. -/
def dottedKey? (fuel : Nat) (text : List Char) : Option ((List String × String) × List Char) :=
  match fuel with
  | 0 => none
  | fuel + 1 => do
    let (key, rest) ← simpleKey? (skipSpace text)
    match skipSpace rest with
    | '.' :: rest =>
      let ((path, last), rest) ← dottedKey? fuel rest
      some ((key :: path, last), rest)
    | rest => some (([], key), rest)

end LaserPath.Toml
