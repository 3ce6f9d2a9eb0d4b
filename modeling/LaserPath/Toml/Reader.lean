import LaserPath.Toml.Scalar

/-!
# Reading TOML

A document is a sequence of lines: headers, pairs, comments and blank lines.

## Main definitions

* `Toml.value?` — a value from where the text stands.
* `Toml.read?` — the table of a document.
-/

namespace LaserPath.Toml

/-- The number of containers in each other, and of parts of a key, at which a
document is refused. -/
def depthLimit : Nat := 80

/-- The text behind blanks, line ends and comments. -/
def skipLines (inComment : Bool) : List Char → Option (List Char)
  | [] => some []
  | '\n' :: rest => skipLines false rest
  | '\r' :: '\n' :: rest => skipLines false rest
  | c :: rest =>
    if inComment then if isText c then skipLines true rest else none
    else if isSpace c then skipLines false rest
    else if c = '#' then skipLines true rest
    else some (c :: rest)

mutual

/-- A value inside `depth` containers. The fuel bounds the steps; the length of
the text is enough. -/
def value? (fuel depth : Nat) (text : List Char) : Option (Toml × List Char) :=
  match fuel with
  | 0 => none
  | fuel + 1 =>
    match text with
    | '"' :: '"' :: '"' :: rest =>
      (longBasicString? .none (skipFirstLineEnd rest)).map fun (s, rest) =>
        (.string (String.ofList s), rest)
    | '"' :: rest => (basicString? rest).map fun (s, rest) => (.string (String.ofList s), rest)
    | '\'' :: '\'' :: '\'' :: rest =>
      (longLiteralString? (skipFirstLineEnd rest)).map fun (s, rest) =>
        (.string (String.ofList s), rest)
    | '\'' :: rest =>
      (literalString? rest).map fun (s, rest) => (.string (String.ofList s), rest)
    | '[' :: rest =>
      if depth + 1 < depthLimit then
        (items? fuel (depth + 1) rest).map fun (items, rest) => (.array items, rest)
      else none
    | '{' :: rest =>
      if depth + 1 < depthLimit then
        match skipSpace rest with
        | '}' :: rest => some (.table .inlineValue [], rest)
        | rest =>
          (pairs? fuel (depth + 1) [] rest).map fun (entries, rest) =>
            (.table .inlineValue entries, rest)
      else none
    | text => scalar? text

/-- The items of an array up to its end, each on any line. -/
def items? (fuel depth : Nat) (text : List Char) : Option (List Toml × List Char) :=
  match fuel with
  | 0 => none
  | fuel + 1 => do
    match ← skipLines false text with
    | ']' :: rest => some ([], rest)
    | rest =>
      let (item, rest) ← value? fuel depth rest
      match ← skipLines false rest with
      | ',' :: rest =>
        let (items, rest) ← items? fuel depth rest
        some (item :: items, rest)
      | ']' :: rest => some ([item], rest)
      | _ => none

/-- The pairs between braces up to the end, all on one line, added to `entries`. -/
def pairs? (fuel depth : Nat) (entries : Entries) (text : List Char) :
    Option (Entries × List Char) :=
  match fuel with
  | 0 => none
  | fuel + 1 => do
    let ((path, key), rest) ← dottedKey? (depthLimit - 1) text
    let (value, rest) ← value? fuel depth (skipSpace (← behind? '=' rest))
    let entries ← entries.addPair path key value .inlineValue
    match skipSpace rest with
    | ',' :: rest => pairs? fuel depth entries rest
    | '}' :: rest => some (entries, rest)
    | _ => none

end

/-- The text behind what may follow on a line: blanks, a comment and the line end. -/
def endLine? (text : List Char) : Option (List Char) :=
  let rest := match skipSpace text with
    | '#' :: comment => comment.dropWhile isText
    | rest => rest
  match rest with
  | [] => some []
  | '\n' :: rest => some rest
  | '\r' :: '\n' :: rest => some rest
  | _ => none

/-- A header, from behind its first bracket: all but the last part of its key,
the last part, and whether it adds to a list of tables. -/
def header? (text : List Char) : Option ((List String × String × Bool) × List Char) :=
  match text with
  | '[' :: text => do
    let ((path, key), rest) ← dottedKey? (depthLimit - 1) text
    some ((path, key, true), ← behind? ']' (← behind? ']' rest))
  | text => do
    let ((path, key), rest) ← dottedKey? (depthLimit - 1) text
    some ((path, key, false), ← behind? ']' rest)

/-- Adds a pair to the table that the last header has opened. -/
def Entries.addLine (entries : Entries) (table : List String) (path : List String)
    (key : String) (value : Toml) : Option Entries :=
  entries.descend .implied table (fun origin inner => inner.addPair path key value origin) .header

/-- The lines of a document, read into `entries`. Pairs belong to the table at
the path `table`. -/
def lines? (fuel : Nat) (table : List String) (entries : Entries) (text : List Char) :
    Option Entries :=
  match fuel with
  | 0 => none
  | fuel + 1 => do
    match ← skipLines false text with
    | [] => some entries
    | '[' :: rest =>
      let ((path, key, isItem), rest) ← header? rest
      let entries ← if isItem then entries.openItem path key else entries.openTable path key
      lines? fuel (path ++ [key]) entries (← endLine? rest)
    | rest =>
      let ((path, key), rest) ← dottedKey? (depthLimit - 1) rest
      let (value, rest) ← value? fuel 0 (skipSpace (← behind? '=' rest))
      let entries ← entries.addLine table path key value
      lines? fuel table entries (← endLine? rest)

/-- The text without a mark of the byte order in front. -/
def skipByteOrderMark : List Char → List Char
  | '\ufeff' :: rest => rest
  | text => text

/-- The table of a document. -/
def read? (text : String) : Option Entries :=
  let chars := skipByteOrderMark text.toList
  lines? (chars.length + 2) [] [] chars

end LaserPath.Toml
