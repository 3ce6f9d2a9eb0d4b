import LaserPath.Decimal.Reader
import LaserPath.Decimal.Scaling
import LaserPath.Json.Basic
import LaserPath.Text.Hexadecimal

/-!
# Reading JSON

A machine reads a text character by character. It keeps the containers that
are open and what it expects next, so the first character that cannot be
right decides what is wrong with a text, and a text that merely ends too early
is told apart.

## Main definitions

* `Json.Rules` — what is checked beyond the grammar.
* `Json.Frame`, `Json.Mode`, `Json.State` — the machine.
* `Json.step`, `Json.finish` — one character, and the end of the text.
* `Json.read` — the value of a text.
-/

namespace LaserPath.Json

/-- Why a text is not JSON. -/
inductive SyntaxError where
  /-- The text ends too early. -/
  | endOfText
  | malformed
  deriving DecidableEq, Repr

/-- What is checked while a text is read. -/
structure Rules where
  /-- The number of containers in each other at which the text is refused. -/
  depthLimit? : Option Nat
  /-- Are numbers out of the range of doubles and halves of surrogate pairs refused? -/
  checksLeaves : Bool
  /-- Does a member replace an earlier one with the same key? -/
  lastMemberWins : Bool
  deriving DecidableEq, Repr

/-- A text that becomes a value: everything in it is checked, and a key has one value. -/
def Rules.document : Rules := ⟨some 128, true, true⟩

/-- A text that becomes a record: the record sees every member, and what it does
not use may be a number out of range or broken. -/
def Rules.record : Rules := ⟨none, false, false⟩

/-! ## Numbers -/

/-- The place within a number. -/
inductive NumberPhase where
  | sign
  | zero
  | whole
  | point
  | places
  | mark
  | exponentSign
  | exponent
  deriving DecidableEq, Repr

namespace NumberPhase

/-- May the number end here? -/
def isComplete : NumberPhase → Bool
  | .zero | .whole | .places | .exponent => true
  | _ => false

/-- The place behind a character, if the number goes on with it. -/
def next? (phase : NumberPhase) (c : Char) : Option NumberPhase :=
  match phase with
  | .sign => if c = '0' then some .zero else if c.isDigit then some .whole else none
  | .zero => fraction? c
  | .whole => if c.isDigit then some .whole else fraction? c
  | .point => if c.isDigit then some .places else none
  | .places => if c.isDigit then some .places else mark? c
  | .mark =>
    if c = '+' ∨ c = '-' then some .exponentSign
    else if c.isDigit then some .exponent else none
  | .exponentSign | .exponent => if c.isDigit then some .exponent else none
where
  /-- The mark of an exponent. -/
  mark? (c : Char) : Option NumberPhase := if c = 'e' ∨ c = 'E' then some .mark else none
  /-- A point, or the mark of an exponent. -/
  fraction? (c : Char) : Option NumberPhase := if c = '.' then some .point else mark? c

end NumberPhase

/-- A number as far as it has been read. -/
structure NumberText where
  phase : NumberPhase
  negative : Bool
  /-- The digits before the point, the last one first. -/
  whole : List Char
  /-- The digits behind the point, the last one first. -/
  places : List Char
  exponentNegative : Bool
  exponent : Nat
  /-- Is it a whole number, without a point and an exponent? -/
  isWhole : Bool
  deriving DecidableEq, Repr

namespace NumberText

/-- The number that begins with a character, if one does. -/
def start? (c : Char) : Option NumberText :=
  if c = '-' then some ⟨.sign, true, [], [], false, 0, true⟩
  else if c = '0' then some ⟨.zero, false, ['0'], [], false, 0, true⟩
  else if c.isDigit then some ⟨.whole, false, [c], [], false, 0, true⟩
  else none

/-- The number with one more character, which leads to `phase`. -/
def push (n : NumberText) (phase : NumberPhase) (c : Char) : NumberText :=
  match phase with
  | .sign => { n with phase }
  | .zero | .whole => { n with phase, whole := c :: n.whole }
  | .point | .mark => { n with phase, isWhole := false }
  | .places => { n with phase, places := c :: n.places }
  | .exponentSign => { n with phase, exponentNegative := c = '-' }
  | .exponent => { n with phase, exponent := 10 * n.exponent + valueOfDigits [c] }

/-- The whole number that has been read, if it has at most 64 bits. A negative
zero is not a whole number. -/
def whole? (n : NumberText) : Option Int :=
  let magnitude := valueOfDigits n.whole.reverse
  let value : Int := if n.negative then -magnitude else magnitude
  if n.isWhole && fitsWord value && !(n.negative && magnitude == 0) then some value else none

/-- The double that has been read, unless it is out of range. -/
def float? (n : NumberText) : Option Float :=
  let exponent : Int := if n.exponentNegative then -n.exponent else n.exponent
  let significand :=
    ((Significand.start exponent).takeWhole n.whole.reverse).takePlaces n.places.reverse
  significand.toFloat?.map fun magnitude => if n.negative then -magnitude else magnitude

/-- The value of a number that is complete. -/
def value (rules : Rules) (n : NumberText) : Except SyntaxError Json :=
  match n.whole? with
  | some whole => .ok (.integer whole)
  | none =>
    match n.float? with
    | some x => .ok (.real x)
    | none => if rules.checksLeaves then .error .malformed else .ok .broken

end NumberText

/-! ## Strings -/

/-- The place within a string. -/
inductive StringPhase where
  | plain
  /-- Behind a backslash. -/
  | escape
  /-- Behind `\u`: what has been read of four bytes that should be digits, and
  the upper half of a surrogate pair if it came before. -/
  | unit (taken : List Char) (upper? : Option Nat)
  /-- Behind the upper half of a surrogate pair. -/
  | lowerBackslash (upper : Nat)
  /-- Behind the upper half of a surrogate pair and a backslash. -/
  | lowerLetter (upper : Nat)
  deriving DecidableEq, Repr

/-- A string as far as it has been read, the last character first. -/
structure StringText where
  phase : StringPhase
  taken : List Char
  /-- Has half of a surrogate pair been passed over? -/
  isBroken : Bool
  deriving DecidableEq, Repr

namespace StringText

/-- A string of which nothing has been read. -/
def empty : StringText := ⟨.plain, [], false⟩

/-- The number that four hexadecimal digits stand for. -/
def hexUnit? (digits : List Char) : Option Nat :=
  if digits.length = 4 then hexValue? digits else none

/-- The character that an escape of one letter stands for. -/
def escaped? : Char → Option Char
  | '"' => some '"'
  | '\\' => some '\\'
  | '/' => some '/'
  | 'b' => some '\x08'
  | 'f' => some '\x0c'
  | 'n' => some '\n'
  | 'r' => some '\r'
  | 't' => some '\t'
  | _ => none

/-- The string with one more character. -/
def push (s : StringText) (c : Char) : StringText :=
  { s with phase := .plain, taken := c :: s.taken }

/-- The string behind half of a surrogate pair, which is no character. -/
def passHalf (rules : Rules) (s : StringText) : Except SyntaxError StringText :=
  if rules.checksLeaves then .error .malformed
  else .ok { s with phase := .plain, isBroken := true }

/-- The string with a unit of sixteen bits that is not behind an upper half. -/
def pushUnit (rules : Rules) (s : StringText) (unit : Nat) : Except SyntaxError StringText :=
  if 0xd800 ≤ unit ∧ unit < 0xdc00 then .ok { s with phase := .lowerBackslash unit }
  else if 0xdc00 ≤ unit ∧ unit < 0xe000 then s.passHalf rules
  else .ok (s.push (Char.ofNat unit))

/-- The string with a unit of sixteen bits behind the upper half of a pair. -/
def pushPair (rules : Rules) (s : StringText) (upper unit : Nat) :
    Except SyntaxError StringText :=
  if 0xdc00 ≤ unit ∧ unit < 0xe000 then
    .ok (s.push (Char.ofNat (0x10000 + (upper - 0xd800) * 0x400 + (unit - 0xdc00))))
  else do (← s.passHalf rules).pushUnit rules unit

/-- The number of bytes of a text. -/
def byteCount (text : List Char) : Nat := text.foldl (fun n c => n + c.utf8Size) 0

/-- The string behind one more character. A quotation mark that ends the string
is not given to this function. -/
def step (rules : Rules) (s : StringText) (c : Char) : Except SyntaxError StringText :=
  match s.phase with
  | .plain => plain s c
  | .escape => escape s c
  | .unit taken upper? =>
    let taken := taken ++ [c]
    if byteCount taken < 4 then .ok { s with phase := .unit taken upper? }
    else match hexUnit? taken, upper? with
      | none, _ => .error .malformed
      | some unit, none => s.pushUnit rules unit
      | some unit, some upper => s.pushPair rules upper unit
  | .lowerBackslash upper =>
    if c = '\\' then .ok { s with phase := .lowerLetter upper }
    else do plain (← s.passHalf rules) c
  | .lowerLetter upper =>
    if c = 'u' then .ok { s with phase := .unit [] (some upper) }
    else do escape (← s.passHalf rules) c
where
  /-- The string behind a character that no escape claims. -/
  plain (s : StringText) (c : Char) : Except SyntaxError StringText :=
    if c = '\\' then .ok { s with phase := .escape }
    else if c.toNat < 0x20 then .error .malformed
    else .ok (s.push c)
  /-- The string behind a backslash and one more character. -/
  escape (s : StringText) (c : Char) : Except SyntaxError StringText :=
    if c = 'u' then .ok { s with phase := .unit [] none }
    else match escaped? c with
      | some d => .ok (s.push d)
      | none => .error .malformed

/-- Does a quotation mark end the string here? -/
def endsAt (rules : Rules) (s : StringText) (c : Char) : Bool :=
  c == '"' && match s.phase with
    | .plain => true
    | .lowerBackslash _ => !rules.checksLeaves
    | _ => false

/-- The text of a string that has ended, unless it holds half of a surrogate pair. -/
def text? (s : StringText) : Option String :=
  if s.isBroken || s.phase != .plain then none else some (String.ofList s.taken.reverse)

end StringText

/-! ## The machine -/

/-- The members of an object that is open, the last one first. A key that holds
half of a surrogate pair is none. -/
abbrev Members := List (Option String × Json)

/-- A container that is open, the last item first. -/
inductive Frame where
  | array (items : List Json)
  /-- An object that waits for the value of a key. -/
  | object (members : Members) (key? : Option String)

/-- What a string is for. -/
inductive StringRole where
  | value
  /-- The key of the next member. -/
  | key (members : Members)

/-- What is being read or comes next. -/
inductive Mode where
  | value
  /-- The first item of an array, or its end. -/
  | firstItem
  /-- The first key of an object, or its end. -/
  | firstKey
  /-- A key behind the given members. -/
  | key (members : Members)
  /-- The colon behind a key. -/
  | colon (members : Members) (key? : Option String)
  /-- What is left of a literal. -/
  | literal (rest : List Char) (value : Json)
  | number (n : NumberText)
  | string (role : StringRole) (s : StringText)
  /-- Behind a value. -/
  | done (value : Json)

/-- The containers that are open, the innermost first, and what comes next. -/
structure State where
  stack : List Frame
  mode : Mode

/-- The members with one more. -/
def Members.add (rules : Rules) (members : Members) (key? : Option String) (value : Json) :
    Members :=
  (key?, value) :: if rules.lastMemberWins then members.filter (·.1 != key?) else members

/-- A member with its key, if the key is whole. -/
def wholeMember? (m : Option String × Json) : Option (String × Json) := m.1.map (·, m.2)

/-- The object of the members. -/
def Members.close (members : Members) : Json :=
  (members.reverse.mapM wholeMember?).elim broken object

/-- The characters between tokens. -/
def isSpace (c : Char) : Bool := c == ' ' || c == '\n' || c == '\t' || c == '\r'

namespace State

/-- May one more container be opened? -/
def mayNest (rules : Rules) (stack : List Frame) : Bool :=
  match rules.depthLimit? with
  | some limit => stack.length + 1 < limit
  | none => true

/-- The state behind the first character of a value. -/
def startValue (rules : Rules) (stack : List Frame) (c : Char) : Except SyntaxError State :=
  match c with
  | '"' => .ok ⟨stack, .string .value .empty⟩
  | '[' =>
    if mayNest rules stack then .ok ⟨.array [] :: stack, .firstItem⟩ else .error .malformed
  | '{' => if mayNest rules stack then .ok ⟨stack, .firstKey⟩ else .error .malformed
  | 't' => .ok ⟨stack, .literal ['r', 'u', 'e'] (.bool true)⟩
  | 'f' => .ok ⟨stack, .literal ['a', 'l', 's', 'e'] (.bool false)⟩
  | 'n' => .ok ⟨stack, .literal ['u', 'l', 'l'] .null⟩
  | _ =>
    match NumberText.start? c with
    | some n => .ok ⟨stack, .number n⟩
    | none => .error .malformed

/-- The state behind one more character when a value is complete. -/
def afterValue (rules : Rules) (stack : List Frame) (value : Json) (c : Char) :
    Except SyntaxError State :=
  if isSpace c then .ok ⟨stack, .done value⟩
  else match stack, c with
    | .array items :: outer, ',' => .ok ⟨.array (value :: items) :: outer, .value⟩
    | .array items :: outer, ']' => .ok ⟨outer, .done (.array (value :: items).reverse)⟩
    | .object members key :: outer, ',' =>
      .ok ⟨outer, .key (members.add rules key value)⟩
    | .object members key :: outer, '}' => .ok ⟨outer, .done (members.add rules key value).close⟩
    | _, _ => .error .malformed

end State

open State in
/-- The state behind one more character. -/
def step (rules : Rules) (state : State) (c : Char) : Except SyntaxError State :=
  let stack := state.stack
  match state.mode with
  | .value => if isSpace c then .ok state else startValue rules stack c
  | .firstItem =>
    if isSpace c then .ok state
    else match stack, c with
      | .array _ :: outer, ']' => .ok ⟨outer, .done (.array [])⟩
      | _, _ => startValue rules stack c
  | .firstKey =>
    if isSpace c then .ok state
    else if c = '"' then .ok ⟨stack, .string (.key []) .empty⟩
    else if c = '}' then .ok ⟨stack, .done (.object [])⟩
    else .error .malformed
  | .key members =>
    if isSpace c then .ok state
    else if c = '"' then .ok ⟨stack, .string (.key members) .empty⟩
    else .error .malformed
  | .colon members key =>
    if isSpace c then .ok state
    else if c = ':' then .ok ⟨.object members key :: stack, .value⟩
    else .error .malformed
  | .literal rest value =>
    match rest with
    | [] => afterValue rules stack value c
    | [last] => if c = last then .ok ⟨stack, .done value⟩ else .error .malformed
    | next :: rest => if c = next then .ok ⟨stack, .literal rest value⟩ else .error .malformed
  | .number n =>
    match n.phase.next? c with
    | some phase => .ok ⟨stack, .number (n.push phase c)⟩
    | none =>
      if n.phase.isComplete && !(n.phase == .zero && c.isDigit) then do
        afterValue rules stack (← n.value rules) c
      else .error .malformed
  | .string role s =>
    if s.endsAt rules c then
      match role with
      | .value => .ok ⟨stack, .done (s.text?.elim broken .string)⟩
      | .key members => .ok ⟨stack, .colon members s.text?⟩
    else do
      return ⟨stack, .string role (← s.step rules c)⟩
  | .done value => afterValue rules stack value c

/-- The value of a text that ends here. -/
def finish (rules : Rules) (state : State) : Except SyntaxError Json := do
  let value? ← match state.mode with
    | .done value => .ok (some value)
    | .number n => if n.phase.isComplete then (n.value rules).map some else .ok none
    | _ => .ok none
  match state.stack, value? with
  | [], some value => .ok value
  | _, _ => .error .endOfText

/-- The value of a text. -/
def read (rules : Rules) (text : String) : Except SyntaxError Json := do
  finish rules (← text.toList.foldlM (step rules) ⟨[], .value⟩)

end LaserPath.Json
