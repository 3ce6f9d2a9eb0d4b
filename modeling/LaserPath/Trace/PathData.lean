import LaserPath.Decimal.Reader
import LaserPath.Text.Blank
import LaserPath.Trace.Cubic

/-!
# Path data

Path data is a text of commands, each a letter with numbers behind it. Upper
case letters take positions, lower case ones take offsets from the point that
the command before has reached.

## Main definitions

* `PathCommand` — a letter and its numbers; `PathCommand.ofData` reads a text.
* `PathState` — the point reached and the start of the subpath.
* `PathCommand.trace`, `tracePathData` — the motions.

## Main statements

* `PathCommand.split_append` — a text that goes on with a letter is cut there.
-/

namespace LaserPath

/-- A command of path data: its letter and its numbers. -/
structure PathCommand where
  letter : Char
  params : List Float
  deriving DecidableEq

namespace PathCommand

/-- The letters of commands. Not all of them can be traced. -/
def letters : List Char := "MmLlHhVvCcSsQqTtAaZz".toList

/-- Does a command begin here? -/
def isLetter (c : Char) : Bool := letters.contains c

/-- Does the command take offsets? -/
def isRelative (c : PathCommand) : Bool := c.letter.isLower

/-- The text before the first letter, and every letter with the text up to the next one. -/
def split : List Char → List Char × List (Char × List Char)
  | [] => ([], [])
  | c :: rest =>
    let (text, commands) := split rest
    if isLetter c then ([], (c, text) :: commands) else (c :: text, commands)

/-- The numbers of a text: its words between blanks and commas, as far as they
are numbers. -/
def readParams (text : List Char) : List Float :=
  ((wordsBy (fun c => isBlank c || c == ',') text).filterMap readNumber?).filter (!·.isNaN)

/-- The commands of path data. What stands before the first letter is passed over. -/
def ofData (data : String) : List PathCommand :=
  (split data.toList).2.map fun (letter, text) => ⟨letter, readParams text⟩

/-- A text that goes on with a letter, or not at all, is cut there. -/
theorem split_append (s t : List Char) (h : (split t).1 = []) :
    split (s ++ t) = ((split s).1, (split s).2 ++ (split t).2) := by
  induction s with
  | nil => exact Prod.ext h rfl
  | cons c rest ih =>
    simp only [List.cons_append, split, ih]
    split <;> simp

end PathCommand

/-- The point that path data has reached and the start of the subpath, both
relative to the anchor of the shape. -/
structure PathState where
  current : Point
  subpathStart : Point
  deriving DecidableEq

/-- Path data begins at the anchor. -/
def PathState.initial : PathState := ⟨.origin, .origin⟩

namespace PathCommand

/-- A pair of numbers as a position: from the point reached, or from the anchor. -/
def resolve (relative : Bool) (current : Point) (x y : Float) : Point :=
  if relative then current.offset x y else ⟨x, y⟩

/-- Straight cuts to the positions given by pairs of numbers, and the last
position. A number left over is passed over. -/
def traceLines (settings : LaserSettings) (anchor : Point) (relative : Bool) (current : Point) :
    List Float → Point × Toolpath
  | x :: y :: rest =>
    let next := resolve relative current x y
    let (last, cuts) := traceLines settings anchor relative next rest
    (last, settings.cutTo (anchor.shift next) :: cuts)
  | _ => (current, [])

/-- Cuts along the curves given by six numbers each, and the last position. All
positions of a curve are resolved from its start. -/
def traceCurves (settings : LaserSettings) (anchor : Point) (relative : Bool) (current : Point) :
    List Float → Point × Toolpath
  | x₁ :: y₁ :: x₂ :: y₂ :: x :: y :: rest =>
    let next := resolve relative current x y
    let curve : Cubic :=
      { start := anchor.shift current
        control₁ := anchor.shift (resolve relative current x₁ y₁)
        control₂ := anchor.shift (resolve relative current x₂ y₂)
        finish := anchor.shift next }
    let (last, cuts) := traceCurves settings anchor relative next rest
    (last, settings.traceCubic curve ++ cuts)
  | _ => (current, [])

/-- The motions of a command and the state behind it. A command that is short
of numbers or cannot be traced does nothing. -/
def trace (settings : LaserSettings) (anchor : Point) (state : PathState) (c : PathCommand) :
    PathState × Toolpath :=
  let current := state.current
  match c.letter.toUpper, c.params with
  | 'M', x :: y :: _ =>
    let next := resolve c.isRelative current x y
    (⟨next, next⟩, [settings.rapidTo (anchor.shift next)])
  | 'L', params =>
    let (last, cuts) := traceLines settings anchor c.isRelative current params
    ({ state with current := last }, cuts)
  | 'H', x :: _ =>
    let next : Point := { current with x := if c.isRelative then current.x + x else x }
    ({ state with current := next }, [settings.cutTo (anchor.shift next)])
  | 'V', y :: _ =>
    let next : Point := { current with y := if c.isRelative then current.y + y else y }
    ({ state with current := next }, [settings.cutTo (anchor.shift next)])
  | 'C', params =>
    let (last, cuts) := traceCurves settings anchor c.isRelative current params
    ({ state with current := last }, cuts)
  | 'Z', _ =>
    ({ state with current := state.subpathStart },
      [settings.cutTo (anchor.shift state.subpathStart)])
  | _, _ => (state, [])

/-- The motions of a list of commands from a state on. -/
def traceAll (settings : LaserSettings) (anchor : Point) (state : PathState) :
    List PathCommand → Toolpath
  | [] => []
  | c :: rest =>
    let (next, motions) := trace settings anchor state c
    motions ++ traceAll settings anchor next rest

end PathCommand

/-- The motions of path data on a shape with the given anchor. -/
def tracePathData (settings : LaserSettings) (anchor : Point) (data : String) : Toolpath :=
  PathCommand.traceAll settings anchor .initial (PathCommand.ofData data)

end LaserPath
