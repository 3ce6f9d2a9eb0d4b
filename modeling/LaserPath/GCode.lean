import LaserPath.Measure
import LaserPath.Toolpath.Basic

/-!
# Program text

The lines of the commands. A rapid says `S0` in every line, so the beam is
never on while the head is moved.

## Main definitions

* `Command.lines` — the lines of a command.
* `Toolpath.text` — the text of a list of commands.
-/

namespace LaserPath

/-- The words of a position. -/
def Point.words (first second : String) (p : Point) : String :=
  " " ++ first ++ Measure.coordinate p.x ++ " " ++ second ++ Measure.coordinate p.y

/-- The word of a rate or a power, if it is given. -/
def rateWord (letter : String) (value? : Option Float) : String :=
  match value? with
  | some value => " " ++ letter ++ Measure.rate value
  | none => ""

/-- The line of a cut. -/
def Cut.line (c : Cut) : String :=
  let (code, centre) := match c.sweep with
    | .straight => ("G1", "")
    | .arc offset true => ("G2", offset.words "I" "J")
    | .arc offset false => ("G3", offset.words "I" "J")
  code ++ c.target.words "X" "Y" ++ centre ++ rateWord "F" c.feedRate? ++ rateWord "S" c.power?

namespace Command

/-- The lines of a command, without their ends. -/
def lines : Command → List String
  | .rapid target feedRate? => ["G0" ++ target.words "X" "Y" ++ rateWord "F" feedRate? ++ " S0"]
  | .cut c => [c.line]
  | .laserOn true => ["M3 I ; Enable laser inline mode"]
  | .laserOn false => ["M3 ; Enable laser"]
  | .laserOff true => ["M5 I ; Disable laser inline mode"]
  | .laserOff false => ["M5 ; Disable laser"]
  | .setup feedRate rapidFeedRate _ =>
    ["G21 ; Set units to millimeters",
      "G90 ; Absolute positioning",
      "G0 F" ++ Measure.rate rapidFeedRate ++
        " S0 ; Set rapid feed rate and ensure laser is off",
      "G1 F" ++ Measure.rate feedRate ++ " ; Set cutting feed rate"]
  | .endProgram => ["M30 ; Program end"]
  | .comment text => [if text.isEmpty then ";" else "; " ++ text]

/-- The text of a command, every line with its end. -/
def text (c : Command) : String := String.join (c.lines.map (· ++ "\n"))

end Command

/-- The text of a list of commands. -/
def Toolpath.text (t : Toolpath) : String := String.join (t.map Command.text)

end LaserPath
