import LaserPath.Settings

/-!
# Toolpaths

A toolpath is the list of commands that draws one shape. Motions are rapids,
with the beam off, and cuts, which are straight or along an arc; the other
commands frame a program or annotate it.

## Main definitions

* `Cut`, `Command`, `Toolpath` — the commands.
* `Command.endpoint?`, `Toolpath.firstPoint?`, `Toolpath.lastPoint?` — where
  motions end.
* `Toolpath.cutLength` — the length that is cut, by chords.
* `LaserSettings.rapidTo`, `LaserSettings.cutTo`, `LaserSettings.arcTo`,
  `LaserSettings.outline` — commands with the rates and the power of the
  settings.

## Main statements

* `Toolpath.hasGeometry_append`, `Toolpath.firstPoint?_append` — what a
  toolpath moves is told by its parts.
-/

namespace LaserPath

/-- The way a cut takes to its end. -/
inductive Sweep where
  | straight
  /-- Around a centre that is given as an offset from the start of the cut; a
  cut that ends where it starts is a whole turn. -/
  | arc (centre : Point) (clockwise : Bool)
  deriving DecidableEq

/-- A motion with the beam on. -/
structure Cut where
  target : Point
  sweep : Sweep
  feedRate? : Option Float
  power? : Option Float
  deriving DecidableEq

/-- A command to the machine. -/
inductive Command where
  /-- A motion with the beam off. -/
  | rapid (target : Point) (feedRate? : Option Float)
  | cut (cut : Cut)
  | laserOn (inlineMode : Bool)
  | laserOff (inlineMode : Bool)
  /-- Units, absolute positions and the two rates. -/
  | setup (feedRate rapidFeedRate power : Float)
  | endProgram
  | comment (text : String)
  deriving DecidableEq

namespace Command

/-- Where a motion ends. -/
def endpoint? : Command → Option Point
  | .rapid target _ => some target
  | .cut c => some c.target
  | _ => none

/-- Does the command move the head? -/
def isMotion (c : Command) : Bool := c.endpoint?.isSome

end Command

/-- The commands of one shape. -/
abbrev Toolpath := List Command

namespace Toolpath

/-- Does the toolpath move the head at all? -/
def hasGeometry (t : Toolpath) : Bool := t.any Command.isMotion

/-- Where the first motion ends. -/
def firstPoint? (t : Toolpath) : Option Point := t.findSome? Command.endpoint?

/-- Where the last motion ends. -/
def lastPoint? (t : Toolpath) : Option Point := t.reverse.findSome? Command.endpoint?

/-- The pen after a command, and the length cut so far. A cut is measured by
its chord, and a cut before any motion has no length. -/
def measure (state : Option Point × Float) (c : Command) : Option Point × Float :=
  match c with
  | .rapid target _ => (some target, state.2)
  | .cut cut =>
    (some cut.target, match state.1 with
      | some pen => state.2 + pen.distance cut.target
      | none => state.2)
  | _ => state

/-- The length that is cut. A whole turn has no chord and counts nothing. -/
def cutLength (t : Toolpath) : Float := (t.foldl measure (none, 0)).2

@[simp] theorem hasGeometry_nil : hasGeometry [] = false := rfl

@[simp] theorem hasGeometry_append (s t : Toolpath) :
    hasGeometry (s ++ t) = (hasGeometry s || hasGeometry t) :=
  List.any_append

@[simp] theorem firstPoint?_append (s t : Toolpath) :
    firstPoint? (s ++ t) = (firstPoint? s).or (firstPoint? t) :=
  List.findSome?_append

@[simp] theorem lastPoint?_append (s t : Toolpath) :
    lastPoint? (s ++ t) = (lastPoint? t).or (lastPoint? s) := by
  simp [lastPoint?, List.findSome?_append]

/-- A toolpath moves the head if and only if it has a first point. -/
theorem isSome_firstPoint? (t : Toolpath) : (firstPoint? t).isSome = hasGeometry t := by
  induction t with
  | nil => rfl
  | cons c rest ih =>
    cases h : c.endpoint? <;>
      simp_all [firstPoint?, hasGeometry, Command.isMotion]

end Toolpath

namespace LaserSettings

/-- A rapid to a point. -/
def rapidTo (s : LaserSettings) (target : Point) : Command := .rapid target (some s.rapidFeedRate)

/-- A straight cut to a point. -/
def cutTo (s : LaserSettings) (target : Point) : Command :=
  .cut ⟨target, .straight, some s.feedRate, some s.power⟩

/-- A cut along an arc. -/
def arcTo (s : LaserSettings) (target centre : Point) (clockwise : Bool) : Command :=
  .cut ⟨target, .arc centre clockwise, some s.feedRate, some s.power⟩

/-- The outline of a box, from its top left corner and back to it. -/
def outline (s : LaserSettings) (corner : Point) (width height : Float) : Toolpath :=
  [s.rapidTo corner,
    s.cutTo (corner.offset width 0),
    s.cutTo (corner.offset width height),
    s.cutTo (corner.offset 0 height),
    s.cutTo corner]

end LaserSettings

end LaserPath
