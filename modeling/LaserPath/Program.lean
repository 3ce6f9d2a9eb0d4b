import LaserPath.Selection
import LaserPath.Shape.Compile
import LaserPath.Route.Nearest
import LaserPath.GCode

/-!
# Programs

A selection becomes a program: its parts are compiled, those that move the head
become blocks, put into an order with less travel if the settings say so, and
everything is framed by a header and a footer.

## Main definitions

* `ProgramError` — why there is no program.
* `Entry` — what a part adds to a program: a block, or comments only.
* `Program` — the content of a program; `Program.commands` spells it out.
* `Program.ofSelection`, `generateProgram` — the program of a selection and
  its text.
-/

namespace LaserPath

/-- Why there is no program. -/
inductive ProgramError where
  | emptySelection
  | settings (error : SettingsError)
  /-- No part moves the head; `skipped` parts cannot be drawn. -/
  | emptyResult (skipped : Nat)
  deriving DecidableEq

/-- The text of the reason. -/
def ProgramError.message : ProgramError → String
  | .emptySelection => "No nodes provided for G-code generation."
  | .settings error => error.message
  | .emptyResult skipped =>
    "No valid geometry was generated from the selected objects (" ++ toString skipped ++
      " skipped). Please check that you have selected supported shape types."

/-- The travel of the blocks in the order of the selection and in the order of the program. -/
structure TravelReport where
  original : Float
  optimized : Float
  deriving DecidableEq

/-- The share of the travel that the new order saves, in percent. Where there
was no travel nothing is saved. -/
def TravelReport.savedPercent (r : TravelReport) : Float :=
  if 0 < r.original then (r.original - r.optimized) / r.original * 100 else 0

/-- What a part adds to a program. -/
inductive Entry where
  | block (block : Block)
  /-- Comments only. -/
  | note (toolpath : Toolpath)
  deriving DecidableEq

namespace Entry

/-- The block of an entry. -/
def block? : Entry → Option Block
  | .block b => some b
  | .note _ => none

/-- Is the entry made of comments only? -/
def isNote : Entry → Bool
  | .block _ => false
  | .note _ => true

end Entry

/-- The blocks among entries. -/
def blocksOf (entries : List Entry) : List Block := entries.filterMap Entry.block?

namespace Part

/-- The toolpath of a part. -/
def compile (settings : LaserSettings) (p : Part) : Except ShapeError Toolpath :=
  p.shape.compile settings p.ancestors

/-- What a part adds to a program, given what its compilation came to. A part
that cannot be drawn leaves a comment. -/
def entry (p : Part) (id : Nat) (result : Except ShapeError Toolpath) : Entry :=
  match result with
  | .ok toolpath =>
    if toolpath.hasGeometry then
      .block (Block.ofShape id p.label p.shape p.ancestors toolpath)
    else .note toolpath
  | .error error => .note [skippedComment p.label error]

end Part

/-- Did a compilation fail? -/
def isFailure (result : Except ShapeError Toolpath) : Bool :=
  match result with
  | .ok _ => false
  | .error _ => true

/-- The content of a program. -/
structure Program where
  /-- The number of selected nodes. -/
  selected : Nat
  config : Config
  /-- The travel, if it has been optimized. -/
  travel? : Option TravelReport
  entries : List Entry
  /-- The number of parts that cannot be drawn. -/
  skipped : Nat
  deriving DecidableEq

namespace Program

/-- Puts the notes first and the blocks behind them in an order with less travel. -/
def route (start : Point) (entries : List Entry) : List Entry × TravelReport :=
  let blocks := blocksOf entries
  let routed := optimizeTravel start blocks
  (entries.filter Entry.isNote ++ routed.map .block,
    ⟨travelDistance start blocks, travelDistance start routed⟩)

/-- The parts of a selection with what their compilation came to. -/
def compileParts (settings : LaserSettings) (selection : List SelectedNode) :
    List (Part × Except ShapeError Toolpath) :=
  (parts selection).map fun part => (part, part.compile settings)

/-- The entries of compiled parts, in the order of the parts. -/
def entriesOf (compiled : List (Part × Except ShapeError Toolpath)) : List Entry :=
  compiled.zipIdx.map fun ((part, result), id) => part.entry id result

/-- The program of a selection. An empty selection is refused first, settings
second, and a selection that moves nothing third. -/
def ofSelection (config : Config) (selection : List SelectedNode) :
    Except ProgramError Program := do
  if selection.isEmpty then .error .emptySelection
  config.check.mapError .settings
  let compiled := compileParts config.laser selection
  let entries := entriesOf compiled
  let skipped := compiled.countP (isFailure ·.2)
  if (blocksOf entries).isEmpty then .error (.emptyResult skipped)
  if config.output.optimizeTravel then
    let (entries, travel) := route config.output.start entries
    return ⟨selection.length, config, some travel, entries, skipped⟩
  else
    return ⟨selection.length, config, none, entries, skipped⟩

/-- The comments on travel. -/
def travelComments (r : TravelReport) : Toolpath :=
  [.comment ("Travel distance (original order): " ++ Measure.length r.original ++ " " ++
      Measure.unit),
    .comment ("Travel distance (optimized): " ++ Measure.length r.optimized ++ " " ++
      Measure.unit),
    .comment ("Travel saved: " ++ Measure.percent r.savedPercent ++ "%")]

/-- The commands before the entries: comments on the settings, the set-up of
the machine, and the laser on. -/
def header (p : Program) : Toolpath :=
  let laser := p.config.laser
  [.comment "Generated by lasercam",
    .comment ("Selected objects: " ++ toString p.selected),
    .comment ("Feed rate: " ++ Measure.rate laser.feedRate ++ " " ++ Measure.rateUnit),
    .comment ("Rapid feed rate: " ++ Measure.rate laser.rapidFeedRate ++ " " ++
      Measure.rateUnit),
    .comment ("Laser power: " ++ Measure.rate laser.power ++ " (S parameter)"),
    .comment ("Travel optimization: " ++
      if p.travel?.isSome then "enabled" else "disabled")] ++
  p.travel?.elim [] travelComments ++
  [.comment "",
    .setup laser.feedRate laser.rapidFeedRate laser.power,
    .laserOn p.config.output.inlineLaser]

/-- The commands behind the entries: how many parts are missing, the laser off,
and the end. -/
def footer (p : Program) : Toolpath :=
  (if p.skipped = 0 then [] else [.comment ("Skipped shapes: " ++ toString p.skipped)]) ++
  [.comment "End of program", .laserOff p.config.output.inlineLaser, .endProgram]

/-- The comment at an end of the block with the given number among `count` blocks. -/
def marker (word : String) (number count : Nat) (label : String) : Command :=
  .comment (word ++ " shape " ++ toString number ++ "/" ++ toString count ++ ": " ++ label)

/-- The commands of entries. Blocks are numbered from `number` on. -/
def entryCommands (count number : Nat) : List Entry → Toolpath
  | [] => []
  | .note toolpath :: rest => toolpath ++ entryCommands count number rest
  | .block b :: rest =>
    marker "Begin" number count b.label ::
      (b.toolpath ++ marker "End" number count b.label :: entryCommands count (number + 1) rest)

/-- All commands of a program. -/
def commands (p : Program) : Toolpath :=
  p.header ++ entryCommands (blocksOf p.entries).length 1 p.entries ++ p.footer

/-- The text of a program. -/
def text (p : Program) : String := p.commands.text

end Program

/-- The text of the program of a selection. -/
def generateProgram (config : Config) (selection : List SelectedNode) :
    Except ProgramError String :=
  (Program.ofSelection config selection).map Program.text

end LaserPath
