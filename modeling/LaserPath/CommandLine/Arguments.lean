import LaserPath.CommandLine.Request
import LaserPath.Decimal.Reader

/-!
# Arguments

A request is read from the arguments of a command line, from left to right. A
value that stands apart from its option is checked only when the next option or
the scene appears, or at the end; until then it is pending.

## Main definitions

* `Parameter`, `Switch`, `OptionName` — what an argument may be about.
* `UsageError` — why arguments make no request.
* `Reading` — what has been read; `Reading.step` reads one more argument.
* `Request.ofArguments` — the request of all arguments.
-/

namespace LaserPath

/-- What has a value on the command line. -/
inductive Parameter where
  | scene
  | config
  | output
  | saveConfig
  | feedRate
  | rapidFeedRate
  | power
  | startX
  | startY
  deriving DecidableEq, Repr

/-- May a value that begins with a hyphen stand apart from its option? -/
def Parameter.allowsHyphen : Parameter → Bool
  | .startX | .startY => true
  | _ => false

/-- What is switched on by its name alone. -/
inductive Switch where
  | keepsOrder
  | plainLaser
  deriving DecidableEq, Repr

/-- What the name of an option stands for. -/
inductive OptionName where
  | parameter (parameter : Parameter)
  | switch (switch : Switch)
  | help
  | version
  deriving DecidableEq, Repr

namespace OptionName

/-- The option of a name behind two hyphens. -/
def ofLong? : String → Option OptionName
  | "config" => some (.parameter .config)
  | "output" => some (.parameter .output)
  | "save-config" => some (.parameter .saveConfig)
  | "feed-rate" => some (.parameter .feedRate)
  | "rapid-feed-rate" => some (.parameter .rapidFeedRate)
  | "laser-power" => some (.parameter .power)
  | "start-x" => some (.parameter .startX)
  | "start-y" => some (.parameter .startY)
  | "no-optimize" => some (.switch .keepsOrder)
  | "no-inline" => some (.switch .plainLaser)
  | "help" => some .help
  | "version" => some .version
  | _ => none

/-- The option of a letter behind one hyphen. -/
def ofShort? : Char → Option OptionName
  | 'o' => some (.parameter .output)
  | 'h' => some .help
  | 'V' => some .version
  | _ => none

end OptionName

/-- Why arguments make no request. -/
inductive UsageError where
  | missingScene
  | unknownArgument
  /-- An option stands without its value, or a path is empty. -/
  | missingValue
  /-- A value is no number. -/
  | notNumber
  | givenTwice
  /-- A value is attached to an option that has none. -/
  | unneededValue
  | helpWanted
  | versionWanted
  deriving DecidableEq, Repr

/-- The text of the reason. -/
def UsageError.message : UsageError → String
  | .missingScene => "a scene file is required"
  | .unknownArgument => "unexpected argument"
  | .missingValue => "a value is required"
  | .notNumber => "a number is required"
  | .givenTwice => "an argument cannot be used multiple times"
  | .unneededValue => "unexpected value"
  | .helpWanted | .versionWanted => ""

/-- The form of an argument. -/
inductive ArgumentForm where
  /-- Two hyphens alone, behind which no argument is an option. -/
  | terminator
  /-- A name behind two hyphens, with what stands behind an equals sign. -/
  | long (name : String) (value? : Option String)
  /-- A letter behind one hyphen, with what stands behind it. -/
  | short (letter : Char) (value? : Option String)
  | plain
  deriving DecidableEq, Repr

namespace ArgumentForm

/-- A value behind an option of one letter. An equals sign in front of it does
not count. -/
def attached? : List Char → Option String
  | [] => none
  | '=' :: value => some (String.ofList value)
  | value => some (String.ofList value)

/-- The form of an argument. -/
def ofText (argument : String) : ArgumentForm :=
  match argument.toList with
  | ['-', '-'] => .terminator
  | '-' :: '-' :: text =>
    let name := String.ofList (text.takeWhile (· != '='))
    match text.dropWhile (· != '=') with
    | [] => .long name none
    | _ :: value => .long name (some (String.ofList value))
  | '-' :: letter :: rest => .short letter (attached? rest)
  | _ => .plain

example : ofText "--feed-rate=5" = .long "feed-rate" (some "5") := by decide +kernel
example : ofText "-o=out" = .short 'o' (some "out") := by decide +kernel
example : ofText "-" = .plain := by decide +kernel

end ArgumentForm

/-- What has been read from the first arguments. -/
structure Reading where
  scene? : Option String := none
  config? : Option String := none
  output? : Option String := none
  saveConfig? : Option String := none
  overrides : Overrides := {}
  /-- A parameter whose value is not checked yet, or is still to come. -/
  pending? : Option (Parameter × Option String) := none
  /-- Have two hyphens alone been read? -/
  afterTerminator : Bool := false
  deriving DecidableEq

namespace Reading

/-- The value of a parameter that must not have one yet. -/
def once {α : Type} (old : Option α) (new : Except UsageError α) :
    Except UsageError (Option α) :=
  if old.isSome then .error .givenTwice else new.map some

/-- A path. -/
def path (text : String) : Except UsageError String :=
  if text.isEmpty then .error .missingValue else .ok text

/-- A number. -/
def number (text : String) : Except UsageError Float :=
  match readNumber? text.toList with
  | some x => .ok x
  | none => .error .notNumber

/-- Sets a parameter. -/
def set (r : Reading) (parameter : Parameter) (text : String) : Except UsageError Reading := do
  let o := r.overrides
  match parameter with
  | .scene => return { r with scene? := ← once r.scene? (path text) }
  | .config => return { r with config? := ← once r.config? (path text) }
  | .output => return { r with output? := ← once r.output? (path text) }
  | .saveConfig => return { r with saveConfig? := ← once r.saveConfig? (path text) }
  | .feedRate =>
    return { r with overrides := { o with feedRate? := ← once o.feedRate? (number text) } }
  | .rapidFeedRate =>
    return { r with
      overrides := { o with rapidFeedRate? := ← once o.rapidFeedRate? (number text) } }
  | .power => return { r with overrides := { o with power? := ← once o.power? (number text) } }
  | .startX =>
    return { r with overrides := { o with startX? := ← once o.startX? (number text) } }
  | .startY =>
    return { r with overrides := { o with startY? := ← once o.startY? (number text) } }

/-- Sets the pending parameter. -/
def settle (r : Reading) : Except UsageError Reading :=
  match r.pending? with
  | none => .ok r
  | some (_, none) => .error .missingValue
  | some (parameter, some text) => { r with pending? := none }.set parameter text

/-- Reads a switch. -/
def turnOn (r : Reading) (switch : Switch) : Except UsageError Reading :=
  let o := r.overrides
  match switch with
  | .keepsOrder =>
    if o.keepsOrder then .error .givenTwice
    else .ok { r with overrides := { o with keepsOrder := true } }
  | .plainLaser =>
    if o.plainLaser then .error .givenTwice
    else .ok { r with overrides := { o with plainLaser := true } }

/-- Reads the name of an option and the value attached to it. -/
def named (r : Reading) (name : OptionName) (value? : Option String) :
    Except UsageError Reading := do
  match name, value? with
  | .parameter parameter, some text => (← r.settle).set parameter text
  | .parameter parameter, none => return { ← r.settle with pending? := some (parameter, none) }
  | .switch switch, _ => (← r.settle).turnOn switch
  | .help, _ =>
    let _ ← r.settle
    .error .helpWanted
  | .version, _ =>
    let _ ← r.settle
    .error .versionWanted

/-- Reads an argument that belongs to no option. Only the scene does. -/
def positional (r : Reading) (argument : String) : Except UsageError Reading := do
  let isScene (pending : Parameter × Option String) : Bool := pending.1 == .scene
  if r.scene?.isSome || r.pending?.any isScene then .error .unknownArgument
  return { ← r.settle with pending? := some (.scene, some argument) }

/-- The parameter whose value is still to come. -/
def awaited? (r : Reading) : Option Parameter :=
  match r.pending? with
  | some (parameter, none) => some parameter
  | _ => none

/-- Reads an argument that begins with hyphens or not, where no value with a
hyphen is awaited. -/
def option (r : Reading) (argument : String) : Except UsageError Reading :=
  match ArgumentForm.ofText argument with
  | .terminator => .ok { r with afterTerminator := true }
  | .long name value? =>
    match OptionName.ofLong? name, value? with
    | none, _ => .error .unknownArgument
    | some (.parameter parameter), _ => r.named (.parameter parameter) value?
    | some _, some _ => .error .unneededValue
    | some name, none => r.named name none
  | .short letter value? =>
    match OptionName.ofShort? letter with
    | none => .error .unknownArgument
    | some name => r.named name value?
  | .plain =>
    match r.awaited? with
    | some parameter => .ok { r with pending? := some (parameter, some argument) }
    | none => r.positional argument

/-- Reads one more argument. -/
def step (r : Reading) (argument : String) : Except UsageError Reading :=
  if r.afterTerminator then r.positional argument
  else match r.awaited? with
    | some parameter =>
      if parameter.allowsHyphen then
        .ok { r with pending? := some (parameter, some argument) }
      else r.option argument
    | none => r.option argument

/-- The request that has been read. -/
def finish (r : Reading) : Except UsageError Request := do
  let r ← r.settle
  match r.scene? with
  | some scene => return ⟨scene, r.config?, r.output?, r.saveConfig?, r.overrides⟩
  | none => .error .missingScene

end Reading

/-- The request of the arguments of a command line. -/
def Request.ofArguments (arguments : List String) : Except UsageError Request := do
  (← arguments.foldlM Reading.step {}).finish

end LaserPath
