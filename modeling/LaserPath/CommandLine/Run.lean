import LaserPath.CommandLine.Request
import LaserPath.Config.File
import LaserPath.FileName
import LaserPath.Program
import LaserPath.Scene.Document

/-!
# Runs

A run settles on a configuration, saves it if it is asked to, reads the scene,
and writes the program of its selection.

## Main definitions

* `RunError` — why a run fails; `RunError.chain` gives the reasons from the
  outermost to the innermost.
* `FileStore.resolveConfig` — the configuration of a run.
* `FileStore.destination` — where its program goes.
* `FileStore.run` — the run.
-/

namespace LaserPath

/-- Why a run fails. -/
inductive RunError where
  | loadConfig (path : String) (error : ConfigError)
  /-- The settings are refused with the overrides in them. -/
  | settings (error : SettingsError)
  | saveConfig (path : String) (error : ConfigError)
  | scene (path : String) (error : SceneError)
  | program (error : ProgramError)
  | write (path : String) (error : FileError)
  deriving DecidableEq

/-- The reasons behind a failure with settings, the outermost first. -/
def ConfigError.chain (e : ConfigError) : List String :=
  match e with
  | .file error => [e.message, error.message]
  | _ => [e.message]

/-- The reasons behind a failure with a scene, the outermost first. -/
def SceneError.chain (e : SceneError) : List String :=
  match e with
  | .unreadable error => [e.message, error.message]
  | _ => [e.message]

/-- The reasons behind a failure, the outermost first. -/
def RunError.chain : RunError → List String
  | .loadConfig path error => ("Failed to load config " ++ path) :: error.chain
  | .settings error => [error.message]
  | .saveConfig path error => ("Failed to save config " ++ path) :: error.chain
  | .scene path error => ("Failed to read scene " ++ path) :: error.chain
  | .program error => [error.message]
  | .write path error => [("Failed to write " ++ path), error.message]

/-- Where a program goes. -/
inductive Destination where
  | standardOutput
  | file (path : String)
  deriving DecidableEq, Repr

/-- What a run finds around it. -/
structure Surroundings where
  /-- The path of the configuration of the user. -/
  userConfig? : Option String
  time : Timestamp
  deriving DecidableEq, Repr

/-- The extension of program files. -/
def programExtension : String := "gcode"

/-- A configuration with overrides in it, checked once more. -/
def Overrides.resolve (o : Overrides) (base : Config) : Except RunError Config := do
  (o.apply base).check.mapError .settings
  return o.apply base

/-- The value of a result, or the failure of a run that its error is. -/
def orFail {m : Type → Type} [Monad m] {ε α : Type} (failure : ε → RunError)
    (result : Except ε α) : ExceptT RunError m α :=
  liftExcept (result.mapError failure)

namespace FileStore

variable {m : Type → Type} [Monad m] (store : FileStore m)

/-- The path of the configuration of a run: the one that is asked for, or that
of the user if there is a file. -/
def configPath? (around : Surroundings) (request : Request) : m (Option String) := do
  match request.config?, around.userConfig? with
  | some path, _ => return some path
  | none, some path => return if ← store.contains path then some path else none
  | none, none => return none

/-- The configuration of a run without the overrides. -/
def baseConfig (around : Surroundings) (request : Request) : ExceptT RunError m Config := do
  match ← store.configPath? around request with
  | some path => orFail (.loadConfig path) (← store.loadConfig path)
  | none => return {}

/-- The configuration of a run. -/
def resolveConfig (around : Surroundings) (request : Request) : ExceptT RunError m Config := do
  liftExcept (request.overrides.resolve (← store.baseConfig around request))

/-- Saves the configuration of a run if it is asked to. -/
def keepConfig (request : Request) (config : Config) : ExceptT RunError m Unit := do
  match request.saveConfig? with
  | some path => orFail (.saveConfig path) (← store.saveConfig config path)
  | none => return ()

/-- The selection of a run. -/
def selection (request : Request) : ExceptT RunError m (List SelectedNode) := do
  orFail (.scene request.scene) (← store.readScene request.scene)

/-- Where the program for a selection goes. A directory takes it under a
suggested name. -/
def destination (around : Surroundings) (output? : Option String)
    (selection : List SelectedNode) : m Destination := do
  match output? with
  | none => return .standardOutput
  | some path =>
    if ← store.isDirectory path then
      let name := suggestedFileName selection around.time
      return .file (Path.join path (name ++ "." ++ programExtension))
    else return .file path

/-- Writes the text of a program to where it goes. -/
def deliver (text : String) (destination : Destination) : ExceptT RunError m Unit := do
  match destination with
  | .standardOutput => store.print text
  | .file path => orFail (.write path) (← store.writeText path text)

/-- A run. -/
def run (around : Surroundings) (request : Request) : ExceptT RunError m Unit := do
  let config ← store.resolveConfig around request
  store.keepConfig request config
  let selection ← store.selection request
  let text ← orFail .program (generateProgram config selection)
  store.deliver text (← store.destination around request.output? selection)

end FileStore

end LaserPath
