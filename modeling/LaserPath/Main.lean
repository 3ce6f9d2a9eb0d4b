import LaserPath.CommandLine.Arguments
import LaserPath.CommandLine.Run
import Std.Time.DateTime.Timestamp

/-!
# The command line

Compiles a scene into a program for the laser.

## Main definitions

* `Machine.store` — the files of the machine.
* `main` — reads the arguments, runs, and reports.
-/

namespace LaserPath

namespace Machine

/-- The reason behind a failure of the machine. -/
def reason (error : IO.Error) : FileError :=
  match error with
  | .noFileOrDirectory .. => .notFound
  | .inappropriateType .. => .notDirectory
  | error => .other (toString error)

/-- Runs an action on a file. Directories are told apart first, as they are no
files. -/
def onFile {α : Type} (path : String) (action : IO α) : IO (Except FileError α) := do
  if ← ((← IO.currentDir) / path).isDir then return .error .isDirectory
  try return .ok (← action)
  catch error => return .error (reason error)

/-- The files of the machine and its standard output. -/
def store : FileStore IO where
  readText path := do
    match ← onFile path (IO.FS.readBinFile path) with
    | .error error => return .error error
    | .ok bytes =>
      match String.fromUTF8? bytes with
      | some text => return .ok text
      | none => return .error .notText
  writeText path text := onFile path (IO.FS.writeFile path text)
  isDirectory path := do ((← IO.currentDir) / path).isDir
  contains path := do ((← IO.currentDir) / path).pathExists
  print text := IO.print text

/-- The path of the configuration of the user, below the directory for
configurations. -/
def userConfig? : IO (Option String) := do
  let chosen := (← IO.getEnv "XDG_CONFIG_HOME").filter Path.isAbsolute
  let usual := (← IO.getEnv "HOME").map (Path.join · ".config")
  return (chosen <|> usual).map fun directory =>
    Path.join (Path.join directory "lasercam") "lasercam.toml"

/-- What a run finds around it. -/
def surroundings : IO Surroundings := do
  let now ← Std.Time.Timestamp.now
  return ⟨← userConfig?, .ofNanoseconds now.toNanosecondsSinceUnixEpoch.val⟩

end Machine

/-- The usage of the command line. -/
def usage : String :=
  "Usage: lasercam [OPTIONS] <SCENE>\n\n" ++
  "  <SCENE>                    Scene JSON file with the selected shapes\n" ++
  "  --config <FILE>            Configuration file (.toml or .json)\n" ++
  "  -o, --output <PATH>        Output file, or a directory for a file\n" ++
  "  --feed-rate <RATE>         Cutting feed rate in mm/min\n" ++
  "  --rapid-feed-rate <RATE>   Rapid feed rate in mm/min\n" ++
  "  --laser-power <POWER>      Laser power (S parameter)\n" ++
  "  --no-optimize              Keep the selection order\n" ++
  "  --start-x <X>              Start X position\n" ++
  "  --start-y <Y>              Start Y position\n" ++
  "  --no-inline                Use plain M3/M5\n" ++
  "  --save-config <FILE>       Write the effective configuration to a file\n" ++
  "  -h, --help                 Print help\n" ++
  "  -V, --version              Print version\n"

/-- Reports why arguments make no request. -/
def reportUsage (error : UsageError) : IO UInt32 := do
  match error with
  | .helpWanted =>
    IO.print usage
    return 0
  | .versionWanted =>
    IO.println "lasercam 0.4.0"
    return 0
  | error =>
    IO.eprintln ("error: " ++ error.message)
    return 2

/-- Runs a request and reports why it fails. -/
def runRequest (request : Request) : IO UInt32 := do
  match ← (Machine.store.run (← Machine.surroundings) request).run with
  | .ok () => return 0
  | .error error =>
    IO.eprintln ("Error: " ++ ": ".intercalate error.chain)
    return 1

end LaserPath

/-- Compiles the scene that the arguments name. -/
def main (arguments : List String) : IO UInt32 :=
  match LaserPath.Request.ofArguments arguments with
  | .ok request => LaserPath.runRequest request
  | .error error => LaserPath.reportUsage error
