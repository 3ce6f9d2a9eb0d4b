import LaserPath.Config.Json
import LaserPath.Config.Toml
import LaserPath.Files.Basic

/-!
# Settings in files

The extension of a file says in which format its settings are written.
Settings are checked when they are loaded and before they are saved.

## Main definitions

* `ConfigFormat` — a format with its reader and its writer.
* `ConfigError` — why settings cannot be loaded or saved.
* `FileStore.loadConfig`, `FileStore.saveConfig` — settings from and to a file.
-/

namespace LaserPath

/-- A format of settings. -/
inductive ConfigFormat where
  | json
  | toml
  deriving DecidableEq, Repr

namespace ConfigFormat

/-- The format of a file. -/
def ofPath? (path : String) : Option ConfigFormat :=
  match Path.extension? path with
  | some "json" => some .json
  | some "toml" => some .toml
  | _ => none

/-- The name of the format. -/
def name : ConfigFormat → String
  | .json => "JSON"
  | .toml => "TOML"

/-- The settings of a text. -/
def read? (format : ConfigFormat) (text : String) : Option Config :=
  match format with
  | .json => Config.readJson? text
  | .toml => Config.readToml? text

/-- The text of settings. -/
def write (format : ConfigFormat) (config : Config) : String :=
  match format with
  | .json => config.jsonText
  | .toml => config.tomlText

end ConfigFormat

/-- Why settings cannot be loaded or saved. -/
inductive ConfigError where
  | file (error : FileError)
  /-- The extension of the file is that of no format. -/
  | unknownFormat
  /-- The text is not written in the format, or holds a setting of a wrong type. -/
  | unreadable (format : ConfigFormat)
  | settings (error : SettingsError)
  deriving DecidableEq

/-- The text of the reason. -/
def ConfigError.message : ConfigError → String
  | .file error => "I/O error: " ++ error.message
  | .unknownFormat => "Configuration error: Config file must be .json or .toml"
  | .unreadable format => "Configuration error: Invalid " ++ format.name ++ " config"
  | .settings error => error.message

namespace Config

/-- The settings that a file with the given path and text holds. -/
def ofFile (path text : String) : Except ConfigError Config := do
  let some format := ConfigFormat.ofPath? path | .error .unknownFormat
  let some config := format.read? text | .error (.unreadable format)
  config.check.mapError .settings
  return config

/-- The text of a file with the given path that holds the settings. -/
def fileText (config : Config) (path : String) : Except ConfigError String := do
  config.check.mapError .settings
  let some format := ConfigFormat.ofPath? path | .error .unknownFormat
  return format.write config

end Config

namespace FileStore

variable {m : Type → Type} [Monad m]

/-- The settings of a file. -/
def loadConfig (store : FileStore m) (path : String) : m (Except ConfigError Config) := do
  match ← store.readText path with
  | .ok text => return Config.ofFile path text
  | .error error => return .error (.file error)

/-- Writes settings to a file. -/
def saveConfig (store : FileStore m) (config : Config) (path : String) :
    m (Except ConfigError Unit) := do
  match config.fileText path with
  | .ok text => return (← store.writeText path text).mapError .file
  | .error error => return .error error

end FileStore

end LaserPath
