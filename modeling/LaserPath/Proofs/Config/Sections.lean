import LaserPath.Config.File
import LaserPath.Proofs.Settings

/-!
# The settings that a text holds

In either format a text has a section for the laser and one for the output. A setting is what is
given for it in its section, and its default if nothing is given. A section that is missing leaves
all its settings at their defaults.

## Main definitions

* `GivenOr` — a value that is given, or a default.
* `SettingsNotation` — how a format writes numbers, truth values and sections.
* `SettingsNotation.Holds` — what the two sections say; `SettingsNotation.config?` reads them.
* `ConfigFormat.Holds` — the settings that a text holds.

## Main statements

* `ConfigFormat.read?_eq_some_iff` — a text is read as the settings that it holds.
-/

namespace LaserPath

/-- The value that something given stands for, or a default if nothing is given. -/
inductive GivenOr {α β : Type} (StandsFor : α → β → Prop) (default : β) : Option α → β → Prop where
  | given {a : α} {value : β} (h : StandsFor a value) : GivenOr StandsFor default (some a) value
  | missing : GivenOr StandsFor default none default

namespace GivenOr

variable {α β : Type} {StandsFor : α → β → Prop} {default value : β} {a : α}

@[simp] theorem some_iff : GivenOr StandsFor default (some a) value ↔ StandsFor a value := by
  constructor
  · intro h
    cases h with
    | given h => exact h
  · exact .given

@[simp] theorem none_iff : GivenOr StandsFor default none value ↔ value = default := by
  constructor
  · intro h
    cases h
    rfl
  · rintro rfl
    exact .missing

theorem eq_iff {o : Option β} : GivenOr Eq default o value ↔ value = o.getD default := by
  cases o with
  | none => exact none_iff
  | some b => exact some_iff.trans eq_comm

end GivenOr

/-- How a format writes numbers, truth values, and sections with the given fields. -/
structure SettingsNotation (α : Type) where
  number? : α → Option Float
  truth? : α → Option Bool
  fields? : List String → α → Option (List (String × α))

/-- Sections in JSON are records, whose fields may be missing. -/
def Json.settingsNotation : SettingsNotation Json :=
  ⟨float?, bool?, fun names => fields? ⟨names, true⟩⟩

def Toml.settingsNotation : SettingsNotation Toml := ⟨number?, bool?, section?⟩

namespace SettingsNotation

variable {α : Type} (n : SettingsNotation α)

/-- A field of a section has the number that is given, or a default. -/
def Number (fields : List (String × α)) (name : String) (default : Float) : Float → Prop :=
  GivenOr (fun a x => n.number? a = some x) default (fields.lookup name)

/-- A field of a section has the truth value that is given, or a default. -/
def Truth (fields : List (String × α)) (name : String) (default : Bool) : Bool → Prop :=
  GivenOr (fun a b => n.truth? a = some b) default (fields.lookup name)

/-- What the laser section says. -/
inductive HoldsLaser (value : α) (s : LaserSettings) : Prop where
  | intro {fields : List (String × α)}
      (hfields : n.fields? ["feed_rate", "rapid_feed_rate", "laser_power"] value = some fields)
      (feedRate : n.Number fields "feed_rate" 1000 s.feedRate)
      (rapidFeedRate : n.Number fields "rapid_feed_rate" 3000 s.rapidFeedRate)
      (power : n.Number fields "laser_power" 255 s.power)

/-- What the output section says. -/
inductive HoldsOutput (value : α) (s : OutputSettings) : Prop where
  | intro {fields : List (String × α)}
      (hfields : n.fields? ["optimize_travel", "start_x", "start_y", "inline_laser"] value =
        some fields)
      (optimizeTravel : n.Truth fields "optimize_travel" true s.optimizeTravel)
      (startX : n.Number fields "start_x" 0 s.startX)
      (startY : n.Number fields "start_y" 0 s.startY)
      (inlineLaser : n.Truth fields "inline_laser" true s.inlineLaser)

/-- What the two sections say. -/
structure Holds (sections : List (String × α)) (c : Config) : Prop where
  laser : GivenOr n.HoldsLaser {} (sections.lookup "laser") c.laser
  output : GivenOr n.HoldsOutput {} (sections.lookup "output") c.output

end SettingsNotation

/-- The text holds the settings in a format. -/
inductive ConfigFormat.Holds : ConfigFormat → String → Config → Prop where
  | json {text : String} {json : Json} {sections : Json.Fields} {c : Config}
      (hread : Json.read .record text = .ok json)
      (hsections : json.fields? ⟨["laser", "output"], true⟩ = some sections)
      (holds : Json.settingsNotation.Holds sections c) : Holds .json text c
  | toml {text : String} {sections : Toml.Entries} {c : Config}
      (hread : Toml.read? text = some sections)
      (holds : Toml.settingsNotation.Holds sections c) : Holds .toml text c

/-! ## Sections in any format -/

namespace SettingsNotation

variable {α : Type} (n : SettingsNotation α)

/-- A value that is given for a name, or a default. -/
def field? {β : Type} (fields : List (String × α)) (name : String) (value? : α → Option β)
    (default : β) : Option β :=
  match fields.lookup name with
  | some a => value? a
  | none => some default

/-- The laser section. -/
def laser? (value : α) : Option LaserSettings := do
  let fields ← n.fields? ["feed_rate", "rapid_feed_rate", "laser_power"] value
  return {
    feedRate := ← field? fields "feed_rate" n.number? 1000
    rapidFeedRate := ← field? fields "rapid_feed_rate" n.number? 3000
    power := ← field? fields "laser_power" n.number? 255 }

/-- The output section. -/
def output? (value : α) : Option OutputSettings := do
  let fields ← n.fields? ["optimize_travel", "start_x", "start_y", "inline_laser"] value
  return {
    optimizeTravel := ← field? fields "optimize_travel" n.truth? true
    startX := ← field? fields "start_x" n.number? 0
    startY := ← field? fields "start_y" n.number? 0
    inlineLaser := ← field? fields "inline_laser" n.truth? true }

/-- Both sections. -/
def config? (sections : List (String × α)) : Option Config := do
  return {
    laser := ← field? sections "laser" n.laser? {}
    output := ← field? sections "output" n.output? {} }

variable {n}

theorem field?_eq_some_iff {β : Type} {fields : List (String × α)} {name : String}
    {value? : α → Option β} {default value : β} :
    field? fields name value? default = some value ↔
      GivenOr (fun a b => value? a = some b) default (fields.lookup name) value := by
  unfold field?
  cases fields.lookup name <;> simp [eq_comm]

theorem laser?_eq_some_iff {value : α} {s : LaserSettings} :
    n.laser? value = some s ↔ n.HoldsLaser value s := by
  simp only [laser?, Option.bind_eq_bind, Option.bind_eq_some_iff, Option.pure_def,
    field?_eq_some_iff, Option.some.injEq]
  constructor
  · rintro ⟨fields, hfields, _, hfeed, _, hrapid, _, hpower, rfl⟩
    exact .intro hfields hfeed hrapid hpower
  · rintro ⟨hfields, hfeed, hrapid, hpower⟩
    exact ⟨_, hfields, _, hfeed, _, hrapid, _, hpower, rfl⟩

theorem output?_eq_some_iff {value : α} {s : OutputSettings} :
    n.output? value = some s ↔ n.HoldsOutput value s := by
  simp only [output?, Option.bind_eq_bind, Option.bind_eq_some_iff, Option.pure_def,
    field?_eq_some_iff, Option.some.injEq]
  constructor
  · rintro ⟨fields, hfields, _, htravel, _, hx, _, hy, _, hinline, rfl⟩
    exact .intro hfields htravel hx hy hinline
  · rintro ⟨hfields, htravel, hx, hy, hinline⟩
    exact ⟨_, hfields, _, htravel, _, hx, _, hy, _, hinline, rfl⟩

theorem config?_eq_some_iff {sections : List (String × α)} {c : Config} :
    n.config? sections = some c ↔ n.Holds sections c := by
  simp only [config?, Option.bind_eq_bind, Option.bind_eq_some_iff, Option.pure_def,
    field?_eq_some_iff, laser?_eq_some_iff, output?_eq_some_iff, Option.some.injEq]
  constructor
  · rintro ⟨_, hlaser, _, houtput, rfl⟩
    exact ⟨hlaser, houtput⟩
  · rintro ⟨hlaser, houtput⟩
    exact ⟨_, hlaser, _, houtput, rfl⟩

end SettingsNotation

/-! ## The two formats -/

theorem Json.Fields.optional?_eq {α : Type} (fields : Fields) (name : String)
    (value? : Json → Option α) (default : α) :
    fields.optional? name value? default =
      SettingsNotation.field? fields name value? default := by
  unfold optional? SettingsNotation.field?
  cases fields.lookup name <;> rfl

theorem Toml.Entries.valueOr?_eq {α : Type} (entries : Entries) (key : String)
    (value? : Toml → Option α) (default : α) :
    entries.valueOr? key value? default = SettingsNotation.field? entries key value? default := by
  unfold valueOr? SettingsNotation.field?
  cases entries.lookup key <;> rfl

theorem LaserSettings.ofJson?_eq : ofJson? = Json.settingsNotation.laser? := by
  funext json
  simp only [ofJson?, Json.Fields.optional?_eq]
  rfl

theorem OutputSettings.ofJson?_eq : ofJson? = Json.settingsNotation.output? := by
  funext json
  simp only [ofJson?, Json.Fields.optional?_eq]
  rfl

theorem Config.ofJson?_eq (json : Json) : ofJson? json =
    (json.fields? ⟨["laser", "output"], true⟩).bind Json.settingsNotation.config? := by
  simp only [ofJson?, Json.Fields.optional?_eq, LaserSettings.ofJson?_eq,
    OutputSettings.ofJson?_eq]
  rfl

theorem LaserSettings.ofToml?_eq : ofToml? = Toml.settingsNotation.laser? := by
  funext toml
  simp only [ofToml?, Toml.Entries.valueOr?_eq]
  rfl

theorem OutputSettings.ofToml?_eq : ofToml? = Toml.settingsNotation.output? := by
  funext toml
  simp only [ofToml?, Toml.Entries.valueOr?_eq]
  rfl

theorem Config.ofToml?_eq : ofToml? = Toml.settingsNotation.config? := by
  funext sections
  simp only [ofToml?, Toml.Entries.valueOr?_eq, LaserSettings.ofToml?_eq,
    OutputSettings.ofToml?_eq]
  rfl

/-- A text is read as the settings that it holds. -/
theorem ConfigFormat.read?_eq_some_iff {format : ConfigFormat} {text : String} {c : Config} :
    format.read? text = some c ↔ format.Holds text c := by
  constructor
  · intro h
    cases format with
    | json =>
      unfold read? Config.readJson? at h
      dsimp only at h
      split at h
      · next json hread =>
        rw [Config.ofJson?_eq, Option.bind_eq_some_iff] at h
        obtain ⟨sections, hsections, h⟩ := h
        exact .json hread hsections (SettingsNotation.config?_eq_some_iff.1 h)
      · cases h
    | toml =>
      obtain ⟨sections, hread, h⟩ := Option.bind_eq_some_iff.1 h
      rw [Config.ofToml?_eq] at h
      exact .toml hread (SettingsNotation.config?_eq_some_iff.1 h)
  · intro h
    cases h with
    | json hread hsections holds =>
      unfold read? Config.readJson?
      dsimp only
      rw [hread]
      dsimp only
      rw [Config.ofJson?_eq, hsections]
      exact SettingsNotation.config?_eq_some_iff.2 holds
    | toml hread holds =>
      refine Option.bind_eq_some_iff.2 ⟨_, hread, ?_⟩
      rw [Config.ofToml?_eq]
      exact SettingsNotation.config?_eq_some_iff.2 holds

end LaserPath
