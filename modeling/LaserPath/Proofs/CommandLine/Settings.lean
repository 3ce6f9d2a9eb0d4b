import LaserPath.CommandLine.Run
import LaserPath.Proofs.Config.File
import LaserPath.Proofs.Config.Sections
import LaserPath.Proofs.Program.Outcome

/-!
# The settings of a run

A run begins with the settings that a file holds, or with the defaults, and puts the given settings
in their places. Settings that do not pass are refused before this and after it. So what a run
compiles a selection with always passes.

## Main definitions

* `ConfigSource` — the file that the settings of a run come from.
* `BaseConfig` — the settings that the file holds, or the defaults.
* `Overrides.Merges` — settings with given ones in their places.

## Main statements

* `Overrides.merges_iff` — the given settings are put in their places.
* `Session.resolveConfig_run` — when a run has settings, and which.
-/

namespace LaserPath

/-- Where the settings of a run come from: the file that is asked for, or that of the user if it is
there, or no file. -/
inductive ConfigSource (files : FileSystem) (around : Surroundings) (request : Request) :
    Option String → Prop where
  | asked {path : String} (h : request.config? = some path) :
    ConfigSource files around request (some path)
  | user {path : String} (h : request.config? = none) (hu : around.userConfig? = some path)
    (hthere : files.contains path = true) : ConfigSource files around request (some path)
  | nowhere (h : request.config? = none)
    (hu : ∀ path, around.userConfig? = some path → files.contains path = false) :
    ConfigSource files around request none

/-- The settings of a run before any are overridden: those that its file holds, or the defaults. -/
inductive BaseConfig (files : FileSystem) (around : Surroundings) (request : Request) :
    Config → Prop where
  | file {path text : String} {format : ConfigFormat} {base : Config}
    (hsource : ConfigSource files around request (some path))
    (hread : files.readText path = .ok text) (hformat : ConfigFormat.ofPath? path = some format)
    (holds : format.Holds text base) : BaseConfig files around request base
  | default (hsource : ConfigSource files around request none) : BaseConfig files around request {}

/-- The settings `c` are those of `base` with the given ones in their places. Neither switch can
be turned on. -/
structure Overrides.Merges (o : Overrides) (base c : Config) : Prop where
  feedRate : GivenOr Eq base.laser.feedRate o.feedRate? c.laser.feedRate
  rapidFeedRate : GivenOr Eq base.laser.rapidFeedRate o.rapidFeedRate? c.laser.rapidFeedRate
  power : GivenOr Eq base.laser.power o.power? c.laser.power
  startX : GivenOr Eq base.output.startX o.startX? c.output.startX
  startY : GivenOr Eq base.output.startY o.startY? c.output.startY
  optimizeTravel : c.output.optimizeTravel = true ↔
    base.output.optimizeTravel = true ∧ o.keepsOrder = false
  inlineLaser : c.output.inlineLaser = true ↔
    base.output.inlineLaser = true ∧ o.plainLaser = false

/-- The given settings, and no others, are put in their places. -/
theorem Overrides.merges_iff {o : Overrides} {base c : Config} :
    o.Merges base c ↔ c = o.apply base := by
  constructor
  · rintro ⟨hfeed, hrapid, hpower, hx, hy, htravel, hinline⟩
    obtain ⟨⟨feedRate, rapidFeedRate, power⟩, ⟨optimizeTravel, startX, startY, inlineLaser⟩⟩ := c
    rw [GivenOr.eq_iff] at hfeed hrapid hpower hx hy
    dsimp only at hfeed hrapid hpower hx hy htravel hinline
    simp only [apply, hfeed, hrapid, hpower, hx, hy, Config.mk.injEq, OutputSettings.mk.injEq,
      true_and]
    constructor
    · rw [Bool.eq_iff_iff, htravel]
      simp
    · rw [Bool.eq_iff_iff, hinline]
      simp
  · rintro rfl
    constructor <;> simp [apply, GivenOr.eq_iff]

/-- Settings are checked with the given ones in their places. -/
theorem Overrides.resolve_eq_ok_iff {o : Overrides} {base c : Config} :
    o.resolve base = .ok c ↔ c.Valid ∧ o.Merges base c := by
  simp only [resolve, bind_eq_ok_iff, mapError_eq_ok_iff, merges_iff]
  constructor
  · rintro ⟨_, hcheck, ⟨⟩⟩
    exact ⟨Config.check_eq_ok_iff.1 hcheck, rfl⟩
  · rintro ⟨hvalid, rfl⟩
    exact ⟨(), Config.check_eq_ok_iff.2 hvalid, rfl⟩

/-! ## Steps of a run -/

namespace Session

variable {α β ε : Type} {x : ExceptT RunError (StateM Session) α}
  {f : α → ExceptT RunError (StateM Session) β} {s t : Session}

/-- A run goes on from where a step has ended. -/
theorem run_bind_of_ok {a : α} (h : x.run s = (.ok a, t)) : (x >>= f).run s = (f a).run t := by
  simp only [ExceptT.bind, ExceptT.run, ExceptT.mk, bind, StateT.bind] at h ⊢
  rw [h]
  rfl

/-- A step that fails ends a run. -/
theorem run_bind_of_error {error : RunError} (h : x.run s = (.error error, t)) :
    (x >>= f).run s = (.error error, t) := by
  simp only [ExceptT.bind, ExceptT.run, ExceptT.mk, bind, StateT.bind] at h ⊢
  rw [h]
  rfl

theorem run_liftExcept (result : Except RunError α) (s : Session) :
    (liftExcept result : ExceptT RunError (StateM Session) α).run s = (result, s) := by
  cases result <;> rfl

theorem run_orFail (failure : ε → RunError) (result : Except ε α) (s : Session) :
    (orFail failure result : ExceptT RunError (StateM Session) α).run s =
      (result.mapError failure, s) :=
  run_liftExcept _ s

/-- What cannot fail is a step as it is. -/
theorem run_liftM {y : StateM Session α} {a : α} (h : y s = (a, t)) :
    (liftM y : ExceptT RunError (StateM Session) α).run s = (.ok a, t) := by
  have hrun : (liftM y : ExceptT RunError (StateM Session) α).run s = (.ok (y s).1, (y s).2) := rfl
  rw [hrun, h]

/-! ## Settings -/

/-- A run looks for its file, and nothing changes. -/
theorem configPath?_eq (disk : Disk) (around : Surroundings) (request : Request) (s : Session) :
    ∃ source, disk.store.configPath? around request s = (source, s) ∧
      ∀ other, ConfigSource s.files around request other ↔ other = source := by
  unfold FileStore.configPath?
  cases hc : request.config? with
  | some path =>
    refine ⟨some path, rfl, fun other => ⟨?_, ?_⟩⟩
    · intro h
      cases h <;> simp_all
    · rintro rfl
      exact .asked hc
  | none =>
    cases hu : around.userConfig? with
    | none =>
      refine ⟨none, rfl, fun other => ⟨?_, ?_⟩⟩
      · intro h
        cases h <;> simp_all
      · rintro rfl
        exact .nowhere hc (by simp [hu])
    | some path =>
      refine ⟨if s.files.contains path then some path else none, rfl, fun other => ⟨?_, ?_⟩⟩
      · intro h
        cases h <;> simp_all
      · rintro rfl
        split
        · next hthere => exact .user hc hu hthere
        · next hthere => exact .nowhere hc (by simp_all)

/-- The settings of a file are those that its text holds, if they pass. -/
theorem loadConfig_eq (disk : Disk) (path : String) (s : Session) :
    ∃ result, disk.store.loadConfig path s = (result, s) ∧ ∀ base, result = .ok base ↔
      ∃ text format, s.files.readText path = .ok text ∧ ConfigFormat.ofPath? path = some format ∧
        format.Holds text base ∧ base.Valid := by
  cases hread : s.files.readText path with
  | error error =>
    refine ⟨.error (.file error), ?_, by simp⟩
    unfold FileStore.loadConfig
    have hstep : disk.store.readText path s = (.error error, s) := congrArg (·, s) hread
    simp only [bind, StateT.bind, hstep]
    rfl
  | ok text =>
    refine ⟨Config.ofFile path text, loadConfig_of_ok hread, fun base => ?_⟩
    simp only [Config.ofFile_eq_ok_iff_exists, ConfigFormat.read?_eq_some_iff,
      Config.check_eq_ok_iff, Except.ok.injEq]
    constructor
    · rintro ⟨format, hformat, holds, hvalid⟩
      exact ⟨text, format, rfl, hformat, holds, hvalid⟩
    · rintro ⟨_, format, rfl, hformat, holds, hvalid⟩
      exact ⟨format, hformat, holds, hvalid⟩

theorem default_valid : ({} : Config).Valid := Config.check_eq_ok_iff.1 (by decide)

/-- The settings before any are overridden pass, or a run fails. -/
theorem baseConfig_eq (disk : Disk) (around : Surroundings) (request : Request) (s : Session) :
    ∃ result, (disk.store.baseConfig around request).run s = (result, s) ∧
      ∀ base, result = .ok base ↔ BaseConfig s.files around request base ∧ base.Valid := by
  obtain ⟨source, hsource, hunique⟩ := configPath?_eq disk around request s
  unfold FileStore.baseConfig
  rw [run_bind_of_ok (run_liftM hsource)]
  cases source with
  | none =>
    refine ⟨.ok {}, rfl, fun base => ?_⟩
    have hnowhere := (hunique none).2 rfl
    constructor
    · rintro ⟨⟩
      exact ⟨.default hnowhere, default_valid⟩
    · rintro ⟨hbase, -⟩
      cases hbase with
      | file hsource => cases (hunique _).1 hsource
      | default => rfl
  | some path =>
    obtain ⟨result, hload, hresult⟩ := loadConfig_eq disk path s
    refine ⟨result.mapError (.loadConfig path), ?_, fun base => ?_⟩
    · rw [run_bind_of_ok (run_liftM hload)]
      exact run_orFail _ result s
    have hsource := (hunique (some path)).2 rfl
    rw [mapError_eq_ok_iff, hresult]
    constructor
    · rintro ⟨text, format, hread, hformat, holds, hvalid⟩
      exact ⟨.file hsource hread hformat holds, hvalid⟩
    · rintro ⟨hbase, hvalid⟩
      cases hbase with
      | @file other text format _ hother hread hformat holds =>
        obtain rfl := Option.some.inj ((hunique _).1 hother)
        exact ⟨text, format, hread, hformat, holds, hvalid⟩
      | default hnowhere => cases (hunique _).1 hnowhere

/-- A run has settings if and only if those of its file, or the defaults, pass and pass again with
the given ones in their places. Nothing changes meanwhile. -/
theorem resolveConfig_eq (disk : Disk) (around : Surroundings) (request : Request) (s : Session) :
    ∃ result, (disk.store.resolveConfig around request).run s = (result, s) ∧
      ∀ c, result = .ok c ↔ ∃ base, BaseConfig s.files around request base ∧ base.Valid ∧
        c.Valid ∧ request.overrides.Merges base c := by
  obtain ⟨result, hbase, hresult⟩ := baseConfig_eq disk around request s
  unfold FileStore.resolveConfig
  cases result with
  | error error =>
    refine ⟨.error error, run_bind_of_error hbase, fun c => iff_of_false nofun ?_⟩
    rintro ⟨base, hholds, hvalid, -⟩
    cases (hresult base).2 ⟨hholds, hvalid⟩
  | ok base =>
    refine ⟨request.overrides.resolve base, ?_, fun c => ?_⟩
    · rw [run_bind_of_ok hbase]
      exact run_liftExcept _ s
    obtain ⟨hholds, hvalid⟩ := (hresult base).1 rfl
    rw [Overrides.resolve_eq_ok_iff]
    constructor
    · rintro ⟨hc, hmerges⟩
      exact ⟨base, hholds, hvalid, hc, hmerges⟩
    · rintro ⟨other, hother, hvalid, hc, hmerges⟩
      obtain rfl := Except.ok.inj ((hresult other).2 ⟨hother, hvalid⟩)
      exact ⟨hc, hmerges⟩

/-- The settings of a run, and that no program is refused for them. -/
theorem resolveConfig_run (disk : Disk) (around : Surroundings) (request : Request) (s : Session) :
    ∃ result, (disk.store.resolveConfig around request).run s = (result, s) ∧
      (∀ c, result = .ok c ↔ ∃ base, BaseConfig s.files around request base ∧ base.Valid ∧
        c.Valid ∧ request.overrides.Merges base c) ∧
      ∀ c selection error, result = .ok c → generateProgram c selection = .error error →
        error = .emptySelection ∨ ∃ skipped, error = .emptyResult skipped := by
  obtain ⟨result, hrun, hresult⟩ := resolveConfig_eq disk around request s
  refine ⟨result, hrun, hresult, fun c selection error hc herror => ?_⟩
  obtain ⟨base, -, -, hvalid, -⟩ := (hresult c).1 hc
  exact Program.error_cases_of_valid hvalid herror

/-- A file gives one number of either section, and one of them is overridden. -/
theorem resolveConfig_run_of_partial_file :
    let text := "[laser]\nfeed_rate = 500\n[output]\nstart_x = 2.5\n"
    let s : Session := ⟨⟨[], [(["c.toml"], .file text.toUTF8)]⟩, ""⟩
    let overrides : Overrides := { power? := some 80, startX? := some (-1), keepsOrder := true }
    let request : Request := { scene := "s.json", config? := some "c.toml", overrides }
    let c : Config := ⟨⟨500, 3000, 80⟩, ⟨false, -1, 0, true⟩⟩
    (store.resolveConfig ⟨none, ⟨0⟩⟩ request).run s = (.ok c, s) ∧
      ∃ error, generateProgram c [⟨.leaf ⟨"", 0, 0, 1, 1, none⟩ (.unsupported "WIDGET"), []⟩] =
          .error error ∧
        (error = .emptySelection ∨ ∃ skipped, error = .emptyResult skipped) := by
  intro text s overrides request c
  obtain ⟨result, hrun, hresult, herror⟩ := resolveConfig_run .unlimited ⟨none, ⟨0⟩⟩ request s
  have hread : s.files.readText "c.toml" = .ok text := by decide +kernel
  have hholds : ConfigFormat.toml.Holds text ⟨⟨500, 3000, 255⟩, ⟨true, 2.5, 0, true⟩⟩ :=
    ConfigFormat.read?_eq_some_iff.1 (by decide +kernel)
  have hc : result = .ok c := (hresult c).2 ⟨_, .file (.asked rfl) hread (by decide +kernel) hholds,
    Config.check_eq_ok_iff.1 (by decide +kernel), Config.check_eq_ok_iff.1 (by decide +kernel),
    Overrides.merges_iff.2 (by decide +kernel)⟩
  have hprogram : generateProgram c [⟨.leaf ⟨"", 0, 0, 1, 1, none⟩ (.unsupported "WIDGET"), []⟩] =
      .error (.emptyResult 0) := by
    decide +kernel
  exact ⟨hc ▸ hrun, _, hprogram, herror c _ _ hc hprogram⟩

end Session

end LaserPath
