import LaserPath.Config.File
import LaserPath.Proofs.Config.Json
import LaserPath.Proofs.Config.Toml
import LaserPath.Proofs.Files

/-!
# Settings in files, saved and loaded

Settings that pass are saved under every path that has the extension of a format and where the disk
takes their text. What is loaded from there afterwards are the same settings. Other settings and
other paths are refused before anything is written.

## Main statements

* `Session.exists_saveConfig_eq` — what saving does.
* `Session.loadConfig_saveConfig` — saved settings are loaded, and refused ones leave no trace.
-/

namespace LaserPath

variable {config : Config} {path text : String} {s : Session}

namespace ConfigFormat

theorem ofPath?_toml (h : Path.extension? path = some "toml") : ofPath? path = some .toml := by
  unfold ofPath?
  rw [h]
  rfl

theorem ofPath?_json (h : Path.extension? path = some "json") : ofPath? path = some .json := by
  unfold ofPath?
  rw [h]
  rfl

/-- Only two extensions are those of a format. -/
theorem ofPath?_eq_none (hj : Path.extension? path ≠ some "json")
    (ht : Path.extension? path ≠ some "toml") : ofPath? path = none := by
  unfold ofPath?
  split
  · next h => exact absurd h hj
  · next h => exact absurd h ht
  · rfl

end ConfigFormat

namespace Config

variable {format : ConfigFormat}

theorem fileText_eq (hc : config.check = .ok ()) (hf : ConfigFormat.ofPath? path = some format) :
    config.fileText path = .ok (format.write config) := by
  unfold fileText
  rw [hc, hf]
  rfl

/-- Settings that do not pass, or have no format, have no text. -/
theorem exists_fileText_eq_error
    (h : config.check ≠ .ok () ∨ ConfigFormat.ofPath? path = none) :
    ∃ error, config.fileText path = .error error := by
  unfold fileText
  cases hc : config.check with
  | error error => exact ⟨_, rfl⟩
  | ok =>
    rw [h.resolve_left (· hc)]
    exact ⟨_, rfl⟩

/-- Settings are loaded from a text that is read as settings that pass. -/
theorem ofFile_eq_ok_iff_exists : ofFile path text = .ok config ↔
    ∃ format, ConfigFormat.ofPath? path = some format ∧ format.read? text = some config ∧
      config.check = .ok () := by
  unfold ofFile
  cases ConfigFormat.ofPath? path with
  | none => simp
  | some format =>
    dsimp only
    cases hr : format.read? text with
    | none => simp [hr]
    | some found =>
      simp only [bind_eq_ok_iff, mapError_eq_ok_iff]
      constructor
      · rintro ⟨_, hc, ⟨⟩⟩
        exact ⟨format, rfl, hr, hc⟩
      · rintro ⟨_, ⟨⟩, hread, hc⟩
        obtain rfl := Option.some.inj (hr.symm.trans hread)
        exact ⟨(), hc, rfl⟩

theorem ofFile_eq_ok_iff {text : String} (hf : ConfigFormat.ofPath? path = some format)
    (hc : config.check = .ok ()) :
    ofFile path text = .ok config ↔ format.read? text = some config := by
  rw [ofFile_eq_ok_iff_exists, hf]
  simp [hc]

end Config

namespace Session

variable {disk : Disk} {files : FileSystem}

theorem saveConfig_of_ok (ht : config.fileText path = .ok text)
    (hw : disk.writeText s.files path text = (.ok (), files)) :
    disk.store.saveConfig config path s = (.ok (), { s with files }) := by
  have hwrite : disk.store.writeText path text s = (.ok (), { s with files }) := by
    unfold Disk.store
    dsimp only
    rw [hw]
  unfold FileStore.saveConfig
  rw [ht]
  simp only [bind, StateT.bind, hwrite]
  rfl

theorem saveConfig_of_error {error : ConfigError} (ht : config.fileText path = .error error) :
    disk.store.saveConfig config path s = (.error error, s) := by
  unfold FileStore.saveConfig
  rw [ht]
  rfl

theorem loadConfig_of_ok (hr : s.files.readText path = .ok text) :
    disk.store.loadConfig path s = (Config.ofFile path text, s) := by
  have hread : disk.store.readText path s = (.ok text, s) := by
    unfold Disk.store
    dsimp only
    rw [hr]
  unfold FileStore.loadConfig
  simp only [bind, StateT.bind, hread]
  rfl

/-- Settings that pass are saved in a format, and what is read from the file is their text. -/
theorem exists_saveConfig_eq {format : ConfigFormat} (hc : config.check = .ok ())
    (hf : ConfigFormat.ofPath? path = some format)
    (hw : ∀ text, config.fileText path = .ok text → disk.Writable s.files path text) :
    ∃ after, disk.store.saveConfig config path s = (.ok (), after) ∧
      disk.store.loadConfig path after = (Config.ofFile path (format.write config), after) := by
  have ht := Config.fileText_eq hc hf
  obtain ⟨files, hwrite⟩ := hw _ ht
  obtain ⟨place, hp, -, rfl⟩ := Disk.writeText_eq_ok_iff.1 hwrite
  exact ⟨_, saveConfig_of_ok ht hwrite, loadConfig_of_ok (FileSystem.readText_put hp _)⟩

/-- Settings that pass, saved under a path where their text can be written, are loaded as they were:
in TOML always, and in JSON exactly if the digits of their numbers are read with correct rounding.
Settings that do not pass, and other extensions, are refused and nothing is written. -/
theorem loadConfig_saveConfig (disk : Disk) (config : Config) (path : String) (s : Session) :
    (config.check = .ok () →
      (∀ text, config.fileText path = .ok text → disk.Writable s.files path text) →
        (Path.extension? path = some "toml" →
          ∃ after, disk.store.saveConfig config path s = (.ok (), after) ∧
            disk.store.loadConfig path after = (.ok config, after)) ∧
        (Path.extension? path = some "json" →
          ∃ after, disk.store.saveConfig config path s = (.ok (), after) ∧
            (disk.store.loadConfig path after = (.ok config, after) ↔
              ∀ x ∈ config.numbers, Json.ReadsNearest x))) ∧
    (config.check ≠ .ok () ∨
        (Path.extension? path ≠ some "json" ∧ Path.extension? path ≠ some "toml") →
      ∃ error, disk.store.saveConfig config path s = (.error error, s)) := by
  refine ⟨fun hc hw => ?_, fun h => ?_⟩
  · have hfinite : ∀ x ∈ config.numbers, x.isFinite = true :=
      fun _ => (Config.check_eq_ok_iff.1 hc).isFinite
    refine ⟨fun he => ?_, fun he => ?_⟩
    · have hf := ConfigFormat.ofPath?_toml he
      obtain ⟨after, hsave, hload⟩ := exists_saveConfig_eq hc hf hw
      have hread := (Config.ofFile_eq_ok_iff hf hc).2 (Config.readToml?_tomlText hfinite)
      exact ⟨after, hsave, hload.trans (congrArg (·, after) hread)⟩
    · have hf := ConfigFormat.ofPath?_json he
      obtain ⟨after, hsave, hload⟩ := exists_saveConfig_eq hc hf hw
      refine ⟨after, hsave, ?_⟩
      rw [hload, Prod.mk.injEq, eq_self after, and_true, Config.ofFile_eq_ok_iff hf hc]
      exact Config.readJson?_jsonText_iff hfinite
  · obtain ⟨error, ht⟩ := Config.exists_fileText_eq_error
      (h.imp_right fun he => ConfigFormat.ofPath?_eq_none he.1 he.2)
    exact ⟨error, saveConfig_of_error ht⟩

/-- A fraction, a negative zero and the least of all doubles above zero are loaded as they were
saved. -/
theorem loadConfig_saveConfig_of_least_start :
    let config : Config := ⟨⟨0.1, 3000, 1e300⟩, ⟨false, -0.0, 5e-324, true⟩⟩
    let s : Session := ⟨⟨[], []⟩, ""⟩
    (∃ after, store.saveConfig config "c.toml" s = (.ok (), after) ∧
        store.loadConfig "c.toml" after = (.ok config, after)) ∧
      (∃ after, store.saveConfig config "c.json" s = (.ok (), after) ∧
        store.loadConfig "c.json" after = (.ok config, after)) ∧
      ∃ error, store.saveConfig config "c.txt" s = (.error error, s) := by
  intro config s
  have hc : config.check = .ok () := by decide +kernel
  have hnearest : ∀ x ∈ config.numbers, Json.ReadsNearest x := by
    have hread : ∀ x ∈ config.numbers,
        x.isFinite = true ∧ (Json.ofFloat x).reread.float? = some x := by
      decide +kernel
    exact fun x hx => (Json.float?_reread_iff (hread x hx).1).1 (hread x hx).2
  have htoml := ((loadConfig_saveConfig .unlimited config "c.toml" s).1 hc
    (fun _ _ => ⟨_, rfl⟩)).1 (by decide +kernel)
  obtain ⟨after, hsave, hload⟩ := ((loadConfig_saveConfig .unlimited config "c.json" s).1 hc
    (fun _ _ => ⟨_, rfl⟩)).2 (by decide +kernel)
  exact ⟨htoml, ⟨after, hsave, hload.2 hnearest⟩,
    (loadConfig_saveConfig .unlimited config "c.txt" s).2 (.inr (by decide +kernel))⟩

end Session

end LaserPath
