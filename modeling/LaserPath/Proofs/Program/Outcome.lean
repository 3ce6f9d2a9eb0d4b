import LaserPath.Proofs.Program.Accounts
import LaserPath.Proofs.Settings

/-!
# When there is a program

What becomes of a selection is decided in a fixed order: nothing is selected, the settings have a
fault, no part moves the head, or there is a program. Parts that cannot be drawn decide nothing by
themselves, and neither does the router.

## Main definitions

* `Part.Moves` — a part whose compilation moves the head.
* `Program.Decided` — how an outcome is decided.

## Main statements

* `decided_generateProgram` — the outcome of every selection is decided so.
-/

namespace LaserPath

/-- The part is compiled, and its toolpath has a motion. -/
def Part.Moves (settings : LaserSettings) (p : Part) : Prop :=
  ∃ t, p.compile settings = .ok t ∧ ∃ c ∈ t, c.isMotion = true

/-- The configuration with the router on or off. -/
def Config.withRouter (c : Config) (on : Bool) : Config :=
  { c with output := { c.output with optimizeTravel := on } }

theorem Part.moves_iff {settings : LaserSettings} {p : Part} :
    p.Moves settings ↔ (p.compile settings).toOption.any Toolpath.hasGeometry = true := by
  unfold Moves
  cases p.compile settings with
  | error error => simp [Except.toOption]
  | ok t => simp [Except.toOption, Toolpath.hasGeometry]

instance (settings : LaserSettings) (p : Part) : Decidable (p.Moves settings) :=
  decidable_of_iff _ Part.moves_iff.symm

theorem Part.block?_entry_eq_none_iff (settings : LaserSettings) (p : Part) (id : Nat) :
    (p.entry id (p.compile settings)).block? = none ↔ ¬ p.Moves settings := by
  rw [moves_iff]
  unfold entry
  cases p.compile settings with
  | error error => simp [Except.toOption, Entry.block?]
  | ok t => cases h : t.hasGeometry <;> simp [h, Except.toOption, Entry.block?]

namespace Program

/-- How the outcome of a selection is decided. -/
structure Decided (config : Config) (selection : List SelectedNode)
    (outcome : Except ProgramError String) : Prop where
  /-- An empty selection is refused before anything else. -/
  emptySelection : outcome = .error .emptySelection ↔ selection = []
  /-- Settings are refused for their first fault, whatever is selected. -/
  settings : ∀ fault, outcome = .error (.settings fault) ↔
    selection ≠ [] ∧ config.FirstFault fault
  /-- Some fault is reported exactly if the settings do not pass. -/
  invalid : (∃ fault, outcome = .error (.settings fault)) ↔ selection ≠ [] ∧ ¬ config.Valid
  /-- There has to be a part that moves the head; the parts that cannot be drawn are counted. -/
  emptyResult : ∀ skipped, outcome = .error (.emptyResult skipped) ↔
    selection ≠ [] ∧ config.Valid ∧ (∀ part ∈ parts selection, ¬ part.Moves config.laser) ∧
      skipped = (parts selection).countP fun part =>
        (part.compile config.laser).toOption.isNone
  /-- Nothing else is refused. -/
  program : (∃ text, outcome = .ok text) ↔
    selection ≠ [] ∧ config.Valid ∧ ∃ part ∈ parts selection, part.Moves config.laser

theorem isEmpty_blocksOf_plainEntries (config : Config) (selection : List SelectedNode) :
    (blocksOf (plainEntries config selection)).isEmpty = true ↔
      ∀ part ∈ parts selection, ¬ part.Moves config.laser := by
  rw [List.isEmpty_iff, blocksOf, List.filterMap_eq_nil_iff, forall_plainEntries_iff]
  simp only [Part.block?_entry_eq_none_iff, List.mem_iff_getElem?]
  grind

theorem generateProgram_eq (config : Config) (selection : List SelectedNode) :
    generateProgram config selection =
      if selection.isEmpty then .error .emptySelection
      else match config.check with
        | .error error => .error (.settings error)
        | .ok () =>
          if (blocksOf (plainEntries config selection)).isEmpty then
            .error (.emptyResult (skippedCount config selection))
          else .ok (assembled config selection).text := by
  rw [generateProgram, ofSelection_eq]
  cases selection.isEmpty with
  | true => rfl
  | false =>
    cases config.check with
    | error error => rfl
    | ok => cases (blocksOf (plainEntries config selection)).isEmpty <;> rfl

/-- The outcome of a selection whose settings pass depends on whether a part moves the head. -/
theorem generateProgram_cases {config : Config} {selection : List SelectedNode}
    (hs : selection ≠ []) (hv : config.Valid) :
    ((∀ part ∈ parts selection, ¬ part.Moves config.laser) ∧
      generateProgram config selection =
        .error (.emptyResult (skippedCount config selection))) ∨
    ((∃ part ∈ parts selection, part.Moves config.laser) ∧
      generateProgram config selection = .ok (assembled config selection).text) := by
  have hb := isEmpty_blocksOf_plainEntries config selection
  rw [generateProgram_eq, if_neg (by simpa using hs), Config.check_eq_ok_iff.2 hv]
  dsimp only
  split
  · next h => exact .inl ⟨hb.1 h, rfl⟩
  · next h =>
    rw [hb] at h
    exact .inr ⟨by simpa using h, rfl⟩

/-- Settings that do not pass decide the outcome of a selection. -/
theorem decided_of_not_valid {config : Config} {selection : List SelectedNode}
    (hs : selection ≠ []) (hv : ¬ config.Valid) :
    Decided config selection (generateProgram config selection) := by
  rcases config.check_cases with ⟨-, hc⟩ | ⟨fault, hc, hf⟩
  · exact absurd hc hv
  have h : generateProgram config selection = .error (.settings fault) := by
    rw [generateProgram_eq, if_neg (by simpa using hs), hc]
  have he : ∀ other, fault = other ↔ config.FirstFault other := by
    intro other
    refine ⟨?_, hf.eq⟩
    rintro rfl
    exact hf
  have hsome : ∃ other, config.FirstFault other := ⟨fault, hf⟩
  rw [h]
  constructor <;> simp [hs, hv, he, hsome]

/-- The parts of a selection decide the outcome if the settings pass. -/
theorem decided_of_valid {config : Config} {selection : List SelectedNode}
    (hs : selection ≠ []) (hv : config.Valid) :
    Decided config selection (generateProgram config selection) := by
  have hf : ∀ fault, ¬ config.FirstFault fault := fun fault h => h.not_valid hv
  rcases generateProgram_cases hs hv with ⟨hm, h⟩ | ⟨⟨part, hp, hm⟩, h⟩ <;> rw [h]
  · have hn : ¬ ∃ part ∈ parts selection, part.Moves config.laser := by
      rintro ⟨part, hp, hp'⟩
      exact hm part hp hp'
    refine ⟨by simp [hs], by simp [hf], by simp [hv], fun skipped => ?_, by simp [hn]⟩
    rw [Except.error.injEq, ProgramError.emptyResult.injEq, skippedCount_eq]
    exact ⟨fun he => ⟨hs, hv, hm, he.symm⟩, fun he => he.2.2.2.symm⟩
  · refine ⟨by simp [hs], by simp [hf], by simp [hv], fun skipped => ?_, ?_⟩
    · exact iff_of_false nofun fun he => he.2.2.1 part hp hm
    · exact iff_of_true ⟨_, rfl⟩ ⟨hs, hv, part, hp, hm⟩

theorem decided (config : Config) (selection : List SelectedNode) :
    Decided config selection (generateProgram config selection) := by
  by_cases hs : selection = []
  · have h : generateProgram config selection = .error .emptySelection := by
      rw [generateProgram_eq, hs]
      rfl
    rw [h]
    constructor <;> simp [hs]
  · by_cases hv : config.Valid
    · exact decided_of_valid hs hv
    · exact decided_of_not_valid hs hv

/-- Settings that pass are no reason to refuse a selection. -/
theorem error_cases_of_valid {config : Config} {selection : List SelectedNode}
    {error : ProgramError} (hv : config.Valid)
    (h : generateProgram config selection = .error error) :
    error = .emptySelection ∨ ∃ skipped, error = .emptyResult skipped := by
  cases error with
  | emptySelection => exact .inl rfl
  | settings fault =>
    obtain ⟨-, hinvalid⟩ := (decided config selection).invalid.1 ⟨fault, h⟩
    exact absurd hv hinvalid
  | emptyResult skipped => exact .inr ⟨skipped, rfl⟩

/-- The outcome of every selection is decided in this order, and the router decides nothing. -/
theorem decided_generateProgram (config : Config) (selection : List SelectedNode) :
    Decided config selection (generateProgram config selection) ∧
      ∀ on, (generateProgram (config.withRouter on) selection).map (fun _ => ()) =
        (generateProgram config selection).map fun _ => () := by
  refine ⟨decided config selection, fun on => ?_⟩
  have hcheck : (config.withRouter on).check = config.check := rfl
  have hplain : plainEntries (config.withRouter on) selection = plainEntries config selection := rfl
  rw [generateProgram_eq, generateProgram_eq, hcheck, hplain]
  split
  · rfl
  · split
    · rfl
    · split <;> rfl

end Program

end LaserPath
