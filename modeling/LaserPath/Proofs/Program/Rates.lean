import LaserPath.Proofs.Program.Lines
import LaserPath.Proofs.Route.Rates
import LaserPath.Proofs.Shape.Rates

/-!
# Programs at other rates

The settings of the laser decide about rates and power and about nothing else. Two programs of a
selection under two of them have the same entries in the same order, and they differ in the rates
and the power of their motions only.

## Main definitions

* `Program.atRates` — a program set to other rates.

## Main statements

* `Program.assembled_atRates` — the program of a selection under other settings of the laser.
* `Program.ofSelection_atRates` — settings of the laser do not influence geometry.
-/

namespace LaserPath

namespace Entry

/-- The commands that an entry adds. -/
def toolpath : Entry → Toolpath
  | .block b => b.toolpath
  | .note t => t

def atRates (s : LaserSettings) : Entry → Entry
  | .block b => .block (b.atRates s)
  | .note t => .note (t.atRates s)

variable {s : LaserSettings}

@[simp] theorem isNote_atRates (e : Entry) : (e.atRates s).isNote = e.isNote := by
  cases e <;> rfl

/-- What is emitted and is not executed is a comment. -/
theorem Emitted.emits {e : Entry} (h : e.Emitted s) : ∀ c ∈ e.toolpath, s.Emits c := by
  cases e with
  | block b => exact h
  | note t =>
    intro c hc
    have hl := h c hc
    cases c with
    | comment text => exact .comment text
    | laserOn mode | laserOff mode =>
      cases mode <;> simp [Command.machineLines, Command.lines] at hl
    | rapid | cut | setup | endProgram => simp [Command.machineLines, Command.lines] at hl

end Entry

/-- The program for another laser: every command of its entries is at the rates of `s`. -/
def Program.atRates (s : LaserSettings) (p : Program) : Program :=
  { p with
    config := { p.config with laser := s }
    entries := p.entries.map (Entry.atRates s) }

variable (s₁ s₂ : LaserSettings)

theorem blocksOf_atRates (s : LaserSettings) (entries : List Entry) :
    blocksOf (entries.map (Entry.atRates s)) = (blocksOf entries).map (Block.atRates s) := by
  induction entries with
  | nil => rfl
  | cons e rest ih => cases e <;> simp [Entry.atRates, ih]

theorem Part.entry_atRates (s : LaserSettings) (p : Part) (id : Nat)
    (result : Except ShapeError Toolpath) :
    p.entry id (result.map (Toolpath.atRates s)) = (p.entry id result).atRates s := by
  cases result with
  | error error => rfl
  | ok t =>
    simp only [entry, Except.map, Toolpath.hasGeometry_atRates]
    split <;> rfl

theorem Part.atRates_compile (p : Part) :
    (p.compile s₁).map (Toolpath.atRates s₂) = p.compile s₂ :=
  p.shape.atRates_compile s₁ s₂ p.ancestors

namespace Program

theorem route_atRates (s : LaserSettings) (start : Point) (entries : List Entry) :
    route start (entries.map (Entry.atRates s)) =
      ((route start entries).1.map (Entry.atRates s), (route start entries).2) := by
  simp only [route, blocksOf_atRates, optimizeTravel_atRates, travelDistance_atRates,
    List.map_append, List.map_map, List.filter_map]
  congr 3
  simp [Function.comp_def]

variable (output : OutputSettings) (selection : List SelectedNode)

theorem plainEntries_atRates :
    plainEntries ⟨s₂, output⟩ selection =
      (plainEntries ⟨s₁, output⟩ selection).map (Entry.atRates s₂) := by
  rw [plainEntries_eq_map, plainEntries_eq_map, List.map_map]
  refine List.map_congr_left fun ⟨part, id⟩ _ => ?_
  rw [Function.comp_apply, ← Part.entry_atRates, Part.atRates_compile]

theorem skippedCount_atRates :
    skippedCount ⟨s₂, output⟩ selection = skippedCount ⟨s₁, output⟩ selection := by
  simp only [skippedCount, compileParts, List.countP_map, ← Part.atRates_compile s₁ s₂]
  congr 1
  funext part
  cases h : part.compile s₁ <;> simp [isFailure, Except.map, h]

/-- What is assembled for other settings of the laser is the same at other rates. -/
theorem assembled_atRates :
    assembled ⟨s₂, output⟩ selection = (assembled ⟨s₁, output⟩ selection).atRates s₂ := by
  unfold assembled
  rw [plainEntries_atRates s₁ s₂, skippedCount_atRates s₁ s₂]
  dsimp only
  split
  · rw [route_atRates]
    rfl
  · rfl

theorem emits_of_ofSelection {config : Config} {selection : List SelectedNode} {p : Program}
    (h : ofSelection config selection = .ok p) :
    ∀ e ∈ p.entries, ∀ c ∈ e.toolpath, config.laser.Emits c := by
  obtain ⟨-, -, -, rfl⟩ := ofSelection_eq_ok_iff.1 h
  exact fun e he => (emitted_entries config selection e he).emits

/-- Settings of the laser that pass do not influence geometry: a selection is refused under both
for the same reason, or its programs differ in rates and power only. What the parts add to the
program is comments and motions at the rates and the power of the settings. -/
theorem ofSelection_atRates (h₁ : s₁.check = .ok ()) (h₂ : s₂.check = .ok ()) :
    ofSelection ⟨s₂, output⟩ selection =
        (ofSelection ⟨s₁, output⟩ selection).map (atRates s₂) ∧
      generateProgram ⟨s₂, output⟩ selection =
        (ofSelection ⟨s₁, output⟩ selection).map (fun p => (p.atRates s₂).text) ∧
      ∀ p, ofSelection ⟨s₁, output⟩ selection = .ok p →
        ∀ e ∈ p.entries, ∀ c ∈ e.toolpath, s₁.Emits c := by
  have hprogram : ofSelection ⟨s₂, output⟩ selection =
      (ofSelection ⟨s₁, output⟩ selection).map (atRates s₂) := by
    have hcheck : Config.check ⟨s₂, output⟩ = Config.check ⟨s₁, output⟩ := by
      rw [Config.check, Config.check, h₁, h₂]
    rw [ofSelection_eq, ofSelection_eq, hcheck, skippedCount_atRates s₁ s₂,
      assembled_atRates s₁ s₂, plainEntries_atRates s₁ s₂, blocksOf_atRates, List.isEmpty_map]
    split
    · rfl
    · cases Config.check ⟨s₁, output⟩ with
      | error error => rfl
      | ok =>
        dsimp only
        split <;> rfl
  refine ⟨hprogram, ?_, fun p hp => emits_of_ofSelection hp⟩
  rw [generateProgram, hprogram]
  cases ofSelection ⟨s₁, output⟩ selection <;> simp only [Except.map]

/-- A line that ends close to the start, a circle, and a node of an unknown kind. -/
def workpieces : List SelectedNode :=
  [⟨.leaf ⟨"line", 50, 0, -40, 0, none⟩ .line, []⟩,
    ⟨.leaf ⟨"circle", 60, 0, 10, 10, none⟩ .ellipse, []⟩,
    ⟨.leaf ⟨"note", 0, 0, 1, 1, none⟩ (.unsupported "STICKY"), []⟩]

/-- The line is turned round whether the workpieces are cut slowly or fast. -/
theorem ofSelection_workpieces :
    ∃ p, ofSelection ⟨⟨600, 1200, 40⟩, {}⟩ workpieces = .ok p ∧
      ofSelection ⟨⟨1000, 3000, 255⟩, {}⟩ workpieces = .ok (p.atRates ⟨1000, 3000, 255⟩) ∧
      (blocksOf p.entries).map Block.isReversed = [true, false] := by
  obtain ⟨p, hp, hr⟩ := exists_ok_of_any
    (Q := fun p : Program => (blocksOf p.entries).map Block.isReversed = [true, false])
    (x := ofSelection ⟨⟨600, 1200, 40⟩, {}⟩ workpieces) (by decide +kernel)
  have h := (ofSelection_atRates ⟨600, 1200, 40⟩ ⟨1000, 3000, 255⟩ {} workpieces
    (by decide +kernel) (by decide +kernel)).1
  rw [hp] at h
  exact ⟨p, hp, h, hr⟩

end Program

end LaserPath
