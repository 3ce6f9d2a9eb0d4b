import LaserPath.Program
import LaserPath.Proofs.Route.Conservation
import LaserPath.Proofs.Toolpath.Reversal

/-!
# How a program is put together

A program holds what its parts add to it, in the order of the parts, or with the notes first
and the blocks behind them as the router leaves them.

## Main definitions

* `Program.motions`, `Program.motionLines` — the motions of the blocks, and their lines.
* `Program.plainEntries` — what the parts of a selection add, in their order.
* `Program.assembled` — the program of a selection if nothing is refused.
* `Program.Rearranged` — what the router makes of entries.

## Main statements

* `Program.ofSelection_eq`, `Program.ofSelection_eq_ok_iff` — when there is a program, and which.
* `Program.forall_entries_iff` — a property that the router does not touch holds of the entries
  of a program if and only if it holds of what the parts add.
-/

namespace LaserPath

theorem Toolpath.isMotion_eq_false {t : Toolpath} (h : t.hasGeometry = false) :
    ∀ c ∈ t, c.isMotion = false := by
  simpa [hasGeometry] using h

@[simp] theorem blocksOf_nil : blocksOf [] = [] := rfl

@[simp] theorem blocksOf_cons_block (b : Block) (rest : List Entry) :
    blocksOf (.block b :: rest) = b :: blocksOf rest :=
  rfl

@[simp] theorem blocksOf_cons_note (t : Toolpath) (rest : List Entry) :
    blocksOf (.note t :: rest) = blocksOf rest :=
  rfl

@[simp] theorem blocksOf_append (s t : List Entry) :
    blocksOf (s ++ t) = blocksOf s ++ blocksOf t :=
  List.filterMap_append

@[simp] theorem blocksOf_map_block (blocks : List Block) :
    blocksOf (blocks.map .block) = blocks := by
  induction blocks with
  | nil => rfl
  | cons b rest ih => rw [List.map_cons, blocksOf_cons_block, ih]

@[simp] theorem blocksOf_filter_isNote (entries : List Entry) :
    blocksOf (entries.filter Entry.isNote) = [] := by
  induction entries with
  | nil => rfl
  | cons e rest ih =>
    cases e with
    | block b => rwa [List.filter_cons_of_neg (by simp [Entry.isNote])]
    | note t => rwa [List.filter_cons_of_pos rfl, blocksOf_cons_note]

theorem mem_blocksOf {entries : List Entry} {b : Block} :
    b ∈ blocksOf entries ↔ .block b ∈ entries := by
  induction entries with
  | nil => simp
  | cons e rest ih => cases e <;> simp [ih]

namespace Program

/-- The motions of the blocks, in the order of the program. -/
def motions (p : Program) : Toolpath :=
  (blocksOf p.entries).flatMap fun b => b.toolpath.filter Command.isMotion

/-- The lines of the motions. -/
def motionLines (p : Program) : List String := p.motions.flatMap Command.lines

/-- What the parts of a selection add to its program, in the order of the parts. -/
def plainEntries (config : Config) (selection : List SelectedNode) : List Entry :=
  entriesOf (compileParts config.laser selection)

/-- The notes first, and behind them the blocks in some order, each as it was or turned round. -/
def Rearranged (plain entries : List Entry) : Prop :=
  ∃ order routed : List Block, order.Perm (blocksOf plain) ∧
    List.Forall₂ Block.Routed order routed ∧
    entries = plain.filter Entry.isNote ++ routed.map .block

/-- The number of parts of a selection that cannot be drawn. -/
def skippedCount (config : Config) (selection : List SelectedNode) : Nat :=
  (compileParts config.laser selection).countP (isFailure ·.2)

/-- The program of a selection if nothing is refused. -/
def assembled (config : Config) (selection : List SelectedNode) : Program :=
  let plain := plainEntries config selection
  let skipped := skippedCount config selection
  if config.output.optimizeTravel then
    let (entries, travel) := route config.output.start plain
    ⟨selection.length, config, some travel, entries, skipped⟩
  else ⟨selection.length, config, none, plain, skipped⟩

section

variable {config : Config} {selection : List SelectedNode} {p : Program}

/-- The refusals of a selection in their order, and its program if there is none. -/
theorem ofSelection_eq (config : Config) (selection : List SelectedNode) :
    ofSelection config selection =
      if selection.isEmpty then .error .emptySelection
      else match config.check with
        | .error error => .error (.settings error)
        | .ok () =>
          if (blocksOf (plainEntries config selection)).isEmpty then
            .error (.emptyResult (skippedCount config selection))
          else .ok (assembled config selection) := by
  unfold ofSelection plainEntries skippedCount assembled
  cases selection.isEmpty with
  | true => rfl
  | false =>
    cases config.check with
    | error error => rfl
    | ok =>
      cases hb : (blocksOf (entriesOf (compileParts config.laser selection))).isEmpty with
      | true => simp [hb, bind, Except.bind, Except.mapError]
      | false =>
        cases config.output.optimizeTravel <;>
          simp [hb, plainEntries, skippedCount, bind, Except.bind, Except.mapError, pure,
            Except.pure]

/-- There is a program if something is selected, the settings pass and a part moves the head. -/
theorem ofSelection_eq_ok_iff :
    ofSelection config selection = .ok p ↔
      selection.isEmpty = false ∧ config.check = .ok () ∧
        (blocksOf (plainEntries config selection)).isEmpty = false ∧
          assembled config selection = p := by
  rw [ofSelection_eq]
  cases hs : selection.isEmpty with
  | true => simp
  | false =>
    cases hc : config.check with
    | error error => simp
    | ok =>
      cases (blocksOf (plainEntries config selection)).isEmpty <;> simp

/-- The text of the program of a selection is that of its program. -/
theorem exists_of_generateProgram {text : String}
    (h : generateProgram config selection = .ok text) :
    ∃ p, ofSelection config selection = .ok p ∧ p.text = text := by
  unfold generateProgram at h
  exact exists_ok_of_map_eq_ok h

theorem generateProgram_eq_ok (h : ofSelection config selection = .ok p) :
    generateProgram config selection = .ok p.text := by
  rw [generateProgram, h]
  rfl

theorem entries_assembled (h : config.output.optimizeTravel = false) :
    (assembled config selection).entries = plainEntries config selection := by
  rw [assembled, if_neg (by simp [h])]

theorem rearranged_assembled (h : config.output.optimizeTravel = true) :
    Rearranged (plainEntries config selection) (assembled config selection).entries := by
  obtain ⟨order, hp, hf⟩ := exists_perm_optimizeTravel config.output.start
    (blocksOf (plainEntries config selection))
  rw [assembled, if_pos h]
  exact ⟨order, _, hp, hf, rfl⟩

end

/-- What holds of all elements of a list and is passed on by a relation holds of all elements
of a related list. -/
theorem forall_mem_of_forall₂ {α β : Type} {R : α → β → Prop} {l : List α} {m : List β}
    (hf : List.Forall₂ R l m) {P : α → Prop} {Q : β → Prop} (hR : ∀ a b, R a b → P a → Q b)
    (h : ∀ a ∈ l, P a) : ∀ b ∈ m, Q b := by
  induction hf with
  | nil => simp
  | cons hab _ ih =>
    rw [List.forall_mem_cons] at h ⊢
    exact ⟨hR _ _ hab h.1, ih h.2⟩

theorem forall_mem_notes_blocks {entries : List Entry} {Q : Entry → Prop} :
    (∀ e ∈ entries, Q e) ↔
      (∀ e ∈ entries.filter Entry.isNote, Q e) ∧ ∀ b ∈ blocksOf entries, Q (.block b) := by
  constructor
  · intro h
    exact ⟨fun e he => h e (List.mem_filter.1 he).1, fun b hb => h _ (mem_blocksOf.1 hb)⟩
  · rintro ⟨hn, hb⟩ (b | t) he
    · exact hb b (mem_blocksOf.2 he)
    · exact hn _ (List.mem_filter.2 ⟨he, rfl⟩)

section

variable {plain entries : List Entry} {Q : Entry → Prop}

/-- What the router passes on holds of all entries behind it. -/
theorem Rearranged.forall_mem (h : Rearranged plain entries)
    (hQ : ∀ b b' : Block, .block b ∈ plain → b.Routed b' → Q (.block b) → Q (.block b'))
    (hp : ∀ e ∈ plain, Q e) : ∀ e ∈ entries, Q e := by
  obtain ⟨order, routed, hperm, hf, rfl⟩ := h
  obtain ⟨hn, hb⟩ := forall_mem_notes_blocks.1 hp
  have hmem : ∀ b ∈ order, .block b ∈ plain := fun b hm => mem_blocksOf.1 (hperm.mem_iff.1 hm)
  have hf' := (List.forall₂_and_left _ _).2 ⟨hmem, hf⟩
  rw [List.forall_mem_append, List.forall_mem_map]
  refine ⟨hn, forall_mem_of_forall₂ hf' (fun b b' hr => hQ b b' hr.1 hr.2) ?_⟩
  intro b hm
  exact hb b (hperm.mem_iff.1 hm)

/-- What the router takes back holds of all entries in front of it. -/
theorem Rearranged.forall_mem_plain (h : Rearranged plain entries)
    (hQ : ∀ b b' : Block, .block b ∈ plain → b.Routed b' → Q (.block b') → Q (.block b))
    (he : ∀ e ∈ entries, Q e) : ∀ e ∈ plain, Q e := by
  obtain ⟨order, routed, hperm, hf, rfl⟩ := h
  rw [List.forall_mem_append, List.forall_mem_map] at he
  have hmem : ∀ b ∈ order, .block b ∈ plain := fun b hm => mem_blocksOf.1 (hperm.mem_iff.1 hm)
  have hf' := (List.forall₂_and_left _ _).2 ⟨hmem, hf⟩
  have hb := forall_mem_of_forall₂ hf'.flip (fun b' b hr => hQ b b' hr.1 hr.2) he.2
  exact forall_mem_notes_blocks.2 ⟨he.1, fun b hm => hb b (hperm.mem_iff.2 hm)⟩

end

section

variable {config : Config} {selection : List SelectedNode} {Q : Entry → Prop}

/-- What holds of all that the parts of a selection add and is passed on by the router holds of
the entries of the program. -/
theorem forall_entries
    (hQ : ∀ b b' : Block, .block b ∈ plainEntries config selection → b.Routed b' →
      Q (.block b) → Q (.block b'))
    (h : ∀ e ∈ plainEntries config selection, Q e) :
    ∀ e ∈ (assembled config selection).entries, Q e := by
  cases ho : config.output.optimizeTravel with
  | false => rwa [entries_assembled ho]
  | true => exact (rearranged_assembled ho).forall_mem hQ h

/-- A property that the router does not touch holds of the entries of a program if and only if
it holds of what the parts of the selection add. -/
theorem forall_entries_iff
    (hQ : ∀ b b' : Block, .block b ∈ plainEntries config selection → b.Routed b' →
      (Q (.block b) ↔ Q (.block b'))) :
    (∀ e ∈ (assembled config selection).entries, Q e) ↔
      ∀ e ∈ plainEntries config selection, Q e := by
  constructor
  · intro h
    cases ho : config.output.optimizeTravel with
    | false => rwa [← entries_assembled ho]
    | true =>
      refine (rearranged_assembled ho).forall_mem_plain ?_ h
      intro b b' hm hr
      exact (hQ b b' hm hr).2
  · refine forall_entries ?_
    intro b b' hm hr
    exact (hQ b b' hm hr).1

/-- What the parts add, part by part. -/
theorem plainEntries_eq_map (config : Config) (selection : List SelectedNode) :
    plainEntries config selection = (parts selection).zipIdx.map fun (part, id) =>
      part.entry id (part.compile config.laser) := by
  rw [plainEntries, entriesOf, compileParts, List.zipIdx_map, List.map_map]
  rfl

theorem forall_plainEntries_iff :
    (∀ e ∈ plainEntries config selection, Q e) ↔
      ∀ (i : Nat) (part : Part), (parts selection)[i]? = some part →
        Q (part.entry i (part.compile config.laser)) := by
  rw [plainEntries_eq_map, List.forall_mem_map]
  constructor
  · intro h i part hp
    exact h (part, i) (List.mem_zipIdx_iff_getElem?.2 hp)
  · rintro h ⟨part, i⟩ hm
    exact h i part (List.mem_zipIdx_iff_getElem?.1 hm)

end

end Program

end LaserPath
