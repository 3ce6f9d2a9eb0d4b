import LaserPath.Proofs.Program.Outcome
import LaserPath.Proofs.Route.Relabel

/-!
# Programs without idle nodes

A selected node is idle if none of its parts moves the head: its parts cannot be drawn, or they
leave comments only. Idle nodes add notes to a program and they count, but they disturb no block.
If some of them are left out of the selection, the same blocks come in the same order, the same
ones are turned round, and the travel is the same.

## Main definitions

* `SelectedNode.Idle`, `WithoutIdle` — idle nodes, and a selection without some of them.
* `Program.core` — a program without its notes and counts.
* `Program.sections` — the commands of every block between its markers.

## Main statements

* `core_of_withoutIdle` — what is left of a program does not depend on idle nodes.
-/

namespace LaserPath

/-- None of the parts of the node moves the head. -/
def SelectedNode.Idle (settings : LaserSettings) (n : SelectedNode) : Prop :=
  ∀ part ∈ n.parts, ¬ part.Moves settings

instance (settings : LaserSettings) (n : SelectedNode) : Decidable (n.Idle settings) :=
  inferInstanceAs (Decidable (∀ part ∈ n.parts, ¬ part.Moves settings))

/-- A selection, and the same selection without some of its idle nodes. -/
inductive WithoutIdle (settings : LaserSettings) :
    List SelectedNode → List SelectedNode → Prop where
  | nil : WithoutIdle settings [] []
  | keep (n : SelectedNode) {selection rest : List SelectedNode}
    (h : WithoutIdle settings selection rest) : WithoutIdle settings (n :: selection) (n :: rest)
  | drop {n : SelectedNode} {selection rest : List SelectedNode} (idle : n.Idle settings)
    (h : WithoutIdle settings selection rest) : WithoutIdle settings (n :: selection) rest

namespace Block

/-- The block without its position among the parts of the selection. -/
def unnumbered (b : Block) : Block := { b with id := 0 }

theorem unseen_unnumbered : Unseen unnumbered where
  start_eq _ := rfl
  finish_eq _ := rfl
  isReversible_eq _ := rfl
  reversed?_eq b := by
    simp only [reversed?, unnumbered, Option.map_map]
    rfl

end Block

/-- The block that a part adds to a program. -/
def Part.block? (settings : LaserSettings) (p : Part) : Option Block :=
  (p.entry 0 (p.compile settings)).block?

theorem Part.unnumbered_block?_entry (settings : LaserSettings) (p : Part) (id : Nat) :
    (p.entry id (p.compile settings)).block?.map Block.unnumbered = p.block? settings := by
  unfold block? entry
  cases p.compile settings with
  | error error => rfl
  | ok t => cases h : t.hasGeometry <;> simp [h, Entry.block?, Block.unnumbered, Block.ofShape]

/-- Idle nodes add no block. -/
theorem WithoutIdle.filterMap_parts {settings : LaserSettings}
    {selection rest : List SelectedNode} (h : WithoutIdle settings selection rest) :
    (parts rest).filterMap (Part.block? settings) =
      (parts selection).filterMap (Part.block? settings) := by
  induction h with
  | nil => rfl
  | keep n _ ih =>
    simp only [parts, List.flatMap_cons, List.filterMap_append] at ih ⊢
    rw [ih]
  | @drop n _ _ idle _ ih =>
    have hn : n.parts.filterMap (Part.block? settings) = [] := by
      rw [List.filterMap_eq_nil_iff]
      intro part hp
      exact (Part.block?_entry_eq_none_iff settings part 0).2 (idle part hp)
    simp only [parts, List.flatMap_cons, List.filterMap_append] at ih ⊢
    rw [ih, hn, List.nil_append]

namespace Program

/-- The program without its notes, without what it counts, and with blocks that do not tell their
position among the parts: the settings, the travel, and the blocks in their order. -/
def core (p : Program) : Program :=
  { p with
    selected := 0
    skipped := 0
    entries := ((blocksOf p.entries).map Block.unnumbered).map .block }

/-- The commands of every block, with its number, between its markers. -/
def sections (p : Program) : List Toolpath :=
  p.entries.zipIdx.filterMap fun (e, i) => e.block?.map fun _ =>
    e.shown (blocksOf p.entries).length (ordinal p.entries i)

/-- The core of a program with the given blocks in the order of the selection. -/
def coreOf (config : Config) (blocks : List Block) : Program :=
  if config.output.optimizeTravel then
    let routed := optimizeTravel config.output.start blocks
    ⟨0, config, some ⟨travelDistance config.output.start blocks,
      travelDistance config.output.start routed⟩, routed.map .block, 0⟩
  else ⟨0, config, none, blocks.map .block, 0⟩

/-- The sections of a program are those of its core. -/
theorem sections_eq (p : Program) : p.sections =
    ((blocksOf p.core.entries).zipIdx 1).map fun (b, k) =>
      (Entry.block b).shown (blocksOf p.core.entries).length k := by
  have hcore : blocksOf p.core.entries = (blocksOf p.entries).map Block.unnumbered := by
    rw [core, blocksOf_map_block]
  have h := filterMap_blocks
    (fun b k => (Entry.block b).shown (blocksOf p.entries).length k) 1 p.entries
  rw [hcore, List.length_map, List.zipIdx_map, List.map_map]
  refine Eq.trans ?_ h
  refine List.filterMap_congr fun ⟨e, i⟩ _ => ?_
  cases e with
  | note t => rfl
  | block b => simp [ordinal, Entry.block?, Nat.add_comm]

theorem sections_eq_of_core_eq {p p' : Program} (h : p'.core = p.core) :
    p'.sections = p.sections := by
  rw [sections_eq, sections_eq, h]

theorem core_assembled (config : Config) (selection : List SelectedNode) :
    (assembled config selection).core =
      coreOf config ((blocksOf (plainEntries config selection)).map Block.unnumbered) := by
  have hu := Block.unseen_unnumbered
  unfold assembled coreOf
  split
  · next h =>
    simp only [core, route, hu.optimizeTravel_map, hu.travelDistance_map, blocksOf_append,
      blocksOf_filter_isNote, blocksOf_map_block, List.nil_append]
  · simp [core]

theorem unnumbered_blocksOf_plainEntries (config : Config) (selection : List SelectedNode) :
    (blocksOf (plainEntries config selection)).map Block.unnumbered =
      (parts selection).filterMap (Part.block? config.laser) := by
  rw [plainEntries_eq_map, blocksOf, List.filterMap_map, List.map_filterMap]
  simp only [Function.comp_def, Part.unnumbered_block?_entry]
  rw [← Function.comp_def (Part.block? config.laser), ← List.filterMap_map, List.zipIdx_map_fst]

/-- If a selection has a program, it has one without idle nodes too, and what is left of the two
programs without their notes and counts is the same. -/
theorem core_of_withoutIdle {config : Config} {selection rest : List SelectedNode} {text : String}
    (h : generateProgram config selection = .ok text)
    (hr : WithoutIdle config.laser selection rest) :
    ∃ p p', ofSelection config selection = .ok p ∧ text = p.commands.text ∧
      ofSelection config rest = .ok p' ∧ generateProgram config rest = .ok p'.commands.text ∧
        p'.core = p.core ∧ p'.sections = p.sections := by
  obtain ⟨p, hp, ht⟩ := exists_of_generateProgram h
  obtain ⟨hs, hc, hb, rfl⟩ := ofSelection_eq_ok_iff.1 hp
  have hblocks : (blocksOf (plainEntries config rest)).map Block.unnumbered =
      (blocksOf (plainEntries config selection)).map Block.unnumbered := by
    rw [unnumbered_blocksOf_plainEntries, unnumbered_blocksOf_plainEntries, hr.filterMap_parts]
  have hcore : (assembled config rest).core = (assembled config selection).core := by
    rw [core_assembled, core_assembled, hblocks]
  have hb' : (blocksOf (plainEntries config rest)).isEmpty = false := by
    rw [← List.isEmpty_map, hblocks, List.isEmpty_map, hb]
  have hs' : rest.isEmpty = false := by
    cases rest with
    | nil => cases hb'
    | cons => rfl
  have hp' := ofSelection_eq_ok_iff.2 ⟨hs', hc, hb', rfl⟩
  exact ⟨_, _, hp, ht.symm, hp', generateProgram_eq_ok hp', hcore, sections_eq_of_core_eq hcore⟩

/-- A line between a star that cannot be drawn and a node of an unknown kind. -/
theorem core_of_line_among_idle :
    ∃ p p', ofSelection {} [⟨.leaf ⟨"a", 0, 0, 1, 1, none⟩ (.star 5 (some 2)), []⟩,
          ⟨.leaf ⟨"b", 0, 0, 10, 5, none⟩ .line, []⟩,
          ⟨.leaf ⟨"c", 0, 0, 1, 1, none⟩ (.unsupported "WIDGET"), []⟩] = .ok p ∧
      ofSelection {} [⟨.leaf ⟨"b", 0, 0, 10, 5, none⟩ .line, []⟩] = .ok p' ∧
        p'.core = p.core ∧ p'.sections = p.sections := by
  obtain ⟨text, h, -⟩ := exists_ok_of_any (Q := fun _ => True) (x := generateProgram {}
    [⟨.leaf ⟨"a", 0, 0, 1, 1, none⟩ (.star 5 (some 2)), []⟩,
      ⟨.leaf ⟨"b", 0, 0, 10, 5, none⟩ .line, []⟩,
      ⟨.leaf ⟨"c", 0, 0, 1, 1, none⟩ (.unsupported "WIDGET"), []⟩]) (by decide +kernel)
  obtain ⟨p, p', hp, -, hp', -, hc, hs⟩ := core_of_withoutIdle h
    (.drop (by decide +kernel) (.keep _ (.drop (by decide +kernel) .nil)))
  exact ⟨p, p', hp, hp', hc, hs⟩

end Program

end LaserPath
