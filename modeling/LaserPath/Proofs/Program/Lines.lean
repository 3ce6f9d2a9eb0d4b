import LaserPath.Proofs.Program.Quoting
import Mathlib.Data.List.Flatten

/-!
# What a machine executes of a program

A program is meant to set the machine up, to switch the laser on, to move as its blocks say, to
switch the laser off and to end. Every other line is meant to be a comment. The comments quote
texts of the scene as they stand, so a name with a line end in it may put a line of its own
into the program: the lines that are executed are those that are meant exactly if every line
end in a quoted text is followed by a semicolon.

## Main definitions

* `Program.machineLines` — the lines that a program means to be executed.
* `Entry.Emitted` — entries of motions and comments.

## Main statements

* `Program.executable_iff_quoted` — exactly when a program is executed as it is meant.
-/

namespace LaserPath

/-- The lines that a program means to be executed: the set-up, the laser on, the motions of the
blocks in their order, the laser off, and the end. -/
def Program.machineLines (p : Program) : List String :=
  let laser := p.config.laser
  let inlineLaser := p.config.output.inlineLaser
  (Command.setup laser.feedRate laser.rapidFeedRate laser.power).lines ++
    (Command.laserOn inlineLaser).lines ++ p.motionLines ++
    (Command.laserOff inlineLaser).lines ++ Command.endProgram.lines

/-- The lines that a command means to be executed; a comment means none. -/
def Command.machineLines (c : Command) : List String :=
  match c with
  | .comment _ => []
  | c => c.lines

/-- A block consists of comments and motions, and a note of comments only. -/
def Entry.Emitted (s : LaserSettings) : Entry → Prop
  | .block b => ∀ c ∈ b.toolpath, s.Emits c
  | .note t => ∀ c ∈ t, c.machineLines = []

section Emitted

variable {s : LaserSettings}

theorem LaserSettings.Emits.machineLines_eq_nil {c : Command} (h : s.Emits c)
    (hm : c.isMotion = false) : c.machineLines = [] := by
  obtain ⟨text, rfl⟩ := h.exists_text hm
  rfl

/-- What a toolpath means to be executed is what its motions say. -/
theorem Toolpath.flatMap_machineLines {t : Toolpath} (h : ∀ c ∈ t, s.Emits c) :
    t.flatMap Command.machineLines = (t.filter Command.isMotion).flatMap Command.lines := by
  induction t with
  | nil => rfl
  | cons c rest ih =>
    rw [List.forall_mem_cons] at h
    rw [List.flatMap_cons, ih h.2]
    cases hm : c.isMotion with
    | false =>
      rw [List.filter_cons_of_neg (by simp [hm]), h.1.machineLines_eq_nil hm, List.nil_append]
    | true =>
      have hl : c.machineLines = c.lines := by
        cases c with
        | comment text => simp [Command.isMotion, Command.endpoint?] at hm
        | _ => rfl
      rw [List.filter_cons_of_pos hm, List.flatMap_cons, hl]

theorem Part.emitted_entry (p : Part) (id : Nat) :
    (p.entry id (p.compile s)).Emitted s := by
  cases h : p.compile s with
  | error error => exact List.forall_mem_singleton.2 rfl
  | ok t =>
    have ht := Shape.emits_compile p.shape p.ancestors h
    cases hg : t.hasGeometry with
    | true =>
      rw [entry, if_pos hg]
      exact ht
    | false =>
      rw [entry, if_neg (by simp [hg])]
      intro c hc
      exact (ht c hc).machineLines_eq_nil (Toolpath.isMotion_eq_false hg c hc)

theorem Block.Routed.emitted {b b' : Block} (h : b.Routed b')
    (hb : (Entry.block b).Emitted s) : (Entry.block b').Emitted s := by
  cases h with
  | kept => exact hb
  | turned allowed hr =>
    obtain ⟨u, hu, rfl⟩ := Option.map_eq_some_iff.1 hr
    exact List.forall_mem_cons.2 ⟨.comment _, Toolpath.emits_reversed? hu hb⟩

end Emitted

namespace Program

/-- The entries of a program consist of motions and comments. -/
theorem emitted_entries (config : Config) (selection : List SelectedNode) :
    ∀ e ∈ (assembled config selection).entries, e.Emitted config.laser := by
  refine forall_entries (fun b b' _ hr hb => hr.emitted hb) ?_
  rw [forall_plainEntries_iff]
  intro i part _
  exact part.emitted_entry i

theorem flatMap_machineLines_entryCommands {s : LaserSettings} (count number : Nat)
    {entries : List Entry} (h : ∀ e ∈ entries, e.Emitted s) :
    (entryCommands count number entries).flatMap Command.machineLines =
      ((blocksOf entries).flatMap fun b => b.toolpath.filter Command.isMotion).flatMap
        Command.lines := by
  induction entries generalizing number with
  | nil => rfl
  | cons e rest ih =>
    rw [List.forall_mem_cons] at h
    cases e with
    | note t =>
      have ht : t.flatMap Command.machineLines = [] := List.flatMap_eq_nil_iff.2 h.1
      rw [entryCommands, List.flatMap_append, ht, ih _ h.2]
      rfl
    | block b =>
      have hb := Toolpath.flatMap_machineLines h.1
      have hm (word : String) : (marker word number count b.label).machineLines = [] := rfl
      rw [entryCommands, List.flatMap_cons, List.flatMap_append, List.flatMap_cons, hm, hm, hb,
        ih _ h.2, List.nil_append, List.nil_append, blocksOf_cons_block, List.flatMap_cons,
        List.flatMap_append]

theorem flatMap_machineLines_header (p : Program) :
    p.header.flatMap Command.machineLines =
      (Command.setup p.config.laser.feedRate p.config.laser.rapidFeedRate
        p.config.laser.power).lines ++ (Command.laserOn p.config.output.inlineLaser).lines := by
  have ht : (p.travel?.elim [] travelComments : Toolpath).flatMap Command.machineLines = [] := by
    cases p.travel? with
    | none => rfl
    | some r => rfl
  rw [header, List.flatMap_append, List.flatMap_append, ht]
  simp [Command.machineLines]

theorem flatMap_machineLines_footer (p : Program) :
    p.footer.flatMap Command.machineLines =
      (Command.laserOff p.config.output.inlineLaser).lines ++ Command.endProgram.lines := by
  rw [footer, List.flatMap_append]
  split <;> simp [Command.machineLines]

/-- What a program means to be executed is what its commands mean. -/
theorem flatMap_machineLines_commands (config : Config) (selection : List SelectedNode) :
    (assembled config selection).commands.flatMap Command.machineLines =
      (assembled config selection).machineLines := by
  rw [commands, List.flatMap_append, List.flatMap_append, flatMap_machineLines_header,
    flatMap_machineLines_footer,
    flatMap_machineLines_entryCommands _ _ (emitted_entries config selection), machineLines,
    List.append_assoc, List.append_assoc, List.append_assoc, List.append_assoc]
  rfl

end Program

/-- Of pieces that are shortened nothing is lost only if no piece is. -/
theorem flatMap_eq_flatMap_iff {α β : Type} {f g : α → List β} {l : List α}
    (h : ∀ a ∈ l, (g a).Sublist (f a)) :
    l.flatMap f = l.flatMap g ↔ ∀ a ∈ l, f a = g a := by
  refine ⟨fun heq => ?_, List.flatMap_congr⟩
  induction l with
  | nil => simp
  | cons a rest ih =>
    rw [List.forall_mem_cons] at h ⊢
    rw [List.flatMap_cons, List.flatMap_cons] at heq
    have hlen := congrArg List.length heq
    rw [List.length_append, List.length_append] at hlen
    have hrest := (List.Sublist.flatMap_right rest h.2).length_le
    have hhead := h.1.length_le
    have ha : f a = g a := (h.1.eq_of_length (by omega)).symm
    rw [ha] at heq
    exact ⟨ha, ih h.2 (List.append_cancel_left heq)⟩

namespace Command

theorem executable_eq_machineLines {c : Command} (hc : ∀ text, c ≠ .comment text) :
    c.executable = c.machineLines := by
  rw [executable_of_not_comment hc]
  cases c with
  | comment text => exact absurd rfl (hc text)
  | _ => rfl

theorem executable_eq_machineLines_iff (c : Command) :
    c.executable = c.machineLines ↔ ∀ text, c = .comment text → StaysComment text := by
  by_cases hc : ∃ text, c = .comment text
  · obtain ⟨text, rfl⟩ := hc
    rw [machineLines, executable_comment_eq_nil_iff]
    constructor
    · rintro h _ ⟨⟩
      exact h
    · exact fun h => h text rfl
  · have hn : ∀ text, c ≠ .comment text := fun text h => hc ⟨text, h⟩
    exact iff_of_true (executable_eq_machineLines hn) fun text h => absurd h (hn text)

theorem machineLines_sublist_executable (c : Command) :
    c.machineLines.Sublist c.executable := by
  by_cases hc : ∃ text, c = .comment text
  · obtain ⟨text, rfl⟩ := hc
    exact List.nil_sublist _
  · rw [executable_eq_machineLines fun text h => hc ⟨text, h⟩]

end Command

/-- The lines of a text of commands that are executed are those that are meant exactly if every
comment stays in its line. -/
theorem Toolpath.executableLines_eq_iff (t : Toolpath) :
    executableLines t.text = t.flatMap Command.machineLines ↔
      ∀ text ∈ t.comments, StaysComment text := by
  rw [executableLines_text, flatMap_eq_flatMap_iff fun c _ => c.machineLines_sublist_executable]
  constructor
  · intro h text hm
    exact (Command.executable_eq_machineLines_iff _).1 (h _ (mem_comments.1 hm)) text rfl
  · intro h c hm
    refine (Command.executable_eq_machineLines_iff c).2 ?_
    rintro text rfl
    exact h text (mem_comments.2 hm)

namespace Program

/-- All that a program means to be executed is executed, in order. -/
theorem machineLines_sublist_executableLines (config : Config) (selection : List SelectedNode) :
    (assembled config selection).machineLines.Sublist
      (executableLines (assembled config selection).text) := by
  rw [← flatMap_machineLines_commands, text, Toolpath.executableLines_text]
  exact List.Sublist.flatMap_right _ fun c _ => c.machineLines_sublist_executable

/-- A program is executed as it is meant exactly if every line end in a text that its parts
contribute is followed by a semicolon, and every comment is one line exactly if there is no
line end in these texts. -/
theorem executable_iff_quoted {config : Config} {selection : List SelectedNode} {text : String}
    (h : generateProgram config selection = .ok text) :
    ∃ p, ofSelection config selection = .ok p ∧ p.text = text ∧
      (executableLines text = p.machineLines ↔
        ∀ part ∈ parts selection, StaysComment (part.quoted config.laser)) ∧
      ((∀ quoted, .comment quoted ∈ p.commands → IsCommentLine (Command.comment quoted).text) ↔
        ∀ part ∈ parts selection, Unbroken (part.quoted config.laser)) := by
  obtain ⟨p, hp, rfl⟩ := exists_of_generateProgram h
  obtain ⟨-, -, -, rfl⟩ := ofSelection_eq_ok_iff.1 hp
  refine ⟨_, hp, rfl, ?_, ?_⟩
  · rw [← flatMap_machineLines_commands, text, Toolpath.executableLines_eq_iff]
    exact forall_comments_iff lineRule_staysComment config selection
  · rw [← forall_comments_iff lineRule_unbroken config selection]
    simp only [Command.isCommentLine_text_iff, Toolpath.mem_comments]

/-- A name with a line end that a semicolon follows leaves the program as it is meant. -/
theorem executable_of_continued_name :
    ∃ (text : String) (p : Program), generateProgram { output := { optimizeTravel := false } }
        [⟨.leaf ⟨"a\n; b", 0, 0, 10, 5, none⟩ .rectangle, []⟩] = .ok text ∧
      p.text = text ∧ executableLines text = p.machineLines := by
  obtain ⟨text, h, -⟩ := exists_ok_of_any (Q := fun _ => True) (x := generateProgram
    { output := { optimizeTravel := false } }
    [⟨.leaf ⟨"a\n; b", 0, 0, 10, 5, none⟩ .rectangle, []⟩]) (by decide +kernel)
  obtain ⟨p, -, ht, hx, -⟩ := executable_iff_quoted h
  exact ⟨text, p, h, ht, hx.2 (by decide +kernel)⟩

/-- A name with any other line end in it puts a motion of its own into the program, here with
the beam at full power. -/
theorem executable_of_broken_name :
    ∃ p : Program, generateProgram { output := { optimizeTravel := false } }
        [⟨.leaf ⟨"a\nG1 X99.000 Y99.000 F1000 S255", 0, 0, 10, 5, none⟩ .rectangle, []⟩] =
          .ok p.text ∧
      ofSelection { output := { optimizeTravel := false } }
        [⟨.leaf ⟨"a\nG1 X99.000 Y99.000 F1000 S255", 0, 0, 10, 5, none⟩ .rectangle, []⟩] = .ok p ∧
      "G1 X99.000 Y99.000 F1000 S255" ∈ executableLines p.text ∧
      "G1 X99.000 Y99.000 F1000 S255" ∉ p.machineLines ∧
      executableLines p.text ≠ p.machineLines := by
  obtain ⟨p, hp, hm, hn⟩ := exists_ok_of_any (Q := fun p : Program =>
      .comment "Begin shape 1/1: a\nG1 X99.000 Y99.000 F1000 S255" ∈ p.commands ∧
        "G1 X99.000 Y99.000 F1000 S255" ∉ p.machineLines)
    (x := ofSelection { output := { optimizeTravel := false } }
      [⟨.leaf ⟨"a\nG1 X99.000 Y99.000 F1000 S255", 0, 0, 10, 5, none⟩ .rectangle, []⟩])
    (by decide +kernel)
  have hline : "G1 X99.000 Y99.000 F1000 S255" ∈
      (Command.comment "Begin shape 1/1: a\nG1 X99.000 Y99.000 F1000 S255").executable := by
    decide +kernel
  have hx : "G1 X99.000 Y99.000 F1000 S255" ∈ executableLines p.text := by
    rw [text, Toolpath.executableLines_text]
    exact List.mem_flatMap.2 ⟨_, hm, hline⟩
  refine ⟨p, generateProgram_eq_ok hp, hp, hx, hn, fun h => hn ?_⟩
  rw [← h]
  exact hx

end Program

end LaserPath
