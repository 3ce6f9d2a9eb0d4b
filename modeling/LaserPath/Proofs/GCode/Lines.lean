import LaserPath.Proofs.Decimal.Characters
import LaserPath.Proofs.Text.Lines
import LaserPath.Shape.Error

/-!
# Lines of commands

Every line that a command writes is unbroken and is no comment, except for the line of a
comment, which is as good as the text that is quoted in it.

## Main statements

* `Command.executable_of_not_comment` — a command other than a comment is executed as its lines.
* `Command.executable_comment_eq_nil_iff` — a comment is passed over if and only if its text
  stays in the comment.
* `Toolpath.executableLines_text` — the executable lines of a toolpath, command by command.
-/

namespace LaserPath

theorem IsNumberText.unbroken {s : String} (h : IsNumberText s) : Unbroken s := by
  intro hm
  exact absurd (h lineEnd hm) (by decide)

theorem ShapeError.unbroken_message (error : ShapeError) : Unbroken error.message := by
  have hn (n : Nat) := (isNumberText_toString n).unbroken
  have hx (x : Float) := (isNumberText_spellShortest x).unbroken
  have hd (d : Dimension) : Unbroken d.name := by
    cases d <;> exact unbroken_ofList rfl
  unfold message
  split
  all_goals
    simp only [unbroken_append, hn, hx, hd, and_true]
    and_intros <;> exact unbroken_ofList rfl

theorem Point.unbroken_words {first second : String} (hf : Unbroken first)
    (hs : Unbroken second) (p : Point) : Unbroken (p.words first second) := by
  have hx (x : Float) := (Measure.isNumberText_coordinate x).unbroken
  simp only [words, unbroken_append, hx, hf, hs, and_true]
  exact ⟨unbroken_ofList rfl, unbroken_ofList rfl⟩

theorem unbroken_rateWord {letter : String} (hl : Unbroken letter) (value? : Option Float) :
    Unbroken (rateWord letter value?) := by
  cases value? with
  | none => exact unbroken_ofList (l := []) rfl
  | some value =>
    simp only [rateWord, unbroken_append, hl, (Measure.isNumberText_rate value).unbroken, and_true]
    exact unbroken_ofList rfl

/-- A line that the machine executes as it stands. -/
def IsInstruction (line : String) : Prop := Unbroken line ∧ line.toList.head? ≠ some ';'

theorem isInstruction_ofList {l : List Char} (h : l.contains lineEnd = false)
    (hc : l.head? ≠ some ';') : IsInstruction (String.ofList l) :=
  ⟨unbroken_ofList h, head?_ofList hc⟩

theorem IsInstruction.append {s t : String} (h : IsInstruction s) (hs : s ≠ "")
    (ht : Unbroken t) : IsInstruction (s ++ t) := by
  refine ⟨unbroken_append.2 ⟨h.1, ht⟩, ?_⟩
  rw [String.toList_append, List.head?_append_of_ne_nil _ (by simpa using hs)]
  exact h.2

theorem Cut.isInstruction_line (c : Cut) : IsInstruction c.line := by
  have hp (p : Point) : Unbroken (p.words "X" "Y") :=
    p.unbroken_words (unbroken_ofList rfl) (unbroken_ofList rfl)
  have hq (p : Point) : Unbroken (p.words "I" "J") :=
    p.unbroken_words (unbroken_ofList rfl) (unbroken_ofList rfl)
  have hf (x? : Option Float) : Unbroken (rateWord "F" x?) :=
    unbroken_rateWord (unbroken_ofList rfl) x?
  have hs (x? : Option Float) : Unbroken (rateWord "S" x?) :=
    unbroken_rateWord (unbroken_ofList rfl) x?
  obtain ⟨target, sweep, feedRate?, power?⟩ := c
  rcases sweep with _ | ⟨centre, _ | _⟩
  all_goals
    simp only [line, String.append_assoc]
    refine IsInstruction.append (isInstruction_ofList rfl (by decide)) (by decide) ?_
    simp only [unbroken_append, hp, hq, hf, hs, and_true]
  exact ⟨trivial, unbroken_ofList (l := []) rfl⟩

namespace Command

/-- The executable lines of the text of a command. -/
def executable (c : Command) : List String :=
  c.lines.flatMap fun line => executableLines (line ++ "\n")

theorem isInstruction_of_mem_lines {c : Command} (hc : ∀ text, c ≠ .comment text) {line : String}
    (h : line ∈ c.lines) : IsInstruction line := by
  cases c with
  | rapid target feedRate? =>
    obtain rfl := List.mem_singleton.1 h
    rw [String.append_assoc, String.append_assoc]
    refine IsInstruction.append (isInstruction_ofList rfl (by decide)) (by decide) ?_
    simp only [unbroken_append]
    exact ⟨target.unbroken_words (unbroken_ofList rfl) (unbroken_ofList rfl),
      unbroken_rateWord (unbroken_ofList rfl) _, unbroken_ofList rfl⟩
  | cut cut =>
    obtain rfl := List.mem_singleton.1 h
    exact cut.isInstruction_line
  | laserOn inlineMode =>
    cases inlineMode <;> obtain rfl := List.mem_singleton.1 h
    all_goals exact isInstruction_ofList rfl (by decide)
  | laserOff inlineMode =>
    cases inlineMode <;> obtain rfl := List.mem_singleton.1 h
    all_goals exact isInstruction_ofList rfl (by decide)
  | setup feedRate rapidFeedRate power =>
    have hr (x : Float) := (Measure.isNumberText_rate x).unbroken
    simp only [lines, List.mem_cons, List.not_mem_nil, or_false] at h
    rcases h with rfl | rfl | rfl | rfl
    · exact isInstruction_ofList rfl (by decide)
    · exact isInstruction_ofList rfl (by decide)
    · rw [String.append_assoc]
      refine IsInstruction.append (isInstruction_ofList rfl (by decide)) (by decide) ?_
      exact unbroken_append.2 ⟨hr _, unbroken_ofList rfl⟩
    · rw [String.append_assoc]
      refine IsInstruction.append (isInstruction_ofList rfl (by decide)) (by decide) ?_
      exact unbroken_append.2 ⟨hr _, unbroken_ofList rfl⟩
  | endProgram =>
    obtain rfl := List.mem_singleton.1 h
    exact isInstruction_ofList rfl (by decide)
  | comment text => exact absurd rfl (hc text)

theorem executable_of_not_comment {c : Command} (hc : ∀ text, c ≠ .comment text) :
    c.executable = c.lines := by
  have h : ∀ line ∈ c.lines, executableLines (line ++ "\n") = [line] := by
    intro line hl
    have hi := isInstruction_of_mem_lines hc hl
    exact executableLines_line hi.1 hi.2
  rw [executable, List.flatMap_congr h, List.flatMap_singleton']

/-- The line of a comment. -/
def commentLine (text : String) : String := if text.isEmpty then ";" else "; " ++ text

theorem head?_commentLine (text : String) : (commentLine text).toList.head? = some ';' := by
  unfold commentLine
  split
  · rfl
  · simp

/-- A line rule holds of the line of a comment if and only if it holds of the text. -/
theorem LineRule.commentLine_iff {P : String → Prop} (hP : LineRule P) (text : String) :
    P (commentLine text) ↔ P text := by
  unfold commentLine
  split
  · next h =>
    rw [String.isEmpty_iff.1 h]
    exact iff_of_true (hP.of_unbroken (unbroken_ofList rfl)) (hP.of_unbroken (unbroken_ofList rfl))
  · exact hP.unbroken_append_iff (unbroken_ofList rfl)

theorem executable_comment_eq_nil_iff (text : String) :
    (comment text).executable = [] ↔ StaysComment text := by
  have h : (comment text).executable = executableLines (commentLine text ++ "\n") :=
    List.append_nil _
  rw [h, executableLines_eq_nil_iff (head?_commentLine text),
    LineRule.commentLine_iff lineRule_staysComment]

theorem isCommentLine_text_iff (text : String) :
    IsCommentLine (comment text).text ↔ Unbroken text := by
  have h : (comment text).text = commentLine text ++ "\n" := by
    rw [Command.text, lines, List.map_singleton, String.join_cons, String.join_nil,
      String.append_empty]
    rfl
  rw [h, isCommentLine_iff (head?_commentLine text), LineRule.commentLine_iff lineRule_unbroken]

end Command

/-- The text of a toolpath is the text of the lines of its commands. -/
theorem Toolpath.text_eq_join (t : Toolpath) :
    t.text = String.join ((t.flatMap Command.lines).map (· ++ "\n")) := by
  induction t with
  | nil => rfl
  | cons c rest ih =>
    have hc : text (c :: rest) = c.text ++ text rest := String.join_cons ..
    rw [hc, ih, List.flatMap_cons, List.map_append, String.join_append]
    rfl

/-- The executable lines of a toolpath are those of its commands. -/
theorem Toolpath.executableLines_text (t : Toolpath) :
    executableLines t.text = t.flatMap Command.executable := by
  rw [text_eq_join, executableLines_join, List.flatMap_assoc]
  rfl

end LaserPath
