import LaserPath.GCode
import Mathlib.Data.List.Basic

/-!
# Lines of a text

A machine reads a program line by line and passes over the lines that begin with a
semicolon. A text that is quoted behind a semicolon stays out of the program as long as every
line end in it is followed by another semicolon.

## Main definitions

* `splitLines`, `executableLines` — the lines of a text, and those that are no comments.
* `Unbroken` — a text of one line.
* `StaysComment` — a text that may be quoted in a comment.
* `LineRule` — what the last two have in common: both are decided line end by line end, so a
  text put together from pieces has the property if and only if its pieces have it.

## Main statements

* `executableLines_append` — the lines of a text that ends in a line end do not run on.
* `executableLines_comment_iff` — a text quoted in a comment adds no executable line if and
  only if it stays in the comment.
-/

namespace LaserPath

/-- The character at the end of a line. -/
def lineEnd : Char := '\n'

/-- The lines of a text. What stands behind the last line end is a line unless it is empty. -/
def splitLines : List Char → List (List Char)
  | [] => []
  | c :: rest =>
    if c = lineEnd then [] :: splitLines rest
    else match splitLines rest with
      | [] => [[c]]
      | line :: lines => (c :: line) :: lines

/-- Is the line none that the machine passes over? -/
def isExecutable (line : List Char) : Bool := line.head? != some ';'

/-- The lines of a text that do not begin with a semicolon. -/
def executableLines (text : String) : List String :=
  ((splitLines text.toList).filter isExecutable).map String.ofList

/-- A line that the machine passes over and nothing else. -/
def IsCommentLine (text : String) : Prop :=
  ∃ line, splitLines text.toList = [line] ∧ isExecutable line = false

/-- A text without a line end. -/
def Unbroken (s : String) : Prop := lineEnd ∉ s.toList

instance (s : String) : Decidable (Unbroken s) := inferInstanceAs (Decidable (_ ∉ _))

/-- Is every line end followed directly by a semicolon? -/
def continuesComment : List Char → Bool
  | [] => true
  | c :: rest => (c != lineEnd || rest.head? == some ';') && continuesComment rest

/-- A text whose line ends are all followed directly by a semicolon. -/
def StaysComment (s : String) : Prop := continuesComment s.toList = true

instance (s : String) : Decidable (StaysComment s) := inferInstanceAs (Decidable (_ = _))

/-- What is decided at the line ends of a text: an unbroken text has the property, and a text
put together from two has it if both have it, provided that the second does not begin with a
semicolon or the first is unbroken. -/
structure LineRule (P : String → Prop) : Prop where
  of_unbroken {s : String} (h : Unbroken s) : P s
  append_iff {s t : String} (h : t.toList.head? ≠ some ';') : P (s ++ t) ↔ P s ∧ P t
  unbroken_append_iff {s t : String} (h : Unbroken s) : P (s ++ t) ↔ P t

/-! ## Splitting -/

theorem splitLines_ne_nil {s : List Char} (h : s ≠ []) : splitLines s ≠ [] := by
  cases s with
  | nil => exact absurd rfl h
  | cons c rest =>
    rw [splitLines]
    split
    · simp
    · split <;> simp

/-- The lines up to a line end and the lines behind it. -/
theorem splitLines_append (s t : List Char) :
    splitLines (s ++ lineEnd :: t) = splitLines (s ++ [lineEnd]) ++ splitLines t := by
  induction s with
  | nil => simp [splitLines]
  | cons c rest ih =>
    rw [List.cons_append, List.cons_append, splitLines, splitLines, ih]
    split
    · rfl
    · cases h : splitLines (rest ++ [lineEnd]) with
      | nil => exact absurd h (splitLines_ne_nil (by simp))
      | cons line lines => rfl

theorem splitLines_line {line : List Char} (h : lineEnd ∉ line) :
    splitLines (line ++ [lineEnd]) = [line] := by
  induction line with
  | nil => rfl
  | cons c rest ih =>
    rw [List.mem_cons, not_or] at h
    rw [List.cons_append, splitLines, if_neg (Ne.symm h.1), ih h.2]

/-- A text that ends in a line end is one line only if there is no other line end in it. -/
theorem not_mem_of_splitLines_eq {s line : List Char}
    (h : splitLines (s ++ [lineEnd]) = [line]) : lineEnd ∉ s := by
  intro hm
  obtain ⟨a, b, rfl⟩ := List.append_of_mem hm
  rw [List.append_assoc, List.cons_append, splitLines_append] at h
  have ha := List.length_pos_iff.2 (splitLines_ne_nil (List.concat_ne_nil lineEnd a))
  have hb := List.length_pos_iff.2 (splitLines_ne_nil (List.concat_ne_nil lineEnd b))
  have hl := congrArg List.length h
  simp only [List.length_append, List.length_singleton] at ha hb hl
  omega

/-- The first line begins as the text does; the others are passed over if and only if every
line end of the text is followed by a semicolon. -/
theorem splitLines_semicolons {s line : List Char} {lines : List (List Char)}
    (h : splitLines (s ++ [lineEnd]) = line :: lines) :
    (isExecutable line = false ↔ s.head? = some ';') ∧
      ((∀ l ∈ lines, isExecutable l = false) ↔ continuesComment s = true) := by
  induction s generalizing line lines with
  | nil =>
    obtain ⟨rfl, rfl⟩ : [] = line ∧ [] = lines := by simpa [splitLines] using h
    simp [isExecutable, continuesComment]
  | cons c rest ih =>
    obtain ⟨first, others, hs⟩ := List.exists_cons_of_ne_nil
      (splitLines_ne_nil (List.concat_ne_nil lineEnd rest))
    obtain ⟨hfirst, hothers⟩ := ih hs
    rw [List.cons_append, splitLines, hs] at h
    split at h
    · next hc =>
      obtain ⟨rfl, rfl⟩ := List.cons.inj h
      rw [List.forall_mem_cons, hfirst, hothers, hc]
      simp [isExecutable, continuesComment, lineEnd]
    · next hc =>
      obtain ⟨rfl, rfl⟩ := List.cons.inj h
      rw [hothers]
      simp [isExecutable, continuesComment, hc]

theorem filter_isExecutable_eq_nil_iff (s : List Char) :
    (splitLines (s ++ [lineEnd])).filter isExecutable = [] ↔
      s.head? = some ';' ∧ continuesComment s = true := by
  obtain ⟨line, lines, hs⟩ := List.exists_cons_of_ne_nil
    (splitLines_ne_nil (List.concat_ne_nil lineEnd s))
  obtain ⟨hline, hlines⟩ := splitLines_semicolons hs
  rw [hs, List.filter_eq_nil_iff, List.forall_mem_cons]
  simpa only [Bool.not_eq_true] using and_congr hline hlines

/-! ## Executable lines -/

/-- The executable lines up to a line end and those behind it. -/
theorem executableLines_append (s t : String) :
    executableLines (s ++ "\n" ++ t) = executableLines (s ++ "\n") ++ executableLines t := by
  have hs : (s ++ "\n" ++ t).toList = s.toList ++ lineEnd :: t.toList := by
    simp only [String.toList_append, List.append_assoc]
    rfl
  rw [executableLines, hs, splitLines_append, List.filter_append, List.map_append,
    executableLines, String.toList_append]
  rfl

theorem executableLines_join (lines : List String) :
    executableLines (String.join (lines.map (· ++ "\n"))) =
      lines.flatMap fun line => executableLines (line ++ "\n") := by
  induction lines with
  | nil => rfl
  | cons line rest ih =>
    rw [List.map_cons, String.join_cons, executableLines_append, ih, List.flatMap_cons]

/-- A line that does not begin with a semicolon is executed as it stands. -/
theorem executableLines_line {line : String} (h : Unbroken line)
    (hs : line.toList.head? ≠ some ';') : executableLines (line ++ "\n") = [line] := by
  have hl : splitLines (line ++ "\n").toList = [line.toList] := by
    rw [String.toList_append]
    exact splitLines_line h
  have he : isExecutable line.toList = true := by simpa [isExecutable] using hs
  rw [executableLines, hl, List.filter_cons_of_pos he, List.filter_nil, List.map_singleton,
    String.ofList_toList]

/-- A line that begins with a semicolon adds nothing to what is executed if and only if it
stays in the comment. -/
theorem executableLines_eq_nil_iff {line : String} (hs : line.toList.head? = some ';') :
    executableLines (line ++ "\n") = [] ↔ StaysComment line := by
  rw [executableLines, List.map_eq_nil_iff, String.toList_append]
  exact (filter_isExecutable_eq_nil_iff line.toList).trans (and_iff_right hs)

/-- A line that begins with a semicolon is one line if and only if it is unbroken. -/
theorem isCommentLine_iff {line : String} (hs : line.toList.head? = some ';') :
    IsCommentLine (line ++ "\n") ↔ Unbroken line := by
  rw [IsCommentLine, String.toList_append]
  constructor
  · rintro ⟨first, h, -⟩
    exact not_mem_of_splitLines_eq h
  · intro h
    exact ⟨line.toList, splitLines_line h, by simp [isExecutable, hs]⟩

/-! ## Line rules -/

/-- A literal is a list of characters to the kernel, and it is unbroken if the list is. -/
theorem unbroken_ofList {l : List Char} (h : l.contains lineEnd = false) :
    Unbroken (String.ofList l) := by
  unfold Unbroken
  rw [String.toList_ofList]
  simpa using h

theorem head?_ofList {l : List Char} {c : Char} (h : l.head? ≠ some c) :
    (String.ofList l).toList.head? ≠ some c := by
  rwa [String.toList_ofList]

@[simp] theorem unbroken_append {s t : String} :
    Unbroken (s ++ t) ↔ Unbroken s ∧ Unbroken t := by
  simp [Unbroken, not_or]

theorem continuesComment_append {s t : List Char} (h : t.head? ≠ some ';') :
    continuesComment (s ++ t) = (continuesComment s && continuesComment t) := by
  induction s with
  | nil => rfl
  | cons c rest ih =>
    rw [List.cons_append, continuesComment, continuesComment, ih, Bool.and_assoc]
    cases rest with
    | nil =>
      have ht : (t.head? == some ';') = false := beq_eq_false_iff_ne.2 h
      simp [ht]
    | cons d rest => rfl

theorem continuesComment_of_not_mem {s : List Char} (h : lineEnd ∉ s) (t : List Char) :
    continuesComment (s ++ t) = continuesComment t := by
  induction s with
  | nil => rfl
  | cons c rest ih =>
    rw [List.mem_cons, not_or] at h
    rw [List.cons_append, continuesComment, ih h.2]
    simp [Ne.symm h.1]

theorem lineRule_unbroken : LineRule Unbroken where
  of_unbroken h := h
  append_iff _ := unbroken_append
  unbroken_append_iff h := unbroken_append.trans (and_iff_right h)

theorem lineRule_staysComment : LineRule StaysComment where
  of_unbroken {s} h := by
    rw [StaysComment, ← List.append_nil s.toList, continuesComment_of_not_mem h]
    rfl
  append_iff h := by
    rw [StaysComment, String.toList_append, continuesComment_append h, Bool.and_eq_true]
    rfl
  unbroken_append_iff {s t} h := by
    rw [StaysComment, String.toList_append, continuesComment_of_not_mem h]
    rfl

namespace LineRule

variable {P : String → Prop}

/-- A text between two unbroken ones. -/
theorem quote_iff (hP : LineRule P) {before after : String} (hb : Unbroken before)
    (ha : Unbroken after) (hs : after.toList.head? ≠ some ';') (s : String) :
    P (before ++ s ++ after) ↔ P s := by
  rw [hP.append_iff hs, hP.unbroken_append_iff hb]
  exact and_iff_left (hP.of_unbroken ha)

end LineRule

end LaserPath
