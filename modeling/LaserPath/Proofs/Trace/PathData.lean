import LaserPath.Proofs.Decimal.Words
import LaserPath.Proofs.Scene.Network
import LaserPath.Proofs.Toolpath.Coordinates
import LaserPath.Trace.PathData

/-!
# Path data that is written out

Commands that are written behind each other, each as its letter with its numbers in words, are read
as they are. Moves and lines to positions are traced to the same motions wherever the pen is.

## Main definitions

* `PathCommand.WrittenAs`, `PathCommand.SpelledAs` — a command as it stands in path data, in any
  words for its numbers, and in words that stand whole.
* `Stroke` — a move, or lines, to positions; `Stroke.command` and `Stroke.motions` are the command
  and what it traces.

## Main statements

* `PathCommand.ofData_eq_of_spelled`, `PathCommand.ofData_eq_of_written` — commands that are
  written out are read as they are.
* `Stroke.traceAll_map_command` — strokes are traced one by one.
* `Stroke.tracePathData_eq_of_written` — what path data of strokes traces.
-/

namespace LaserPath

/-- If every item of a list is related to something, the list is related to a list. -/
theorem exists_forall₂ {α β : Type} {R : α → β → Prop} {l : List α} (h : ∀ a ∈ l, ∃ b, R a b) :
    ∃ l', List.Forall₂ R l l' := by
  induction l with
  | nil => exact ⟨[], .nil⟩
  | cons a rest ih =>
    rw [List.forall_mem_cons] at h
    obtain ⟨b, hb⟩ := h.1
    obtain ⟨l', hl'⟩ := ih h.2
    exact ⟨b :: l', .cons hb hl'⟩

namespace PathCommand

/-- Does the character stand between numbers? -/
def isParamSeparator (c : Char) : Bool := isBlank c || c == ','

/-- The word is read as the number. -/
def IsNumber (x : Float) (word : List Char) : Prop := readNumber? word = some x

instance (x : Float) (word : List Char) : Decidable (IsNumber x word) :=
  inferInstanceAs (Decidable (readNumber? word = some x))

/-- A command as it stands in path data: its letter, and behind it words for its numbers. -/
inductive WrittenAs (c : PathCommand) : List Char → Prop where
  | intro {words : List (List Char)} {body : List Char}
      (spaced : Spaced isParamSeparator words body)
      (numbers : List.Forall₂ IsNumber c.params words) :
      WrittenAs c (c.letter :: body)

/-- A word that stands whole in path data: it has a character, and none of its characters is a
separator or the letter of a command. -/
structure IsToken (word : List Char) : Prop where
  ne_nil : word ≠ []
  unspaced : ∀ c ∈ word, isParamSeparator c = false
  letterless : ∀ c ∈ word, isLetter c = false

/-- A command as it stands in path data, with words that stand whole. -/
inductive SpelledAs (c : PathCommand) : List Char → Prop where
  | intro {words : List (List Char)} {body : List Char}
      (spaced : Spaced isParamSeparator words body)
      (numbers : List.Forall₂ IsNumber c.params words) (tokens : ∀ word ∈ words, IsToken word) :
      SpelledAs c (c.letter :: body)

/-! ## Characters -/

/-- Letters of commands stand neither between numbers nor in the words for them. -/
theorem not_isParamSeparator_of_isLetter {c : Char} (h : isLetter c = true) :
    isParamSeparator c = false ∧ isNumeralChar c = false := by
  have hletters : letters = ['M', 'm', 'L', 'l', 'H', 'h', 'V', 'v', 'C', 'c', 'S', 's', 'Q', 'q',
      'T', 't', 'A', 'a', 'Z', 'z'] := rfl
  rw [isLetter, List.contains_eq_mem, decide_eq_true_eq, hletters] at h
  revert c
  simp [isParamSeparator, isBlank, blankRanges, isNumeralChar]

theorem isParamSeparator_eq_false_of_isNumeralChar {c : Char} (h : isNumeralChar c = true) :
    isParamSeparator c = false := by
  simp only [isNumeralChar, Bool.or_eq_true, List.contains_eq_mem, decide_eq_true_eq] at h
  rcases h with hdigit | hmark
  · have hcomma := ne_of_isDigit hdigit (by decide : ','.isDigit = false)
    have hcode : 48 ≤ c.toNat ∧ c.toNat ≤ 57 := by
      simpa [Char.isDigit, UInt32.le_iff_toNat_le] using hdigit
    have hblank : isBlank c = false := by
      simp only [isBlank, blankRanges, List.any_cons, List.any_nil, Bool.or_false,
        Bool.or_eq_false_iff, Bool.and_eq_false_imp, decide_eq_true_eq, decide_eq_false_iff_not]
      omega
    simp [isParamSeparator, hblank, hcomma]
  · revert c
    simp [isParamSeparator, isBlank, blankRanges]

/-! ## Reading -/

theorem filterMap_readNumber?_eq {params : List Float} {words : List (List Char)}
    (h : List.Forall₂ IsNumber params words) : words.filterMap readNumber? = params := by
  induction h with
  | nil => rfl
  | cons hword _ ih => rw [List.filterMap_cons_some hword, ih]

/-- Characters of numerals make words that stand whole. -/
theorem isToken_of_isNumeralChar {word : List Char} (hne : word ≠ [])
    (h : ∀ c ∈ word, isNumeralChar c = true) : IsToken word := by
  refine ⟨hne, fun c hc => isParamSeparator_eq_false_of_isNumeralChar (h c hc), ?_⟩
  intro c hc
  by_contra hletter
  have hnumeral := (not_isParamSeparator_of_isLetter (by simpa using hletter)).2
  simp [h c hc] at hnumeral

/-- The words for finite numbers stand whole. -/
theorem isToken_of_mem_words {params : List Float} {words : List (List Char)}
    (h : List.Forall₂ IsNumber params words) (hparams : ∀ x ∈ params, x.isFinite = true) :
    ∀ word ∈ words, IsToken word := by
  induction h with
  | nil => exact nofun
  | cons hword _ ih =>
    rw [List.forall_mem_cons] at hparams ⊢
    obtain ⟨hne, hchars⟩ := isNumeralChar_of_readNumber? hword hparams.1
    exact ⟨isToken_of_isNumeralChar hne hchars, ih hparams.2⟩

theorem WrittenAs.spelledAs {c : PathCommand} {text : List Char} (h : c.WrittenAs text)
    (hparams : ∀ x ∈ c.params, x.isFinite = true) : c.SpelledAs text := by
  obtain ⟨spaced, numbers⟩ := h
  exact .intro spaced numbers (isToken_of_mem_words numbers hparams)

/-- A text without letters is not cut. -/
theorem split_letterless_append {body : List Char} (h : ∀ c ∈ body, isLetter c = false)
    (rest : List Char) : split (body ++ rest) = (body ++ (split rest).1, (split rest).2) := by
  induction body with
  | nil => rfl
  | cons c body ih =>
    rw [List.forall_mem_cons] at h
    simp [split, ih h.2, h.1]

theorem split_of_letterless {body : List Char} (h : ∀ c ∈ body, isLetter c = false) :
    split body = (body, []) := by
  simpa [split] using split_letterless_append h []

/-- What is spelled for a command is cut into its letter and its numbers. -/
theorem split_of_spelled {c : PathCommand} {text : List Char} (h : c.SpelledAs text)
    (hletter : isLetter c.letter = true) (hparams : ∀ x ∈ c.params, x.isNaN = false) :
    ∃ body, split text = ([], [(c.letter, body)]) ∧ readParams body = c.params := by
  obtain @⟨words, body, spaced, numbers, tokens⟩ := h
  refine ⟨body, ?_, ?_⟩
  · have hbody : ∀ b ∈ body, isLetter b = false := by
      intro b hb
      rcases spaced.mem_cases hb with hsep | ⟨word, hword, hb⟩
      · by_contra hl
        have hfalse := (not_isParamSeparator_of_isLetter (by simpa using hl)).1
        simp [hsep] at hfalse
      · exact (tokens word hword).letterless b hb
    simp [split, split_of_letterless hbody, hletter]
  · have hfree : ∀ word ∈ words, word ≠ [] ∧ ∀ b ∈ word, isParamSeparator b = false :=
      fun word hword => ⟨(tokens word hword).ne_nil, (tokens word hword).unspaced⟩
    change ((wordsBy isParamSeparator body).filterMap readNumber?).filter _ = c.params
    rw [spaced.wordsBy_eq hfree, filterMap_readNumber?_eq numbers]
    refine List.filter_eq_self.2 fun x hx => ?_
    rw [hparams x hx]
    rfl

/-- What is read of a text does not depend on the text in front, unless that runs into it. -/
theorem ofData_append (s t : List Char) (h : (split t).1 = []) :
    ofData (String.ofList (s ++ t)) = ofData (String.ofList s) ++ ofData (String.ofList t) := by
  simp only [ofData, String.toList_ofList, split_append s t h, List.map_append]

/-- What is spelled for a command is read as the command. -/
theorem ofData_of_spelled {c : PathCommand} {text : List Char} (h : c.SpelledAs text)
    (hletter : isLetter c.letter = true) (hparams : ∀ x ∈ c.params, x.isNaN = false) :
    ofData (String.ofList text) = [c] := by
  obtain ⟨body, hsplit, hread⟩ := split_of_spelled h hletter hparams
  simp only [ofData, String.toList_ofList, hsplit, List.map_cons, List.map_nil, hread]

/-- Commands that are spelled behind each other are read as they are, whatever stands in front of
the first one without being a letter. -/
theorem ofData_eq_of_spelled {commands : List PathCommand} {texts : List (List Char)}
    (h : List.Forall₂ SpelledAs commands texts)
    (hcommands : ∀ c ∈ commands, isLetter c.letter = true ∧ ∀ x ∈ c.params, x.isNaN = false)
    {front : List Char} (hfront : ∀ c ∈ front, isLetter c = false) {data : String}
    (hdata : data.toList = front ++ texts.flatten) : ofData data = commands := by
  have hread : (split texts.flatten).1 = [] ∧
      ofData (String.ofList texts.flatten) = commands := by
    clear hdata
    induction h with
    | nil => exact ⟨rfl, rfl⟩
    | @cons c text commands texts hc _ ih =>
      rw [List.forall_mem_cons] at hcommands
      obtain ⟨⟨hletter, hparams⟩, hcommands⟩ := hcommands
      obtain ⟨hstart, hrest⟩ := ih hcommands
      obtain ⟨body, hsplit, -⟩ := split_of_spelled hc hletter hparams
      rw [List.flatten_cons]
      constructor
      · rw [split_append _ _ hstart, hsplit]
      · rw [ofData_append _ _ hstart, ofData_of_spelled hc hletter hparams, hrest]
        rfl
  have hnone : ofData (String.ofList front) = [] := by
    simp [ofData, split_of_letterless hfront]
  rw [← String.ofList_toList (s := data), hdata, ofData_append _ _ hread.1, hnone, hread.2]
  rfl

/-- Commands that are written behind each other are read as they are. -/
theorem ofData_eq_of_written {commands : List PathCommand} {texts : List (List Char)}
    (h : List.Forall₂ WrittenAs commands texts)
    (hcommands : ∀ c ∈ commands, isLetter c.letter = true ∧ ∀ x ∈ c.params, x.isFinite = true)
    {data : String} (hdata : data.toList = texts.flatten) : ofData data = commands := by
  have hspelled : List.Forall₂ SpelledAs commands texts := by
    clear hdata
    induction h with
    | nil => exact .nil
    | cons hc _ ih =>
      rw [List.forall_mem_cons] at hcommands
      exact .cons (hc.spelledAs hcommands.1.2) (ih hcommands.2)
  have hdefined : ∀ c ∈ commands, isLetter c.letter = true ∧ ∀ x ∈ c.params, x.isNaN = false :=
    fun c hc => ⟨(hcommands c hc).1,
      fun x hx => isNaN_eq_false_of_isFinite ((hcommands c hc).2 x hx)⟩
  exact ofData_eq_of_spelled hspelled hdefined (List.forall_mem_nil _) hdata

/-- Blanks behind the words are one way to write a command. -/
theorem writtenAs_spaced {c : PathCommand} {words : List (List Char)}
    (numbers : List.Forall₂ IsNumber c.params words) :
    c.WrittenAs (c.letter :: words.flatMap (· ++ [' '])) :=
  .intro (Spaced.flatMap_append rfl words) numbers

/-- A command with finite numbers can be written. -/
theorem exists_writtenAs {c : PathCommand} (h : ∀ x ∈ c.params, x.isFinite = true) :
    ∃ text, c.WrittenAs text := by
  obtain ⟨words, numbers⟩ := exists_forall₂ fun x hx => exists_readNumber?_eq (h x hx)
  exact ⟨_, writtenAs_spaced numbers⟩

end PathCommand

/-! ## Strokes -/

/-- A move, or straight cuts, to positions relative to the anchor. -/
inductive Stroke where
  | move (target : Point)
  | lines (targets : List Point)
  deriving DecidableEq

namespace Stroke

variable (settings : LaserSettings) (anchor : Point)

/-- The positions of a stroke. -/
def targets : Stroke → List Point
  | move target => [target]
  | lines targets => targets

/-- A stroke as a command of path data. -/
def command : Stroke → PathCommand
  | move target => ⟨'M', target.coordinates⟩
  | lines targets => ⟨'L', targets.flatMap Point.coordinates⟩

/-- The motions of a stroke. -/
def motions : Stroke → Toolpath
  | move target => [settings.rapidTo (anchor.shift target)]
  | lines targets => targets.map fun target => settings.cutTo (anchor.shift target)

theorem isLetter_command (s : Stroke) : PathCommand.isLetter s.command.letter = true := by
  cases s <;> rfl

theorem isFinite_params {s : Stroke} (h : ∀ p ∈ s.targets, p.IsFinite) :
    ∀ x ∈ s.command.params, x.isFinite = true := by
  have hcoordinates {p : Point} (hp : p.IsFinite) : ∀ x ∈ p.coordinates, x.isFinite = true :=
    List.forall_mem_cons.2 ⟨hp.x, List.forall_mem_singleton.2 hp.y⟩
  cases s with
  | move target => exact hcoordinates (h target List.mem_cons_self)
  | lines targets =>
    intro x hx
    obtain ⟨p, hp, hx⟩ := List.mem_flatMap.1 hx
    exact hcoordinates (h p hp) x hx

/-- Lines to positions do not depend on the point reached. -/
theorem traceLines_coordinates (targets : List Point) (current : Point) :
    (PathCommand.traceLines settings anchor false current
      (targets.flatMap Point.coordinates)).2 =
        targets.map fun target => settings.cutTo (anchor.shift target) := by
  induction targets generalizing current with
  | nil => rfl
  | cons target rest ih => exact congrArg (settings.cutTo (anchor.shift target) :: ·) (ih target)

theorem trace_command (s : Stroke) (state : PathState) :
    (s.command.trace settings anchor state).2 = s.motions settings anchor := by
  cases s with
  | move target => rfl
  | lines targets => exact traceLines_coordinates settings anchor targets state.current

/-- Strokes are traced one by one, from any point on. -/
theorem traceAll_map_command (strokes : List Stroke) (state : PathState) :
    PathCommand.traceAll settings anchor state (strokes.map command) =
      strokes.flatMap (motions settings anchor) := by
  induction strokes generalizing state with
  | nil => rfl
  | cons s rest ih =>
    rw [List.flatMap_cons, ← trace_command settings anchor s state, ← ih]
    rfl

/-- Path data of strokes traces the motions of the strokes. -/
theorem tracePathData_eq_of_written {strokes : List Stroke} {texts : List (List Char)}
    (h : List.Forall₂ (fun s => s.command.WrittenAs) strokes texts)
    (hfinite : ∀ s ∈ strokes, ∀ p ∈ s.targets, p.IsFinite) {data : String}
    (hdata : data.toList = texts.flatten) :
    tracePathData settings anchor data = strokes.flatMap (motions settings anchor) := by
  have hread : PathCommand.ofData data = strokes.map command := by
    refine PathCommand.ofData_eq_of_written (List.forall₂_map_left_iff.2 h) ?_ hdata
    rw [List.forall_mem_map]
    exact fun s hs => ⟨s.isLetter_command, isFinite_params (hfinite s hs)⟩
  rw [tracePathData, hread, traceAll_map_command]

end Stroke

end LaserPath
