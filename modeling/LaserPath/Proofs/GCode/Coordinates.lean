import LaserPath.GCode
import LaserPath.Proofs.Measure.Coordinate
import LaserPath.Proofs.Text.Words
import LaserPath.Proofs.Toolpath.Coordinates

/-!
# The coordinates of a line

A line of a motion is cut into words at its spaces. The words that begin with the letter of an
axis give the coordinates: the position that the motion ends at, and the centre of an arc.

## Main definitions

* `coordinateWords` — the coordinates that a line gives, as they are written.

## Main statements

* `Command.coordinateWords_of_mem_lines` — the line of a motion gives these coordinates.
-/

namespace LaserPath

/-- The letters of the axes: of the position, and of the offset to the centre of an arc. -/
def axisLetters : List Char := ['X', 'Y', 'I', 'J']

/-- What a word says behind the letter of an axis. -/
def coordinateWord? : List Char → Option String
  | letter :: value => if axisLetters.contains letter then some (String.ofList value) else none
  | [] => none

/-- Does the character stand between words? -/
def isSpace (c : Char) : Bool := c == ' '

/-- The coordinates that a line gives, as they are written. -/
def coordinateWords (line : String) : List String :=
  (wordsBy isSpace line.toList).filterMap coordinateWord?

/-- A text of words, each behind a space, that gives the coordinates in order. -/
def Carries (text : String) (coordinates : List String) : Prop :=
  ∃ words : List (List Char), text.toList = words.flatMap (' ' :: ·) ∧
    (∀ w ∈ words, w ≠ [] ∧ ∀ c ∈ w, isSpace c = false) ∧
      words.filterMap coordinateWord? = coordinates

namespace Carries

theorem empty : Carries "" [] := ⟨[], rfl, by simp, rfl⟩

theorem append {s t : String} {xs ys : List String} (hs : Carries s xs) (ht : Carries t ys) :
    Carries (s ++ t) (xs ++ ys) := by
  obtain ⟨v, hv, hvw, rfl⟩ := hs
  obtain ⟨w, hw, hww, rfl⟩ := ht
  refine ⟨v ++ w, ?_, List.forall_mem_append.2 ⟨hvw, hww⟩, List.filterMap_append⟩
  rw [String.toList_append, hv, hw, List.flatMap_append]

/-- A letter and a number behind a space. -/
theorem word {first value : String} {letter : Char} (hf : first.toList = [letter])
    (hl : isSpace letter = false) (hv : IsNumberText value) :
    Carries (" " ++ first ++ value) (if axisLetters.contains letter then [value] else []) := by
  have hspace : ∀ c ∈ value.toList, isSpace c = false := by
    intro c hc
    refine beq_eq_false_iff_ne.2 ?_
    rintro rfl
    exact absurd (hv ' ' hc) (by decide)
  refine ⟨[letter :: value.toList], ?_, ?_, ?_⟩
  · rw [String.toList_append, String.toList_append, hf]
    simp
  · exact List.forall_mem_singleton.2 ⟨by simp, List.forall_mem_cons.2 ⟨hl, hspace⟩⟩
  · rw [List.filterMap_cons, coordinateWord?, String.ofList_toList]
    cases axisLetters.contains letter <;> rfl

theorem point {first second : String} {letter letter' : Char} (hf : first.toList = [letter])
    (hs : second.toList = [letter']) (hl : axisLetters.contains letter = true)
    (hl' : axisLetters.contains letter' = true) (p : Point) :
    Carries (p.words first second) [Measure.coordinate p.x, Measure.coordinate p.y] := by
  have hspace {l : Char} (h : axisLetters.contains l = true) : isSpace l = false := by
    refine beq_eq_false_iff_ne.2 ?_
    rintro rfl
    exact absurd h (by decide)
  have hx := word hf (hspace hl) (Measure.isNumberText_coordinate p.x)
  have hy := word hs (hspace hl') (Measure.isNumberText_coordinate p.y)
  rw [if_pos hl] at hx
  rw [if_pos hl'] at hy
  rw [Point.words, String.append_assoc, String.append_assoc]
  simpa only [String.append_assoc, List.singleton_append] using hx.append hy

/-- A rate or a power gives no coordinate. -/
theorem rate {letter : String} {l : Char} (hf : letter.toList = [l])
    (hl : isSpace l = false) (ha : axisLetters.contains l = false) (value? : Option Float) :
    Carries (rateWord letter value?) [] := by
  cases value? with
  | none => exact empty
  | some value =>
    have h := word hf hl (Measure.isNumberText_rate value)
    rwa [if_neg (by rw [ha]; exact Bool.false_ne_true)] at h

/-- The code in front of the words gives no coordinate. -/
theorem coordinateWords_append {code text : String} {coordinates : List String}
    (h : Carries text coordinates) (hne : code.toList ≠ [])
    (hs : code.toList.any isSpace = false) (hw : coordinateWord? code.toList = none) :
    coordinateWords (code ++ text) = coordinates := by
  obtain ⟨words, ht, hwords, rfl⟩ := h
  have hb : isSpace ' ' = true := rfl
  have hc : ∀ c ∈ code.toList, isSpace c = false := by simpa using hs
  rw [coordinateWords, String.toList_append, ht,
    wordsBy_flatMap hb (List.forall_mem_cons.2 ⟨⟨hne, hc⟩, hwords⟩), List.filterMap_cons, hw]

end Carries

theorem carries_position (p : Point) :
    Carries (p.words "X" "Y") [Measure.coordinate p.x, Measure.coordinate p.y] :=
  .point rfl rfl rfl rfl p

theorem carries_centre (p : Point) :
    Carries (p.words "I" "J") [Measure.coordinate p.x, Measure.coordinate p.y] :=
  .point rfl rfl rfl rfl p

theorem carries_feedRate (feedRate? : Option Float) : Carries (rateWord "F" feedRate?) [] :=
  .rate rfl rfl rfl feedRate?

theorem carries_power (power? : Option Float) : Carries (rateWord "S" power?) [] :=
  .rate rfl rfl rfl power?

theorem Cut.coordinateWords_line (c : Cut) :
    coordinateWords c.line = (Command.cut c).coordinates.map Measure.coordinate := by
  obtain ⟨target, sweep, feedRate?, power?⟩ := c
  have hrates := (carries_feedRate feedRate?).append (carries_power power?)
  cases sweep with
  | straight =>
    have h := (carries_position target).append (Carries.empty.append hrates)
    have hl : line ⟨target, .straight, feedRate?, power?⟩ = "G1" ++ (target.words "X" "Y" ++
        ("" ++ (rateWord "F" feedRate? ++ rateWord "S" power?))) := by
      simp only [line, String.append_assoc]
    rw [hl]
    exact h.coordinateWords_append (by decide) (by decide) rfl
  | arc centre clockwise =>
    have h := (carries_position target).append ((carries_centre centre).append hrates)
    have hl : line ⟨target, .arc centre clockwise, feedRate?, power?⟩ =
        (if clockwise then "G2" else "G3") ++ (target.words "X" "Y" ++
          (centre.words "I" "J" ++ (rateWord "F" feedRate? ++ rateWord "S" power?))) := by
      cases clockwise <;> simp [line, String.append_assoc]
    rw [hl]
    cases clockwise with
    | true => exact h.coordinateWords_append (by decide) (by decide) rfl
    | false => exact h.coordinateWords_append (by decide) (by decide) rfl

/-- The line of a motion gives its coordinates. -/
theorem Command.coordinateWords_of_mem_lines {c : Command} (hm : c.isMotion = true)
    {line : String} (h : line ∈ c.lines) :
    coordinateWords line = c.coordinates.map Measure.coordinate := by
  cases c with
  | rapid target feedRate? =>
    obtain rfl := List.mem_singleton.1 h
    have hzero : Carries " S0" [] := ⟨[['S', '0']], rfl, by simp [isSpace], rfl⟩
    have hc := (carries_position target).append ((carries_feedRate feedRate?).append hzero)
    rw [String.append_assoc, String.append_assoc]
    exact hc.coordinateWords_append (by decide) (by decide) rfl
  | cut cut =>
    obtain rfl := List.mem_singleton.1 h
    exact cut.coordinateWords_line
  | _ => simp [isMotion, endpoint?] at hm

theorem Command.forall_coordinateWords_iff {c : Command} (hm : c.isMotion = true)
    {P : String → Prop} :
    (∀ line ∈ c.lines, ∀ word ∈ coordinateWords line, P word) ↔
      ∀ x ∈ c.coordinates, P (Measure.coordinate x) := by
  constructor
  · intro h
    obtain ⟨line, hl⟩ : ∃ line, line ∈ c.lines := by
      cases c with
      | rapid target feedRate? => exact ⟨_, List.mem_singleton_self _⟩
      | cut cut => exact ⟨_, List.mem_singleton_self _⟩
      | _ => simp [isMotion, endpoint?] at hm
    have hw := h line hl
    rwa [coordinateWords_of_mem_lines hm hl, List.forall_mem_map] at hw
  · intro h line hl
    rw [coordinateWords_of_mem_lines hm hl, List.forall_mem_map]
    exact h

end LaserPath
