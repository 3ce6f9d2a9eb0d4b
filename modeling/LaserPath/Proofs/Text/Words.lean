import LaserPath.Text.Blank
import Mathlib.Data.List.Basic

/-!
# Words behind each other

A text that is written as words with separators between them is cut into these words, however
many separators there are.

## Main definitions

* `Spaced` — a text of words with separators between them.

## Main statements

* `wordsBy_append_separator` — a separator divides the words of a text.
* `wordsBy_flatMap` — words written one behind the other are found again.
* `Spaced.wordsBy_eq` — so are words with any separators between them.
-/

namespace LaserPath

section

variable {p : Char → Bool} {word rest : List Char} {c : Char}

/-- A word ends in front of the first character that does not belong to it. -/
theorem takeWhile_append_cons (hw : ∀ a ∈ word, p a = true) (hc : p c = false) :
    (word ++ c :: rest).takeWhile p = word := by
  rw [List.takeWhile_append_of_pos hw, List.takeWhile_cons_of_neg (by simp [hc]), List.append_nil]

theorem dropWhile_append_cons (hw : ∀ a ∈ word, p a = true) (hc : p c = false) :
    (word ++ c :: rest).dropWhile p = c :: rest := by
  rw [List.dropWhile_append_of_pos hw, List.dropWhile_cons_of_neg (by simp [hc])]

end

variable {isSeparator : Char → Bool}

theorem splitWords_append {word : List Char} (h : ∀ c ∈ word, isSeparator c = false)
    (rest : List Char) :
    splitWords isSeparator (word ++ rest) =
      (word ++ (splitWords isSeparator rest).1, (splitWords isSeparator rest).2) := by
  induction word with
  | nil => rfl
  | cons c word ih =>
    rw [List.forall_mem_cons] at h
    rw [List.cons_append, splitWords, ih h.2, h.1]
    rfl

theorem splitWords_separator {c : Char} (h : isSeparator c = true) (rest : List Char) :
    splitWords isSeparator (c :: rest) = ([], wordsBy isSeparator rest) := by
  rw [splitWords, h]
  rfl

theorem splitWords_append_separator {c : Char} (hc : isSeparator c = true)
    (text rest : List Char) :
    splitWords isSeparator (text ++ c :: rest) =
      ((splitWords isSeparator text).1,
        (splitWords isSeparator text).2 ++ wordsBy isSeparator rest) := by
  induction text with
  | nil => simp [splitWords, splitWords_separator hc]
  | cons a text ih =>
    simp only [List.cons_append, splitWords, ih]
    split
    · split <;> simp
    · rfl

/-- The words of a text and those of what follows a separator are independent. -/
theorem wordsBy_append_separator {c : Char} (hc : isSeparator c = true) (text rest : List Char) :
    wordsBy isSeparator (text ++ c :: rest) =
      wordsBy isSeparator text ++ wordsBy isSeparator rest := by
  simp only [wordsBy, splitWords_append_separator hc]
  split <;> simp

theorem wordsBy_word {word : List Char} (hne : word ≠ [])
    (h : ∀ c ∈ word, isSeparator c = false) : wordsBy isSeparator word = [word] := by
  have hs := splitWords_append h []
  rw [List.append_nil] at hs
  rw [wordsBy, hs, splitWords, List.append_nil]
  cases word with
  | nil => exact absurd rfl hne
  | cons c word => rfl

/-- A word in front of a separator is the first word. -/
theorem wordsBy_append_cons {word : List Char} (hne : word ≠ [])
    (h : ∀ c ∈ word, isSeparator c = false) {c : Char} (hc : isSeparator c = true)
    (rest : List Char) :
    wordsBy isSeparator (word ++ c :: rest) = word :: wordsBy isSeparator rest := by
  rw [wordsBy_append_separator hc, wordsBy_word hne h, List.singleton_append]

/-- Words that are written one behind the other are found again. -/
theorem wordsBy_flatMap {c : Char} (hc : isSeparator c = true) {word : List Char}
    {words : List (List Char)}
    (h : ∀ w ∈ word :: words, w ≠ [] ∧ ∀ c ∈ w, isSeparator c = false) :
    wordsBy isSeparator (word ++ words.flatMap (c :: ·)) = word :: words := by
  induction words generalizing word with
  | nil =>
    rw [List.forall_mem_singleton] at h
    rw [List.flatMap_nil, List.append_nil, wordsBy_word h.1 h.2]
  | cons next rest ih =>
    rw [List.forall_mem_cons] at h
    rw [List.flatMap_cons, List.cons_append, wordsBy_append_cons h.1.1 h.1.2 hc, ih h.2]

/-- A text of words with separators between them, and perhaps in front and behind. -/
inductive Spaced (isSeparator : Char → Bool) : List (List Char) → List Char → Prop where
  | nil : Spaced isSeparator [] []
  | separator {c : Char} {words : List (List Char)} {text : List Char}
      (hc : isSeparator c = true) (rest : Spaced isSeparator words text) :
      Spaced isSeparator words (c :: text)
  | word (word : List Char) {words : List (List Char)} {text : List Char}
      (hnext : ∀ c ∈ text.head?, isSeparator c = true)
      (rest : Spaced isSeparator words text) :
      Spaced isSeparator (word :: words) (word ++ text)

namespace Spaced

/-- Separators between words, wherever they stand, are not part of them. -/
theorem wordsBy_eq {words : List (List Char)} {text : List Char}
    (h : Spaced isSeparator words text)
    (hwords : ∀ w ∈ words, w ≠ [] ∧ ∀ c ∈ w, isSeparator c = false) :
    wordsBy isSeparator text = words := by
  induction h with
  | nil => rfl
  | separator hc rest ih =>
    rw [wordsBy, splitWords_separator hc]
    exact ih hwords
  | @word word words text hnext rest ih =>
    rw [List.forall_mem_cons] at hwords
    obtain ⟨⟨hne, hfree⟩, hwords⟩ := hwords
    cases text with
    | nil =>
      rw [List.append_nil, wordsBy_word hne hfree, ← ih hwords]
      rfl
    | cons c text =>
      have hc := hnext c rfl
      have hrest := ih hwords
      rw [wordsBy, splitWords_separator hc] at hrest
      rw [wordsBy_append_cons hne hfree hc]
      exact congrArg (word :: ·) hrest

/-- The characters of such a text are separators and those of the words. -/
theorem mem_cases {words : List (List Char)} {text : List Char}
    (h : Spaced isSeparator words text) {c : Char} (hc : c ∈ text) :
    isSeparator c = true ∨ ∃ w ∈ words, c ∈ w := by
  induction h with
  | nil => exact absurd hc List.not_mem_nil
  | separator hsep rest ih =>
    rcases List.mem_cons.1 hc with rfl | hc
    · exact .inl hsep
    · exact ih hc
  | word word hnext rest ih =>
    rcases List.mem_append.1 hc with hc | hc
    · exact .inr ⟨word, List.mem_cons_self, hc⟩
    · exact (ih hc).imp_right fun ⟨w, hw, hcw⟩ => ⟨w, List.mem_cons_of_mem _ hw, hcw⟩

/-- A word with a separator behind it. -/
theorem word_cons (word : List Char) {c : Char} (hc : isSeparator c = true)
    {words : List (List Char)} {text : List Char} (h : Spaced isSeparator words text) :
    Spaced isSeparator (word :: words) (word ++ c :: text) :=
  .word word (by simpa using hc) (.separator hc h)

theorem singleton (word : List Char) : Spaced isSeparator [word] word := by
  simpa using Spaced.word word (by simp) .nil

/-- Words can be written each with a separator behind it. -/
theorem flatMap_append {c : Char} (hc : isSeparator c = true) (words : List (List Char)) :
    Spaced isSeparator words (words.flatMap (· ++ [c])) := by
  induction words with
  | nil => exact .nil
  | cons w rest ih =>
    rw [List.flatMap_cons, List.append_assoc]
    exact .word_cons w hc ih

end Spaced

end LaserPath
