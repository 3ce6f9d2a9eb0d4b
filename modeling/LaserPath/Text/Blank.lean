/-!
# Blank characters and words

The blank characters are those with the Unicode property White_Space. A text
is cut into words at separators, which may be any class of characters.

## Main definitions

* `isBlank` — the blank characters.
* `wordsBy` — the non-empty pieces between separators.

## Main statements

* `isBlank_of_isWhitespace` — the ASCII blanks of the core library are blank.
* `not_isSeparator_of_mem_wordsBy`, `ne_nil_of_mem_wordsBy` — a word is not
  empty and holds no separator.
-/

namespace LaserPath

/-- The codes of the blank characters, in ranges with both ends included. -/
def blankRanges : List (Nat × Nat) :=
  [(0x9, 0xd), (0x20, 0x20), (0x85, 0x85), (0xa0, 0xa0), (0x1680, 0x1680), (0x2000, 0x200a),
    (0x2028, 0x2029), (0x202f, 0x202f), (0x205f, 0x205f), (0x3000, 0x3000)]

/-- Is the character blank, that is, does it have the property White_Space? -/
def isBlank (c : Char) : Bool :=
  blankRanges.any fun (least, greatest) => least ≤ c.toNat && c.toNat ≤ greatest

/-- There are 25 blank characters. -/
example : (blankRanges.map fun (least, greatest) => greatest + 1 - least).sum = 25 := rfl

theorem isBlank_of_isWhitespace {c : Char} (h : c.isWhitespace = true) : isBlank c = true := by
  simp only [Char.isWhitespace, Bool.or_eq_true, decide_eq_true_eq] at h
  rcases h with ((rfl | rfl) | rfl) | rfl <;> decide

/-- The first word, which may be empty when the text starts with a separator,
and the words after it. -/
def splitWords (isSeparator : Char → Bool) : List Char → List Char × List (List Char)
  | [] => ([], [])
  | c :: rest =>
    let (first, others) := splitWords isSeparator rest
    if isSeparator c then ([], if first.isEmpty then others else first :: others)
    else (c :: first, others)

/-- The non-empty pieces of a text between separators. -/
def wordsBy (isSeparator : Char → Bool) (text : List Char) : List (List Char) :=
  let (first, others) := splitWords isSeparator text
  if first.isEmpty then others else first :: others

theorem splitWords_nonempty (isSeparator : Char → Bool) (text : List Char) :
    ∀ w ∈ (splitWords isSeparator text).2, w ≠ [] := by
  induction text with
  | nil => simp [splitWords]
  | cons c rest ih =>
    simp only [splitWords]
    split
    · split <;> grind
    · exact ih

theorem splitWords_free (isSeparator : Char → Bool) (text : List Char) :
    (∀ c ∈ (splitWords isSeparator text).1, isSeparator c = false) ∧
      ∀ w ∈ (splitWords isSeparator text).2, ∀ c ∈ w, isSeparator c = false := by
  induction text with
  | nil => simp [splitWords]
  | cons c rest ih =>
    simp only [splitWords]
    split
    · split <;> grind
    · grind

theorem ne_nil_of_mem_wordsBy {isSeparator : Char → Bool} {text w : List Char}
    (h : w ∈ wordsBy isSeparator text) : w ≠ [] := by
  have := splitWords_nonempty isSeparator text
  simp only [wordsBy] at h
  split at h <;> grind

theorem not_isSeparator_of_mem_wordsBy {isSeparator : Char → Bool} {text w : List Char}
    (h : w ∈ wordsBy isSeparator text) {c : Char} (hc : c ∈ w) : isSeparator c = false := by
  have := splitWords_free isSeparator text
  simp only [wordsBy] at h
  split at h <;> grind

end LaserPath
