import LaserPath.Proofs.Trace.PathData

/-!
# The commands of a text

Path data is cut in front of every letter of a command, and the text behind a letter into words.
So commands are found again however they are spelled, what stands in front of a letter does not
change what is read from the letter on, and words that are no numbers are passed over.

## Main definitions

* `PathCommand.IsGap` — a text between numbers that is passed over.

## Main statements

* `PathCommand.ofData_append_gap` — one gap may stand for another anywhere in path data.
* `PathCommand.ofData_laws` — commands that are spelled out, texts behind each other, and gaps.
-/

namespace LaserPath.PathCommand

/-- A text that may stand between numbers and is passed over: separators, and between them words
that are no numbers or read as undefined. -/
inductive IsGap : List Char → Prop where
  | last {c : Char} (hc : isParamSeparator c = true) : IsGap [c]
  | separator {c : Char} {gap : List Char} (hc : isParamSeparator c = true) (hgap : IsGap gap) :
    IsGap (c :: gap)
  | word {c : Char} {word gap : List Char} (hc : isParamSeparator c = true)
    (htoken : IsToken word) (hword : ∀ x ∈ readNumber? word, x.isNaN = true) (hgap : IsGap gap) :
    IsGap (c :: (word ++ gap))

instance (word : List Char) : Decidable (IsToken word) :=
  decidable_of_iff (word ≠ [] ∧ word.all (fun c => !isParamSeparator c && !isLetter c) = true) <| by
    simp only [List.all_eq_true, Bool.and_eq_true, Bool.not_eq_true']
    exact ⟨fun ⟨hne, h⟩ => ⟨hne, fun c hc => (h c hc).1, fun c hc => (h c hc).2⟩,
      fun ⟨hne, hu, hl⟩ => ⟨hne, fun c hc => ⟨hu c hc, hl c hc⟩⟩⟩

/-! ## Numbers -/

/-- A separator divides the numbers of a text. -/
theorem readParams_append_separator {c : Char} (hc : isParamSeparator c = true)
    (text rest : List Char) :
    readParams (text ++ c :: rest) = readParams text ++ readParams rest := by
  have hwords : wordsBy isParamSeparator (text ++ c :: rest) =
      wordsBy isParamSeparator text ++ wordsBy isParamSeparator rest :=
    wordsBy_append_separator hc text rest
  unfold readParams
  change ((wordsBy isParamSeparator _).filterMap readNumber?).filter _ = _
  rw [hwords, List.filterMap_append, List.filter_append]
  rfl

theorem readParams_of_not_number {word : List Char} (h : IsToken word)
    (hword : ∀ x ∈ readNumber? word, x.isNaN = true) : readParams word = [] := by
  change ((wordsBy isParamSeparator word).filterMap readNumber?).filter _ = []
  rw [wordsBy_word h.ne_nil h.unspaced, List.filter_eq_nil_iff]
  intro x hx
  obtain ⟨w, hw, hnumber⟩ := List.mem_filterMap.1 hx
  obtain rfl := List.mem_singleton.1 hw
  simpa using hword x hnumber

/-- The numbers of a text with a gap are those in front of it and those behind it. -/
theorem IsGap.readParams_append {gap : List Char} (h : IsGap gap) (text rest : List Char) :
    readParams (text ++ (gap ++ rest)) = readParams text ++ readParams rest := by
  induction h generalizing text with
  | last hc => exact readParams_append_separator hc text rest
  | @separator c gap hc _ ih =>
    have hrest := readParams_append_separator hc text ([] ++ (gap ++ rest))
    rwa [ih []] at hrest
  | @word c word gap hc htoken hword _ ih =>
    have hrest := readParams_append_separator hc text (word ++ (gap ++ rest))
    rw [ih word, readParams_of_not_number htoken hword] at hrest
    simpa using hrest

/-- There is no letter in a gap. -/
theorem IsGap.letterless {gap : List Char} (h : IsGap gap) : ∀ c ∈ gap, isLetter c = false := by
  have hseparator {c : Char} (hc : isParamSeparator c = true) : isLetter c = false := by
    by_contra hl
    have := not_isParamSeparator_of_isLetter (by simpa using hl)
    grind
  induction h with
  | last hc => exact List.forall_mem_singleton.2 (hseparator hc)
  | separator hc _ ih => exact List.forall_mem_cons.2 ⟨hseparator hc, ih⟩
  | word hc htoken _ _ ih =>
    exact List.forall_mem_cons.2
      ⟨hseparator hc, List.forall_mem_append.2 ⟨htoken.letterless, ih⟩⟩

/-! ## Texts with gaps -/

/-- Two gaps make no difference to the commands, nor to the numbers of the first text whatever is
put in front of it. -/
theorem split_append_gap {gap gap' : List Char} (h : IsGap gap) (h' : IsGap gap')
    (text rest : List Char) :
    (∀ front, readParams (front ++ (split (text ++ (gap ++ rest))).1) =
      readParams (front ++ (split (text ++ (gap' ++ rest))).1)) ∧
    (split (text ++ (gap ++ rest))).2.map (fun c => (⟨c.1, readParams c.2⟩ : PathCommand)) =
      (split (text ++ (gap' ++ rest))).2.map fun c => ⟨c.1, readParams c.2⟩ := by
  induction text with
  | nil =>
    simp only [List.nil_append, split_letterless_append h.letterless,
      split_letterless_append h'.letterless, h.readParams_append, h'.readParams_append]
    exact ⟨fun _ => trivial, trivial⟩
  | cons c text ih =>
    obtain ⟨hfirst, hcommands⟩ := ih
    simp only [List.cons_append, split]
    split
    · -- the letter takes the first text for its own
      have htext := hfirst []
      rw [List.nil_append, List.nil_append] at htext
      exact ⟨fun _ => rfl, by simp [htext, hcommands]⟩
    · refine ⟨fun front => ?_, hcommands⟩
      simpa using hfirst (front ++ [c])

/-- One gap may stand for another anywhere in path data. -/
theorem ofData_append_gap {gap gap' : List Char} (h : IsGap gap) (h' : IsGap gap')
    (a b : String) :
    ofData (a ++ String.ofList gap ++ b) = ofData (a ++ String.ofList gap' ++ b) := by
  have hcommands := (split_append_gap h h' a.toList b.toList).2
  simpa [ofData] using hcommands

/-- A text that begins with a letter, or is empty, is read on its own. -/
theorem ofData_append_of_head? {a b : String} (h : ∀ c ∈ b.toList.head?, isLetter c = true) :
    ofData (a ++ b) = ofData a ++ ofData b := by
  have hfirst : (split b.toList).1 = [] := by
    cases hb : b.toList with
    | nil => rfl
    | cons c rest =>
      rw [hb] at h
      simp [split, h c rfl]
  simpa using ofData_append a.toList b.toList hfirst

/-- Commands that are spelled out are read as they are, whatever words stand for their numbers and
whatever separators stand between them. A text that goes on with a letter is read piece by piece,
and in between separators anything that is no number may be put in. -/
theorem ofData_laws :
    (∀ (commands : List PathCommand) (texts : List (List Char)) (front : List Char) (data : String),
      List.Forall₂ SpelledAs commands texts →
      (∀ c ∈ commands, isLetter c.letter = true ∧ ∀ x ∈ c.params, x.isNaN = false) →
      (∀ c ∈ front, isLetter c = false) → data.toList = front ++ texts.flatten →
        ofData data = commands) ∧
    (∀ a b : String, (∀ c ∈ b.toList.head?, isLetter c = true) →
      ofData (a ++ b) = ofData a ++ ofData b) ∧
    ∀ (a b : String) (gap gap' : List Char), IsGap gap → IsGap gap' →
      ofData (a ++ String.ofList gap ++ b) = ofData (a ++ String.ofList gap' ++ b) :=
  ⟨fun _ _ _ _ hspelled hcommands hfront hdata =>
      ofData_eq_of_spelled hspelled hcommands hfront hdata,
    fun _ _ h => ofData_append_of_head? h, fun a b _ _ h h' => ofData_append_gap h h' a b⟩

/-- A move with a blank and a comma in front of its numbers, directly behind it the end of the
subpath, and a line to infinity; something is in front that is no command, and a word that is no
number is put into the line. -/
theorem ofData_laws_of_plate :
    let plate : List PathCommand := [⟨'M', [0.5, -30]⟩, ⟨'z', []⟩,
      ⟨'l', [1, Binary64.signed false Binary64.infinityWord]⟩]
    ofData "12 px;M ,.5,-3e1zl1 , INF" = plate ∧
      ofData ("M ,.5,-3e1z" ++ "l1 , INF") = ofData "M ,.5,-3e1z" ++ ofData "l1 , INF" ∧
        ofData ("l1" ++ String.ofList ", foo 5px ".toList ++ "INF") =
          ofData ("l1" ++ String.ofList " ".toList ++ "INF") := by
  intro plate
  obtain ⟨hspelled, happend, hgap⟩ := ofData_laws
  have hmove := SpelledAs.intro (c := ⟨'M', [0.5, -30]⟩)
    (.separator (c := ' ') rfl (.separator (c := ',') rfl
      (.word_cons ['.', '5'] (c := ',') rfl (.singleton ['-', '3', 'e', '1']))))
    (.cons (by decide +kernel) (.cons (by decide +kernel) .nil)) (by decide +kernel)
  have hclose := SpelledAs.intro (c := ⟨'z', []⟩) .nil .nil nofun
  have hline := SpelledAs.intro (c := ⟨'l', [1, Binary64.signed false Binary64.infinityWord]⟩)
    (.word_cons ['1'] (c := ' ') rfl (.separator (c := ',') rfl (.separator (c := ' ') rfl
      (.singleton ['I', 'N', 'F']))))
    (.cons (by decide +kernel) (.cons (by decide +kernel) .nil)) (by decide +kernel)
  have hwords : IsGap [',', ' ', 'f', 'o', 'o', ' ', '5', 'p', 'x', ' '] :=
    .separator rfl (.word rfl (by decide +kernel : IsToken ['f', 'o', 'o']) (by decide +kernel)
      (.word rfl (by decide +kernel : IsToken ['5', 'p', 'x']) (by decide +kernel) (.last rfl)))
  have hfront : ∀ c ∈ "12 px;".toList, isLetter c = false := by
    have h : "12 px;".toList.all (fun c => !isLetter c) = true := by decide +kernel
    simpa only [List.all_eq_true, Bool.not_eq_true'] using h
  refine ⟨?_, happend _ _ ?_, hgap _ _ _ _ hwords (.last rfl)⟩
  · exact hspelled plate _ _ _ (.cons hmove (.cons hclose (.cons hline .nil)))
      (by decide +kernel) hfront rfl
  · exact fun c hc => Option.some.inj hc ▸ (by decide +kernel : isLetter 'l' = true)

end LaserPath.PathCommand
