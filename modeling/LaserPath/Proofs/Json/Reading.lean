import LaserPath.Proofs.Json.Tokens

/-!
# Values in JSON, written and read

A value that has been written is read as it was, but for its numbers: each of them is what its
digits are read as. How the lines are broken does not matter.

## Main definitions

* `Json.Reads` — a text is read as a value, within any containers.
* `Json.reread` — a value with each of its numbers as it is read.

## Main statements

* `Json.reads_array`, `Json.reads_object` — containers from what they hold.
* `Json.reads_prettyChars`, `Json.read_pretty` — a value that has been written on many lines.
* `Json.reads_compactChars`, `Json.read_compact` — a value that has been written on one line.
-/

namespace LaserPath.Json

variable {stack outer : List Frame} {s : State} {json : Json} {text gap : List Char} {c : Char}

/-! ## Behind a value -/

/-- The machine has taken all of a value, or a number that may end here. -/
inductive Behind (stack : List Frame) (json : Json) : State → Prop where
  | done : Behind stack json ⟨stack, .done json⟩
  | number {n : NumberText} (hc : n.phase.isComplete = true) (hv : n.value .record = .ok json) :
    Behind stack json ⟨stack, .number n⟩

/-- Blanks and line ends. -/
def IsGap (gap : List Char) : Prop := ∀ c ∈ gap, c = ' ' ∨ c = '\n'

/-- What may follow a value. -/
def IsEnd (c : Char) : Prop := c = ' ' ∨ c = '\n' ∨ c = ',' ∨ c = ']' ∨ c = '}'

/-- A number goes on with none of the characters that follow values. -/
theorem next?_eq_none {phase : NumberPhase} (hp : phase.isComplete = true) (hc : IsEnd c) :
    phase.next? c = none ∧ c.isDigit = false := by
  revert hp
  rcases hc with rfl | rfl | rfl | rfl | rfl <;> cases phase <;> decide

theorem Behind.step (h : Behind stack json s) (hc : IsEnd c) :
    step .record s c = State.afterValue .record stack json c := by
  cases h with
  | done => rfl
  | number hp hv =>
    obtain ⟨hnext, hdigit⟩ := next?_eq_none hp hc
    unfold Json.step
    simp only [hnext, hp, hdigit, Bool.and_false, Bool.not_false, Bool.and_true, if_true, hv]
    rfl

theorem Behind.finish (h : Behind [] json s) : finish .record s = .ok json := by
  cases h with
  | done => rfl
  | number hp hv =>
    unfold Json.finish
    simp only [hp, if_true, hv]
    rfl

/-- A gap behind a value changes nothing. -/
theorem Behind.runs_gap (h : Behind stack json s) (hg : IsGap gap) :
    ∃ t, Runs .record s gap t ∧ Behind stack json t := by
  induction gap generalizing s with
  | nil => exact ⟨s, .nil s, h⟩
  | cons c gap ih =>
    obtain ⟨hc, hg⟩ := List.forall_mem_cons.1 hg
    obtain ⟨t, hrun, ht⟩ := ih .done hg
    refine ⟨t, .cons ?_ hrun, ht⟩
    rw [h.step (by unfold IsEnd; tauto)]
    rcases hc with rfl | rfl <;> rfl

/-- The modes in which gaps are passed over. -/
def Mode.Waits : Mode → Prop
  | .value | .firstItem | .firstKey | .key _ | .colon _ _ => True
  | _ => False

theorem runs_gap (mode : Mode) (hm : mode.Waits) (hg : IsGap gap) :
    Runs .record ⟨stack, mode⟩ gap ⟨stack, mode⟩ := by
  induction gap with
  | nil => exact .nil _
  | cons c gap ih =>
    obtain ⟨hc, hg⟩ := List.forall_mem_cons.1 hg
    refine .cons ?_ (ih hg)
    have hspace : isSpace c = true := by rcases hc with rfl | rfl <;> rfl
    unfold step
    cases mode <;> simp_all [Mode.Waits]

/-! ## Values -/

/-- A text is read as a value where a value is due. -/
def Reads (text : List Char) (json : Json) : Prop :=
  ∀ stack, ∃ s, Runs .record ⟨stack, .value⟩ text s ∧ Behind stack json s

theorem Reads.read_eq (h : Reads text json) : read .record (String.ofList text) = .ok json := by
  obtain ⟨s, hrun, hs⟩ := h []
  rw [read, String.toList_ofList, hrun]
  exact hs.finish

theorem reads_null : Reads "null".toList .null := fun _ => ⟨_, rfl, .done⟩

theorem reads_bool (b : Bool) : Reads (if b then "true" else "false").toList (.bool b) := by
  intro stack
  cases b <;> exact ⟨_, rfl, .done⟩

/-- A number that may end where its text does. -/
theorem reads_number {n : NumberText} (h : NumberText.run? text = some n)
    (hc : n.phase.isComplete = true) (hv : n.value .record = .ok json) : Reads text json :=
  fun _ => ⟨_, NumberText.runs_run? h, .number hc hv⟩

/-- A string in quotation marks is taken up to the last one. -/
theorem runs_quoted (role : StringRole) (text : String) :
    Runs .record ⟨stack, .string role .empty⟩ (text.toList.flatMap escape)
      ⟨stack, .string role ⟨.plain, text.toList.reverse, false⟩⟩ := by
  have h := @runs_escapes .record stack role .empty rfl text.toList
  rwa [StringText.empty, List.append_nil] at h

theorem text?_reverse (text : String) :
    StringText.text? ⟨.plain, text.toList.reverse, false⟩ = some text := by
  simp [StringText.text?]

theorem reads_string (text : String) : Reads (quoted text) (.string text) := by
  intro stack
  have hlast : step .record ⟨stack, .string .value ⟨.plain, text.toList.reverse, false⟩⟩ '"' =
      .ok ⟨stack, .done (.string text)⟩ := by
    unfold step
    simp [StringText.endsAt, text?_reverse]
  exact ⟨_, .cons rfl ((runs_quoted .value text).append (.cons hlast (.nil _))), .done⟩

theorem runs_quotedKey (members : Members) (key : String) :
    Runs .record ⟨stack, .key members⟩ (quoted key) ⟨stack, .colon members (some key)⟩ := by
  have hlast : step .record ⟨stack, .string (.key members) ⟨.plain, key.toList.reverse, false⟩⟩
      '"' = .ok ⟨stack, .colon members (some key)⟩ := by
    unfold step
    simp [StringText.endsAt, text?_reverse]
  exact .cons rfl ((runs_quoted (.key members) key).append (.cons hlast (.nil _)))

/-- A key behind other members. -/
theorem runs_key (members : Members) (key : String) (hg : IsGap gap) :
    Runs .record ⟨stack, .key members⟩ (gap ++ quoted key) ⟨stack, .colon members (some key)⟩ :=
  (runs_gap (.key members) trivial hg).append (runs_quotedKey members key)

/-- The first key is one behind no members. -/
theorem runs_firstKey (key : String) (hg : IsGap gap) :
    Runs .record ⟨stack, .firstKey⟩ (gap ++ quoted key) ⟨stack, .colon [] (some key)⟩ :=
  (runs_gap .firstKey trivial hg).append (runs_quotedKey [] key)

/-! ## Arrays -/

/-- A text is read as the items behind the one that has been read, and the end of an array. -/
def ReadsItems (text : List Char) (items : List Json) : Prop :=
  ∀ (outer : List Frame) (front : List Json) (last : Json) (s : State),
    Behind (.array front.reverse :: outer) last s →
      Runs .record s text ⟨outer, .done (.array (front ++ last :: items))⟩

theorem readsItems_nil (hg : IsGap gap) : ReadsItems (gap ++ [']']) [] := by
  intro outer front last s hs
  obtain ⟨t, hrun, ht⟩ := hs.runs_gap hg
  refine hrun.append (.cons ?_ (.nil _))
  rw [ht.step (by simp [IsEnd])]
  simp [State.afterValue, isSpace]

theorem readsItems_cons {rest : List Char} {items : List Json} (hg : IsGap gap)
    (ht : Reads text json) (hr : ReadsItems rest items) :
    ReadsItems (',' :: (gap ++ text ++ rest)) (json :: items) := by
  intro outer front last s hs
  obtain ⟨t, hrun, ht⟩ := ht (.array (front ++ [last]).reverse :: outer)
  have hcomma : step .record s ',' = .ok ⟨.array (front ++ [last]).reverse :: outer, .value⟩ := by
    rw [hs.step (by simp [IsEnd])]
    simp [State.afterValue, isSpace]
  have hrest := hr outer (front ++ [last]) json t ht
  rw [List.append_assoc, List.singleton_append] at hrest
  exact .cons hcomma (((runs_gap .value trivial hg).append hrun).append hrest)

/-- The first item of an array is read as a value. -/
theorem runs_firstItem {items : List Json}
    (hrun : Runs .record ⟨.array items :: outer, .value⟩ text s)
    (hs : Behind (.array items :: outer) json s) :
    Runs .record ⟨.array items :: outer, .firstItem⟩ text s := by
  induction text with
  | nil =>
    cases hrun
    cases hs
  | cons c text ih =>
    obtain ⟨t, hstep, hrun⟩ := hrun.exists_of_cons
    unfold step at hstep
    dsimp only at hstep
    split at hstep
    · next hspace =>
      obtain rfl := Except.ok.inj hstep
      refine .cons ?_ (ih hrun)
      unfold step
      simp only [hspace, if_true]
    · next hspace =>
      have hend : c ≠ ']' := by
        rintro rfl
        cases hstep
      refine .cons ?_ hrun
      unfold step
      dsimp only
      rw [if_neg hspace]
      split
      · exact absurd rfl hend
      · exact hstep

theorem reads_array_nil : Reads ['[', ']'] (.array []) := fun _ => ⟨_, rfl, .done⟩

/-- An array from its first item and the others. -/
theorem reads_array {rest : List Char} {items : List Json} (hg : IsGap gap)
    (ht : Reads text json) (hr : ReadsItems rest items) :
    Reads ('[' :: (gap ++ text ++ rest)) (.array (json :: items)) := by
  intro stack
  obtain ⟨t, hrun, ht⟩ := ht (.array [] :: stack)
  exact ⟨_, .cons rfl (((runs_gap .firstItem trivial hg).append (runs_firstItem hrun ht)).append
    (hr stack [] json t ht)), .done⟩

/-! ## Objects -/

/-- The members that have been read, the last one first. -/
def taken (members : List (String × Json)) : Members :=
  (members.map fun m => (some m.1, m.2)).reverse

theorem taken_append (front : List (String × Json)) (key : String) (value : Json) :
    Members.add .record (taken front) (some key) value = taken (front ++ [(key, value)]) := by
  simp [Members.add, taken, Rules.record]

theorem close_taken (members : List (String × Json)) :
    (taken members).close = .object members := by
  have hwhole : (members.map fun m => (some m.1, m.2)).mapM wholeMember? = some members := by
    induction members with
    | nil => rfl
    | cons member members ih => simp [wholeMember?, ih]
  rw [Members.close, taken, List.reverse_reverse, hwhole]
  rfl

/-- A text is read as the members behind the one that has been read, and the end of an object. -/
def ReadsMembers (text : List Char) (members : List (String × Json)) : Prop :=
  ∀ (outer : List Frame) (front : List (String × Json)) (key : String) (last : Json) (s : State),
    Behind (.object (taken front) (some key) :: outer) last s →
      Runs .record s text ⟨outer, .done (.object (front ++ (key, last) :: members))⟩

theorem readsMembers_nil (hg : IsGap gap) : ReadsMembers (gap ++ ['}']) [] := by
  intro outer front key last s hs
  obtain ⟨t, hrun, ht⟩ := hs.runs_gap hg
  refine hrun.append (.cons ?_ (.nil _))
  rw [ht.step (by simp [IsEnd])]
  simp [State.afterValue, isSpace, taken_append, close_taken]

theorem readsMembers_cons (key : String) {colon rest : List Char}
    {members : List (String × Json)} (hg : IsGap gap) (hc : IsGap colon) (ht : Reads text json)
    (hr : ReadsMembers rest members) :
    ReadsMembers (',' :: (gap ++ quoted key ++ ':' :: (colon ++ text ++ rest)))
      ((key, json) :: members) := by
  intro outer front before last s hs
  have hcomma : step .record s ',' = .ok ⟨outer, .key (taken (front ++ [(before, last)]))⟩ := by
    rw [hs.step (by simp [IsEnd])]
    simp [State.afterValue, isSpace, taken_append]
  obtain ⟨t, hrun, ht⟩ := ht (.object (taken (front ++ [(before, last)])) (some key) :: outer)
  have hrest := hr outer (front ++ [(before, last)]) key json t ht
  rw [List.append_assoc, List.singleton_append] at hrest
  have hvalue := ((runs_gap .value trivial hc).append hrun).append hrest
  exact .cons hcomma ((runs_key _ key hg).append (.cons rfl hvalue))

theorem reads_object_nil : Reads ['{', '}'] (.object []) := fun _ => ⟨_, rfl, .done⟩

/-- An object from its first member and the others. -/
theorem reads_object (key : String) {colon rest : List Char} {members : List (String × Json)}
    (hg : IsGap gap) (hc : IsGap colon) (ht : Reads text json) (hr : ReadsMembers rest members) :
    Reads ('{' :: (gap ++ quoted key ++ ':' :: (colon ++ text ++ rest)))
      (.object ((key, json) :: members)) := by
  intro stack
  obtain ⟨t, hrun, ht⟩ := ht (.object (taken []) (some key) :: stack)
  have hvalue := ((runs_gap .value trivial hc).append hrun).append (hr stack [] key json t ht)
  exact ⟨_, .cons rfl ((runs_firstKey key hg).append (.cons rfl hvalue)), .done⟩

/-! ## What is written -/

/-- What the text of a number is read as. -/
def rereadText (text : List Char) : Json :=
  (read .record (String.ofList text)).toOption.getD .broken

mutual

/-- A value with each of its numbers as its text is read. What has no text of its own is null. -/
def reread : Json → Json
  | .null | .broken => .null
  | .bool b => .bool b
  | .integer n => rereadText (wholeText n)
  | .real x => rereadText (realText x)
  | .string s => .string s
  | .array items => .array (rereadItems items)
  | .object members => .object (rereadMembers members)

/-- The items of an array as they are read. -/
def rereadItems : List Json → List Json
  | [] => []
  | item :: items => reread item :: rereadItems items

/-- The members of an object as they are read. -/
def rereadMembers : List (String × Json) → List (String × Json)
  | [] => []
  | (key, value) :: members => (key, reread value) :: rereadMembers members

end

theorem realText_eq {x : Float} {d : Decimal} (h : Decimal.ofFloat? .toEven x = some d) :
    realText x = d.spell .scientific := by
  rw [realText, h]
  rfl

theorem Reads.rereadText_eq (h : Reads text json) : rereadText text = json := by
  rw [rereadText, h.read_eq]
  rfl

/-- No number is refused where a record is read. -/
theorem exists_value (n : NumberText) : ∃ json, n.value .record = .ok json := by
  unfold NumberText.value
  split
  · exact ⟨_, rfl⟩
  · split
    · exact ⟨_, rfl⟩
    · exact ⟨_, rfl⟩

theorem reads_rereadText {n : NumberText} (h : NumberText.run? text = some n)
    (hc : n.phase.isComplete = true) : Reads text (rereadText text) := by
  obtain ⟨json, hv⟩ := exists_value n
  have hr := reads_number h hc hv
  rwa [hr.rereadText_eq]

theorem run?_wholeText (n : Int) : ∃ m, NumberText.run? (wholeText n) = some m ∧
    m.phase.isComplete = true ∧ m.isWhole = true ∧ m.negative = decide (n < 0) ∧
      m.whole = (digitsOf n.natAbs).reverse := by
  have hrun := NumberText.run?_whole (digitsOf_ne_nil n.natAbs)
    (fun _ => isDigit_of_mem_digitsOf) (digitsOf_lead n.natAbs) (decide (n < 0))
  refine ⟨⟨if digitsOf n.natAbs = ['0'] then .zero else .whole, decide (n < 0),
    (digitsOf n.natAbs).reverse, [], false, 0, true⟩, ?_, ?_, rfl, rfl, rfl⟩
  · rw [wholeText, ← hrun]
    simp only [decide_eq_true_eq]
  · dsimp only
    split <;> rfl

theorem reads_wholeText (n : Int) : Reads (wholeText n) (rereadText (wholeText n)) := by
  obtain ⟨m, hrun, hc, -⟩ := run?_wholeText n
  exact reads_rereadText hrun hc

/-- A whole number of at most 64 bits is read as it was. -/
theorem reread_integer {n : Int} (h : fitsWord n = true) : reread (.integer n) = .integer n := by
  obtain ⟨m, hrun, hc, hwhole, hnegative, hdigits⟩ := run?_wholeText n
  have hsigned : (if decide (n < 0) = true then -(n.natAbs : Int) else n.natAbs) = n := by
    by_cases hn : n < 0
    · rw [decide_eq_true hn, if_pos rfl]
      omega
    · rw [decide_eq_false hn, if_neg Bool.false_ne_true]
      omega
  have hzero : (decide (n < 0) && n.natAbs == 0) = false := by
    by_cases hn : n < 0
    · rw [beq_false_of_ne (by omega), Bool.and_false]
    · rw [decide_eq_false hn, Bool.false_and]
  have hinteger : m.whole? = some n := by
    unfold NumberText.whole?
    rw [hwhole, hnegative, hdigits, List.reverse_reverse, valueOfDigits_digitsOf]
    dsimp only
    rw [hsigned, h, hzero]
    rfl
  have hv : m.value .record = .ok (.integer n) := by
    unfold NumberText.value
    rw [hinteger]
  exact (reads_number hrun hc hv).rereadText_eq

variable {x : Float} {d : Decimal}

/-- The text of a decimal is a number with a point or an exponent. -/
theorem exists_run?_realText (h : Decimal.ofFloat? .toEven x = some d) :
    ∃ m, NumberText.run? (realText x) = some m ∧ m.phase.isComplete = true ∧
      m.isWhole = false := by
  obtain ⟨n, hw, -, htext, -⟩ := Decimal.exists_numeral (s := .scientific) rfl d
    (Decimal.exponent_of_ofFloat?_eq h)
  have hrun := NumberText.exists_run?_signed hw d.negative
  rwa [← htext, ← realText_eq h] at hrun

theorem reads_realText (x : Float) : Reads (realText x) (rereadText (realText x)) := by
  cases h : Decimal.ofFloat? .toEven x with
  | none =>
    have hnull : realText x = "null".toList := by
      rw [realText, h]
      rfl
    rw [hnull, reads_null.rereadText_eq]
    exact reads_null
  | some d =>
    obtain ⟨m, hrun, hc, -⟩ := exists_run?_realText h
    exact reads_rereadText hrun hc

/-- Digits are read as some double, or as a number out of range. -/
theorem reread_real (h : Decimal.ofFloat? .toEven x = some d) :
    (∃ y, reread (.real x) = .real y) ∨ reread (.real x) = .broken := by
  obtain ⟨m, hrun, hc, hwhole⟩ := exists_run?_realText h
  obtain ⟨json, hv⟩ := exists_value m
  have hr : reread (.real x) = json := (reads_number hrun hc hv).rereadText_eq
  have hnone : m.whole? = none := by simp [NumberText.whole?, hwhole]
  rw [hr]
  unfold NumberText.value at hv
  rw [hnone] at hv
  dsimp only at hv
  split at hv
  · exact .inl ⟨_, (Except.ok.inj hv).symm⟩
  · exact .inr (Except.ok.inj hv).symm

theorem isGap_nil : IsGap [] := by simp [IsGap]

theorem isGap_blank : IsGap [' '] := by simp [IsGap]

theorem isGap_lineStart (depth : Nat) : IsGap (lineStart depth) := by
  simp [IsGap, lineStart]

mutual

/-- A value that has been written on many lines is read as it was, but for its numbers. -/
theorem reads_prettyChars (depth : Nat) (json : Json) :
    Reads (prettyChars depth json) json.reread :=
  match json with
  | .null | .broken => reads_null
  | .bool true => reads_bool true
  | .bool false => reads_bool false
  | .integer n => reads_wholeText n
  | .real x => reads_realText x
  | .string s => reads_string s
  | .array [] => reads_array_nil
  | .array (item :: items) =>
    reads_array (isGap_lineStart (depth + 1)) (reads_prettyChars (depth + 1) item)
      (readsItems_prettyItems depth items)
  | .object [] => reads_object_nil
  | .object ((key, value) :: members) =>
    reads_object key (isGap_lineStart (depth + 1)) isGap_blank
      (reads_prettyChars (depth + 1) value) (readsMembers_prettyMembers depth members)

theorem readsItems_prettyItems (depth : Nat) (items : List Json) :
    ReadsItems (prettyItems depth items) (rereadItems items) :=
  match items with
  | [] => readsItems_nil (isGap_lineStart depth)
  | item :: items =>
    readsItems_cons (isGap_lineStart (depth + 1)) (reads_prettyChars (depth + 1) item)
      (readsItems_prettyItems depth items)

theorem readsMembers_prettyMembers (depth : Nat) (members : List (String × Json)) :
    ReadsMembers (prettyMembers depth members) (rereadMembers members) :=
  match members with
  | [] => readsMembers_nil (isGap_lineStart depth)
  | (key, value) :: members =>
    readsMembers_cons key (isGap_lineStart (depth + 1)) isGap_blank
      (reads_prettyChars (depth + 1) value) (readsMembers_prettyMembers depth members)

end

mutual

/-- So is a value that has been written on one line. -/
theorem reads_compactChars (json : Json) : Reads (compactChars json) json.reread :=
  match json with
  | .null | .broken => reads_null
  | .bool true => reads_bool true
  | .bool false => reads_bool false
  | .integer n => reads_wholeText n
  | .real x => reads_realText x
  | .string s => reads_string s
  | .array [] => reads_array_nil
  | .array (item :: items) =>
    reads_array isGap_nil (reads_compactChars item) (readsItems_compactItems items)
  | .object [] => reads_object_nil
  | .object ((key, value) :: members) =>
    reads_object key isGap_nil isGap_nil (reads_compactChars value)
      (readsMembers_compactMembers members)

theorem readsItems_compactItems (items : List Json) :
    ReadsItems (compactItems items) (rereadItems items) :=
  match items with
  | [] => readsItems_nil isGap_nil
  | item :: items =>
    readsItems_cons isGap_nil (reads_compactChars item) (readsItems_compactItems items)

theorem readsMembers_compactMembers (members : List (String × Json)) :
    ReadsMembers (compactMembers members) (rereadMembers members) :=
  match members with
  | [] => readsMembers_nil isGap_nil
  | (key, value) :: members =>
    readsMembers_cons key isGap_nil isGap_nil (reads_compactChars value)
      (readsMembers_compactMembers members)

end

/-- Reading inverts writing on many lines, but for the numbers. -/
theorem read_pretty (json : Json) : read .record json.pretty = .ok json.reread :=
  (reads_prettyChars 0 json).read_eq

/-- Reading inverts writing on one line, but for the numbers. -/
theorem read_compact (json : Json) : read .record json.compact = .ok json.reread :=
  (reads_compactChars json).read_eq

end LaserPath.Json
