import LaserPath.Proofs.Toml.Scalar

/-!
# Lines in TOML

A document without strings, containers and dotted keys is a list of blank lines, headers and pairs.
Reading it does to the tables what its lines do, one after the other.

## Main definitions

* `Toml.Line` — a line; `Toml.Line.apply` is what it does to the tables.

## Main statements

* `Toml.lines?_header`, `Toml.lines?_pair` — one line.
* `Toml.lines?_flatMap_chars` — a document.
* `Toml.foldlM_apply_tableLines` — the lines of a table.
-/

namespace LaserPath.Toml

/-- A line of a plain document. -/
inductive Line where
  | blank
  | header (key : String)
  /-- A key and a word that stands for the value. -/
  | pair (key : String) (word : List Char) (value : Toml)

/-- A key that needs no marks. -/
structure IsPlainKey (key : String) : Prop where
  ne_nil : key.toList ≠ []
  bare : ∀ c ∈ key.toList, isBareKey c = true

namespace Line

/-- The characters of a line, with its end. -/
def chars : Line → List Char
  | .blank => ['\n']
  | .header key => '[' :: (key.toList ++ [']', '\n'])
  | .pair key word _ => key.toList ++ ' ' :: '=' :: ' ' :: (word ++ ['\n'])

/-- Keys need no marks, and words stand for their values. -/
def Plain : Line → Prop
  | .blank => True
  | .header key => IsPlainKey key
  | .pair key word value => IsPlainKey key ∧ value.IsWordOf word

/-- What a line does to the path of the open table and to the tables. -/
def apply : List String × Entries → Line → Option (List String × Entries)
  | state, .blank => some state
  | (_, entries), .header key => (entries.openTable [] key).map fun entries => ([key], entries)
  | (opened, entries), .pair key _ value =>
    (entries.addLine opened [] key value).map fun entries => (opened, entries)

end Line

/-! ## Keys -/

variable {key : String}

theorem IsPlainKey.exists_cons (h : IsPlainKey key) :
    ∃ c rest, key.toList = c :: rest ∧ isBareKey c = true := by
  obtain ⟨c, rest, hc⟩ := List.exists_cons_of_ne_nil h.ne_nil
  exact ⟨c, rest, hc, h.bare c (by simp [hc])⟩

/-- The characters that begin something else than a key. -/
theorem ne_of_isBareKey {c : Char} (h : isBareKey c = true) :
    ∀ a ∈ ['\n', '\r', ' ', '\t', '#', '[', '"', '\''], c ≠ a := by
  intro a ha hca
  have hnot : ∀ a ∈ ['\n', '\r', ' ', '\t', '#', '[', '"', '\''], isBareKey a = false := by
    simp [isBareKey]
  rw [hca, hnot a ha] at h
  cases h

theorem simpleKey?_plain {c : Char} (h : IsPlainKey key) (hc : isBareKey c = false)
    (rest : List Char) : simpleKey? (key.toList ++ c :: rest) = some (key, c :: rest) := by
  obtain ⟨first, tail, hkey, hfirst⟩ := h.exists_cons
  have hne := ne_of_isBareKey hfirst
  have htake : (key.toList ++ c :: rest).takeWhile isBareKey = key.toList :=
    takeWhile_append_cons h.bare hc
  have hdrop : (key.toList ++ c :: rest).dropWhile isBareKey = c :: rest :=
    dropWhile_append_cons h.bare hc
  have hempty : key.toList.isEmpty = false := by simp [hkey]
  unfold simpleKey?
  split
  · simp_all
  · simp_all
  · dsimp only
    rw [htake, hdrop, hempty, if_neg Bool.false_ne_true, String.ofList_toList]

/-- A key ends in front of a mark, and blanks between them are passed over. -/
theorem dottedKey?_plain {mark : Char} (h : IsPlainKey key) (hb : isBareKey mark = false)
    (hs : isSpace mark = false) (hd : mark ≠ '.') (rest : List Char) :
    dottedKey? (depthLimit - 1) (key.toList ++ mark :: rest) = some (([], key), mark :: rest) ∧
      dottedKey? (depthLimit - 1) (key.toList ++ ' ' :: mark :: rest) =
        some (([], key), mark :: rest) := by
  have hfuel : depthLimit - 1 = 78 + 1 := rfl
  obtain ⟨first, tail, hkey, hfirst⟩ := h.exists_cons
  have hstart (text : List Char) : skipSpace (key.toList ++ text) = key.toList ++ text := by
    have hne := ne_of_isBareKey hfirst
    rw [hkey, List.cons_append, skipSpace, List.dropWhile_cons_of_neg (by simp_all [isSpace])]
  have hskip : skipSpace (mark :: rest) = mark :: rest := by
    rw [skipSpace, List.dropWhile_cons_of_neg (by simp [hs])]
  have hskip' : skipSpace (' ' :: mark :: rest) = mark :: rest := by
    rw [skipSpace, List.dropWhile_cons_of_pos rfl, ← skipSpace, hskip]
  refine ⟨?_, ?_⟩
  · rw [hfuel, dottedKey?, hstart, simpleKey?_plain h hb]
    simp only [Option.bind_eq_bind, Option.bind_some, hskip]
    split
    · simp_all
    · rfl
  · rw [hfuel, dottedKey?, hstart, simpleKey?_plain h (by decide)]
    simp only [Option.bind_eq_bind, Option.bind_some, hskip']
    split
    · simp_all
    · rfl

/-! ## Lines -/

section

variable {fuel : Nat} {opened : List String} {entries : Entries}

theorem skipLines_of_ne {c : Char} (h : ∀ a ∈ ['\n', '\r', ' ', '\t', '#'], c ≠ a)
    (rest : List Char) : skipLines false (c :: rest) = some (c :: rest) := by
  unfold skipLines
  split <;> simp_all [isSpace]

theorem lines?_blank (rest : List Char) :
    lines? (fuel + 1) opened entries ('\n' :: rest) = lines? (fuel + 1) opened entries rest := by
  rw [lines?, lines?, skipLines]

theorem endLine?_newline (rest : List Char) : endLine? ('\n' :: rest) = some rest := by
  rfl

theorem header?_plain (h : IsPlainKey key) (rest : List Char) :
    header? (key.toList ++ ']' :: rest) = some (([], key, false), rest) := by
  obtain ⟨first, tail, hkey, hfirst⟩ := h.exists_cons
  have hne := ne_of_isBareKey hfirst
  have hread := (dottedKey?_plain h (by decide : isBareKey ']' = false) (by decide) (by decide)
    rest).1
  unfold header?
  split
  · simp_all
  · rw [hread]
    rfl

/-- A header opens a table. -/
theorem lines?_header (h : IsPlainKey key) (rest : List Char) :
    lines? (fuel + 1) opened entries ((Line.header key).chars ++ rest) =
      (entries.openTable [] key).bind fun entries => lines? fuel [key] entries rest := by
  have htext : (Line.header key).chars ++ rest = '[' :: (key.toList ++ ']' :: '\n' :: rest) := by
    simp [Line.chars]
  rw [htext, lines?, skipLines_of_ne (by simp)]
  simp only [Option.bind_eq_bind, Option.bind_some, header?_plain h, endLine?_newline]
  rfl

/-- A pair is added to the open table. -/
theorem lines?_pair {value : Toml} {word : List Char} (h : IsPlainKey key)
    (hv : value.IsWordOf word) (rest : List Char) :
    lines? (fuel + 2) opened entries ((Line.pair key word value).chars ++ rest) =
      (entries.addLine opened [] key value).bind fun entries =>
        lines? (fuel + 1) opened entries rest := by
  obtain ⟨first, tail, hkey, hfirst⟩ := h.exists_cons
  have hne := ne_of_isBareKey hfirst
  have hread := (dottedKey?_plain h (by decide : isBareKey '=' = false) (by decide) (by decide)
    (' ' :: (word ++ '\n' :: rest))).2
  have hword : skipSpace (' ' :: (word ++ '\n' :: rest)) = word ++ '\n' :: rest := by
    obtain ⟨c, others, rfl⟩ := List.exists_cons_of_ne_nil hv.ne_nil
    have hc := hv.isWord c (List.mem_cons_self ..)
    have hspace : isSpace c = false := by
      by_contra hs
      simp only [isSpace, Bool.not_eq_false, Bool.or_eq_true, beq_iff_eq] at hs
      rcases hs with rfl | rfl <;> exact absurd hc (by decide)
    rw [skipSpace, List.dropWhile_cons_of_pos rfl, List.cons_append,
      List.dropWhile_cons_of_neg (by simp [hspace])]
  have htext : (Line.pair key word value).chars ++ rest =
      key.toList ++ ' ' :: '=' :: ' ' :: (word ++ '\n' :: rest) := by
    simp [Line.chars]
  have hlines : skipLines false (key.toList ++ ' ' :: '=' :: ' ' :: (word ++ '\n' :: rest)) =
      some (key.toList ++ ' ' :: '=' :: ' ' :: (word ++ '\n' :: rest)) := by
    rw [hkey, List.cons_append, skipLines_of_ne (by simp_all)]
  rw [htext, lines?, hlines]
  simp only [Option.bind_eq_bind, Option.bind_some]
  split
  · simp_all
  · simp_all
  · rw [hread]
    simp only [Option.bind_some, behind?, if_pos, hword, value?_word hv, endLine?_newline]

end

/-- A document is read line by line. -/
theorem lines?_flatMap_chars {lines : List Line} (h : ∀ line ∈ lines, line.Plain) {fuel : Nat}
    (hf : lines.length + 2 ≤ fuel) (opened : List String) (entries : Entries) :
    lines? fuel opened entries (lines.flatMap Line.chars) =
      (lines.foldlM Line.apply (opened, entries)).map Prod.snd := by
  induction lines generalizing fuel opened entries with
  | nil =>
    obtain ⟨fuel, rfl⟩ := Nat.exists_eq_add_of_le' hf
    rfl
  | cons line lines ih =>
    obtain ⟨hline, hlines⟩ := List.forall_mem_cons.1 h
    rw [List.length_cons] at hf
    obtain ⟨fuel, rfl⟩ := Nat.exists_eq_add_of_le' (by omega : 2 ≤ fuel)
    rw [List.flatMap_cons, List.foldlM_cons]
    cases line with
    | blank => exact (lines?_blank _).trans (ih hlines (by omega) opened entries)
    | header key =>
      rw [lines?_header hline, Line.apply]
      cases entries.openTable [] key with
      | none => rfl
      | some entries => exact ih hlines (by omega) [key] entries
    | pair key word value =>
      rw [lines?_pair hline.1 hline.2, Line.apply]
      cases entries.addLine opened [] key value with
      | none => rfl
      | some entries => exact ih hlines (by omega) opened entries

/-- Every line has a character. -/
theorem length_le_flatMap_chars (lines : List Line) :
    lines.length ≤ (lines.flatMap Line.chars).length := by
  induction lines with
  | nil => exact le_rfl
  | cons line lines ih =>
    have hpos : 0 < line.chars.length := by cases line <;> simp [Line.chars]
    rw [List.flatMap_cons, List.length_append, List.length_cons]
    omega

/-! ## Tables -/

namespace Entries

variable {entries front inner : Entries} {name : String}

theorem lookup_eq_none (h : key ∉ entries.map Prod.fst) : entries.lookup key = none := by
  rw [List.lookup_eq_none_iff]
  intro p hp
  rw [bne_iff_ne]
  rintro rfl
  exact h (List.mem_map_of_mem hp)

/-- A new key comes behind all others. -/
theorem put_of_notMem (h : key ∉ entries.map Prod.fst) (value : Toml) :
    entries.put key value = entries ++ [(key, value)] := by
  induction entries with
  | nil => rfl
  | cons entry entries ih =>
    rw [List.map_cons, List.mem_cons, not_or] at h
    rw [put, if_neg (Ne.symm h.1), ih h.2, List.cons_append]

theorem put_append_of_notMem (h : key ∉ front.map Prod.fst) (old value : Toml) :
    (front ++ [(key, old)]).put key value = front ++ [(key, value)] := by
  induction front with
  | nil => exact if_pos rfl
  | cons entry front ih =>
    rw [List.map_cons, List.mem_cons, not_or] at h
    rw [List.cons_append, put, if_neg (Ne.symm h.1), ih h.2, List.cons_append]

theorem openTable_of_notMem (h : name ∉ entries.map Prod.fst) :
    entries.openTable [] name = some (entries ++ [(name, .table .header [])]) := by
  rw [openTable, descend, lookup_eq_none h, put_of_notMem h]

/-- A pair with a new key comes behind the others of the last table. -/
theorem addLine_of_notMem (hn : name ∉ front.map Prod.fst) (hk : key ∉ inner.map Prod.fst)
    (value : Toml) :
    addLine (front ++ [(name, .table .header inner)]) [name] [] key value =
      some (front ++ [(name, .table .header (inner ++ [(key, value)]))]) := by
  have hlookup : (front ++ [(name, Toml.table .header inner)]).lookup name =
      some (.table .header inner) := by
    rw [List.lookup_append, lookup_eq_none hn, List.lookup_cons_self, Option.none_or]
  rw [addLine, descend, hlookup]
  simp [descend, addPair, add, lookup_eq_none hk, put_of_notMem hk, put_append_of_notMem hn]

end Entries

/-- The lines of a table: its header, and a pair for each key with its word and its value. -/
def tableLines (name : String) (pairs : List (String × List Char × Toml)) : List Line :=
  .header name :: pairs.map fun pair => .pair pair.1 pair.2.1 pair.2.2

theorem plain_tableLines {name : String} {pairs : List (String × List Char × Toml)}
    (hn : IsPlainKey name) (h : ∀ pair ∈ pairs, IsPlainKey pair.1 ∧ pair.2.2.IsWordOf pair.2.1) :
    ∀ line ∈ tableLines name pairs, line.Plain := by
  refine List.forall_mem_cons.2 ⟨hn, ?_⟩
  rw [List.forall_mem_map]
  exact h

/-- The entries that pairs add. -/
def entriesOf (pairs : List (String × List Char × Toml)) : Entries :=
  pairs.map fun pair => (pair.1, pair.2.2)

theorem foldlM_apply_pairs {name : String} {front inner : Entries}
    {pairs : List (String × List Char × Toml)} (hn : name ∉ front.map Prod.fst)
    (hk : ((inner ++ entriesOf pairs).map Prod.fst).Nodup) :
    (pairs.map fun pair => Line.pair pair.1 pair.2.1 pair.2.2).foldlM Line.apply
        ([name], front ++ [(name, .table .header inner)]) =
      some ([name], front ++ [(name, .table .header (inner ++ entriesOf pairs))]) := by
  induction pairs generalizing inner with
  | nil =>
    rw [entriesOf, List.map_nil, List.map_nil, List.append_nil]
    rfl
  | cons pair pairs ih =>
    have hnext : inner ++ entriesOf (pair :: pairs) =
        inner ++ [(pair.1, pair.2.2)] ++ entriesOf pairs := by
      simp [entriesOf]
    rw [hnext] at hk ⊢
    have hkey : pair.1 ∉ inner.map Prod.fst := by
      rw [List.map_append, List.map_append] at hk
      have hfront := (List.nodup_append.1 hk).1
      exact fun hm => (List.nodup_append.1 hfront).2.2 _ hm _ (List.mem_singleton_self _) rfl
    rw [List.map_cons, List.foldlM_cons, Line.apply, Entries.addLine_of_notMem hn hkey]
    exact ih hk

/-- A table with a new name and distinct keys is added behind the others. -/
theorem foldlM_apply_tableLines {name : String} {opened : List String} {entries : Entries}
    {pairs : List (String × List Char × Toml)} (hn : name ∉ entries.map Prod.fst)
    (hk : ((entriesOf pairs).map Prod.fst).Nodup) :
    (tableLines name pairs).foldlM Line.apply (opened, entries) =
      some ([name], entries ++ [(name, .table .header (entriesOf pairs))]) := by
  rw [tableLines, List.foldlM_cons, Line.apply, Entries.openTable_of_notMem hn]
  exact @foldlM_apply_pairs name entries [] pairs hn hk

end LaserPath.Toml
