import LaserPath.Files.Basic

/-!
# Files, written and read

A file is where it was written, and the places on the way to it are directories before and after.
Writing changes nothing but that file, and if it fails it leaves the file as it was or with a
beginning of the bytes.

## Main definitions

* `FileSystem.IsFilePath` — a path at which a file may be.
* `Disk.Takes`, `Disk.BreaksOff` — all bytes get into a file, or only the first of them do.
* `Disk.Writable` — a path at which a text can be written.

## Main statements

* `FileSystem.readText_put` — what has been written is read.
* `FileSystem.readText_put_of_ne` — what other files hold stays.
* `Disk.writeText_eq_ok_iff`, `Disk.writeText_eq_error` — what writing does.
-/

namespace LaserPath

/-- A sequence of steps that can fail succeeds if each of them does. -/
theorem bind_eq_ok_iff {ε α β : Type} {x : Except ε α} {f : α → Except ε β} {b : β} :
    (x >>= f) = .ok b ↔ ∃ a, x = .ok a ∧ f a = .ok b := by
  cases x with
  | error error => simp [bind, Except.bind]
  | ok a => simp [bind, Except.bind]

theorem mapError_eq_ok_iff {ε δ α : Type} {x : Except ε α} {f : ε → δ} {a : α} :
    x.mapError f = .ok a ↔ x = .ok a := by
  cases x with
  | error error => exact iff_of_false nofun nofun
  | ok b =>
    constructor
    · rintro ⟨⟩
      rfl
    · rintro ⟨⟩
      rfl

theorem ok_bind {ε α β : Type} (a : α) (f : α → Except ε β) : (Except.ok a >>= f) = f a := rfl

theorem fromUTF8?_toUTF8 (text : String) : String.fromUTF8? text.toUTF8 = some text :=
  dif_pos text.isValidUTF8

namespace FileSystem

variable {fs : FileSystem} {path : String} {place : List String}

/-- A path that ends in the name of a file, or of nothing yet, at a place. -/
structure IsFilePath (fs : FileSystem) (path : String) (place : List String) : Prop where
  place_eq : fs.place path = .ok place
  ending_eq : Path.ending path = .name
  entry_eq : fs.entry place = .ok none ∨ ∃ bytes, fs.entry place = .ok (some (.file bytes))

/-- Writing at a path makes or replaces the file at its place. -/
theorem writingPlace_eq_ok_iff : fs.writingPlace path = .ok place ↔ fs.IsFilePath path place := by
  refine ⟨fun h => ?_, ?_⟩
  · unfold writingPlace at h
    obtain ⟨found, hp, h⟩ := bind_eq_ok_iff.1 h
    cases hending : Path.ending path with
    | slash =>
      rw [hending] at h
      cases h
    | dot =>
      rw [hending, if_neg (by simp)] at h
      obtain ⟨entry, -, h⟩ := bind_eq_ok_iff.1 h
      rcases entry with _ | _ | bytes <;> cases h
    | name =>
      rw [hending, if_neg (by simp)] at h
      obtain ⟨entry, he, h⟩ := bind_eq_ok_iff.1 h
      rcases entry with _ | _ | bytes
      · cases h
        exact ⟨hp, hending, .inl he⟩
      · cases h
      · cases h
        exact ⟨hp, hending, .inr ⟨bytes, he⟩⟩
  · rintro ⟨hp, hending, he⟩
    unfold writingPlace
    rw [hp, ok_bind, hending, if_neg (by simp)]
    rcases he with he | ⟨bytes, he⟩ <;> rw [he] <;> rfl

/-- A file that has been put twice is the one that was put last. -/
theorem put_put (fs : FileSystem) (place : List String) (first last : FileEntry) :
    (fs.put place first).put place last = fs.put place last := by
  unfold put
  dsimp only
  rw [List.filter_cons_of_neg (by simp), List.filter_filter]
  simp only [Bool.and_self]

/-- Nothing changes at other places. -/
theorem entry_put_of_ne {other : List String} (h : other ≠ place) (entry : FileEntry) :
    (fs.put place entry).entry other = fs.entry other := by
  have hlookup : (fs.put place entry).entries.lookup other = fs.entries.lookup other := by
    rw [put, List.lookup_cons, beq_false_of_ne h]
    dsimp only
    induction fs.entries with
    | nil => rfl
    | cons first rest ih =>
      by_cases hf : first.1 = place
      · rw [List.filter_cons_of_neg (by simp [hf]), ih, List.lookup_cons, hf, beq_false_of_ne h]
      · rw [List.filter_cons_of_pos (by simp [hf]), List.lookup_cons, List.lookup_cons, ih]
  unfold FileSystem.entry
  rw [hlookup]

theorem entry_put_self (h : fs.IsFilePath path place) (entry : FileEntry) :
    (fs.put place entry).entry place = .ok (some entry) := by
  have hlookup : (fs.put place entry).entries.lookup place = some entry := List.lookup_cons_self
  have hentry := h.entry_eq
  unfold FileSystem.entry at hentry ⊢
  rw [hlookup]
  split at hentry
  · simp at hentry
  · next hlength =>
    rw [if_neg hlength]
    cases place with
    | nil => simp at hentry
    | cons name place => rfl

/-- No way leads through a place that is no directory. -/
theorem foldlM_enter_put (h : fs.entry place ≠ .ok (some .directory)) (entry : FileEntry)
    {names start target : List String} (hw : names.foldlM fs.enter start = .ok target) :
    names.foldlM (fs.put place entry).enter start = .ok target := by
  induction names generalizing start with
  | nil => exact hw
  | cons name names ih =>
    rw [List.foldlM_cons] at hw ⊢
    cases he : fs.enter start name with
    | error error =>
      rw [he] at hw
      cases hw
    | ok next =>
      have hstart : fs.entry start = .ok (some .directory) := by
        obtain ⟨found, hf, h⟩ := bind_eq_ok_iff.1 he
        rcases found with _ | _ | bytes
        · cases h
        · exact hf
        · cases h
      have hne : start ≠ place := by
        rintro rfl
        exact h hstart
      have hnext : (fs.put place entry).enter start name = .ok next := by
        rw [← he, enter, enter, entry_put_of_ne hne]
      rw [hnext]
      rw [he] at hw
      exact ih hw

/-- The place of a path is where the way along its names leads, if it is the path of anything. -/
theorem place_eq_ok_iff : fs.place path = .ok place ↔
    '\x00' ∉ path.toList ∧ path.isEmpty = false ∧ path.utf8ByteSize ≤ pathLimit ∧
      (Path.names path).foldlM fs.enter
        (if Path.isAbsolute path then [] else fs.workingDirectory) = .ok place := by
  unfold FileSystem.place
  grind

/-- Paths lead where they led before a file was written. -/
theorem place_put (h : fs.IsFilePath path place) (entry : FileEntry) {other : String}
    {target : List String} (ho : fs.place other = .ok target) :
    (fs.put place entry).place other = .ok target := by
  have hdirectory : fs.entry place ≠ .ok (some .directory) := by
    rcases h.entry_eq with he | ⟨bytes, he⟩ <;> simp [he]
  rw [place_eq_ok_iff] at ho ⊢
  exact ⟨ho.1, ho.2.1, ho.2.2.1, foldlM_enter_put hdirectory entry ho.2.2.2⟩

/-- What has been written is read. -/
theorem readText_put (h : fs.IsFilePath path place) (text : String) :
    (fs.put place (.file text.toUTF8)).readText path = .ok text := by
  have hfind : (fs.put place (.file text.toUTF8)).find path =
      .ok (some (.file text.toUTF8)) := by
    rw [find, place_put h _ h.place_eq, ok_bind, entry_put_self h, ok_bind, h.ending_eq]
    rfl
  rw [readText, hfind, ok_bind]
  dsimp only
  rw [fromUTF8?_toUTF8]

/-- A text at another place is not touched. -/
theorem readText_put_of_ne (h : fs.IsFilePath path place) (entry : FileEntry) {other old : String}
    {target : List String} (ho : fs.place other = .ok target) (hne : target ≠ place)
    (hread : fs.readText other = .ok old) : (fs.put place entry).readText other = .ok old := by
  have hfind : (fs.put place entry).find other = fs.find other := by
    rw [find, find, place_put h entry ho, ho, ok_bind, ok_bind, entry_put_of_ne hne]
  rw [← hread, readText, readText, hfind]

end FileSystem

namespace Disk

variable {disk : Disk} {fs files : FileSystem} {path text : String} {place : List String}
  {bytes : ByteArray} {error : FileError}

/-- All bytes get into the file at a place. -/
structure Takes (disk : Disk) (fs : FileSystem) (place : List String) (bytes : ByteArray) :
    Prop where
  opens : disk.refusal? fs place = none
  fits : disk.shortage? (fs.put place (.file .empty)) place bytes = none

/-- The file at a place is opened, but only the first of the bytes, which are left there, get into
it. -/
inductive BreaksOff (disk : Disk) (fs : FileSystem) (place : List String) (bytes : ByteArray) :
    FileError → ByteArray → Prop where
  | intro {taken : Fin bytes.size} {reason : String} (opens : disk.refusal? fs place = none)
    (short : disk.shortage? (fs.put place (.file .empty)) place bytes = some (taken, reason)) :
    BreaksOff disk fs place bytes (.other reason) (bytes.extract 0 taken)

/-- A path at which a text can be written. -/
def Writable (disk : Disk) (fs : FileSystem) (path text : String) : Prop :=
  ∃ files, disk.writeText fs path text = (.ok (), files)

/-- Bytes are written if the disk takes them, and then the file holds them. -/
theorem write_eq_ok_iff : disk.write fs place bytes = (.ok (), files) ↔
    disk.Takes fs place bytes ∧ files = fs.put place (.file bytes) := by
  unfold write
  cases ho : disk.refusal? fs place with
  | some reason => exact iff_of_false nofun fun h => nomatch ho.symm.trans h.1.opens
  | none =>
    dsimp only
    cases hs : disk.shortage? (fs.put place (.file .empty)) place bytes with
    | some short => exact iff_of_false nofun fun h => nomatch hs.symm.trans h.1.fits
    | none =>
      dsimp only
      rw [FileSystem.put_put]
      constructor
      · rintro ⟨⟩
        exact ⟨⟨ho, hs⟩, rfl⟩
      · rintro ⟨-, rfl⟩
        rfl

/-- Bytes that are not written leave the file as it was, if it has not been opened. -/
theorem write_eq_error (h : disk.write fs place bytes = (.error error, files)) : files = fs ∨
    ∃ left, disk.BreaksOff fs place bytes error left ∧ files = fs.put place (.file left) := by
  unfold write at h
  cases ho : disk.refusal? fs place with
  | some reason =>
    rw [ho] at h
    cases h
    exact .inl rfl
  | none =>
    rw [ho] at h
    dsimp only at h
    cases hs : disk.shortage? (fs.put place (.file .empty)) place bytes with
    | none =>
      rw [hs] at h
      cases h
    | some short =>
      rw [hs] at h
      dsimp only at h
      rw [FileSystem.put_put] at h
      cases h
      exact .inr ⟨_, .intro ho hs, rfl⟩

/-- A text is written at the path of a file whose disk takes it. -/
theorem writeText_eq_ok_iff : disk.writeText fs path text = (.ok (), files) ↔
    ∃ place, fs.IsFilePath path place ∧ disk.Takes fs place text.toUTF8 ∧
      files = fs.put place (.file text.toUTF8) := by
  unfold writeText
  cases hp : fs.writingPlace path with
  | error error =>
    refine iff_of_false nofun ?_
    rintro ⟨place, hplace, -⟩
    cases hp.symm.trans (FileSystem.writingPlace_eq_ok_iff.2 hplace)
  | ok place =>
    dsimp only
    rw [write_eq_ok_iff]
    constructor
    · rintro ⟨htakes, rfl⟩
      exact ⟨place, FileSystem.writingPlace_eq_ok_iff.1 hp, htakes, rfl⟩
    · rintro ⟨other, hplace, htakes, rfl⟩
      obtain rfl := Except.ok.inj (hp.symm.trans (FileSystem.writingPlace_eq_ok_iff.2 hplace))
      exact ⟨htakes, rfl⟩

/-- A text that is not written changes nothing, or its writing has broken off. -/
theorem writeText_eq_error (h : disk.writeText fs path text = (.error error, files)) :
    files = fs ∨ ∃ place left, fs.IsFilePath path place ∧
      disk.BreaksOff fs place text.toUTF8 error left ∧ files = fs.put place (.file left) := by
  unfold writeText at h
  cases hp : fs.writingPlace path with
  | error error =>
    rw [hp] at h
    cases h
    exact .inl rfl
  | ok place =>
    rw [hp] at h
    refine (write_eq_error h).imp_right ?_
    rintro ⟨left, hbreaks, rfl⟩
    exact ⟨place, left, FileSystem.writingPlace_eq_ok_iff.1 hp, hbreaks, rfl⟩

/-- A disk with room for one byte more leaves the file with the beginning of its new text. -/
example :
    let full : Disk := ⟨fun _ _ => none, fun _ _ bytes =>
      if h : 1 < bytes.size then some (⟨1, h⟩, "No space left on device (os error 28)") else none⟩
    (full.writeText ⟨[], [(["a"], .file "old".toUTF8)]⟩ "a" "new").2.readText "a" = .ok "n" :=
  rfl

end Disk

end LaserPath
