import LaserPath.Proofs.Files
import LaserPath.Proofs.Text.Words

/-!
# Files in directories

A path of a directory and a name make the path of a file directly within that directory, however
the path of the directory is written, if the name has no slash and is none of the dots.

## Main definitions

* `Path.IsName` — a text that is a single name.
* `FileSystem.Within` — a path of what has a name directly within a directory.

## Main statements

* `FileSystem.within_join` — a joined path is such a path.
* `FileSystem.Within.place_eq` — different names have different places.
-/

namespace LaserPath

namespace Path

/-- A text that is one name, and not one of the two that stand for a directory. -/
structure IsName (name : String) : Prop where
  slash_notMem : '/' ∉ name.toList
  ne_nil : name.toList ≠ []
  ne_dot : name ≠ "."
  ne_dots : name ≠ ".."

variable {directory name : String}

/-- Read backwards, a text without a separator has none either. -/
theorem bne_of_mem_reverse {separator c : Char} {text : List Char} (h : separator ∉ text)
    (hc : c ∈ text.reverse) : (c != separator) = true := by
  rw [bne_iff_ne]
  rintro rfl
  exact h (List.mem_reverse.1 hc)

/-- A joined path is the directory with a slash behind it, unless it has one or is empty. -/
theorem exists_toList_join (directory name : String) : ∃ front : List Char,
    (join directory name).toList = front ++ name.toList ∧
      (front = [] ∧ directory = "" ∨ ∃ rest, front = rest ++ ['/'] ∧
        (rest = directory.toList ∨ directory.toList = rest ++ ['/'])) := by
  unfold join
  by_cases hempty : directory = ""
  · exact ⟨[], by simp [hempty], .inl ⟨rfl, hempty⟩⟩
  by_cases hslash : directory.toList.getLast? = some '/'
  · obtain ⟨rest, hrest⟩ := List.getLast?_eq_some_iff.1 hslash
    exact ⟨rest ++ ['/'], by simp [hrest], .inr ⟨rest, rfl, .inr hrest⟩⟩
  · exact ⟨directory.toList ++ ['/'], by simp [hempty, hslash], .inr ⟨_, rfl, .inl rfl⟩⟩

/-- A joined path has one name more than the directory. -/
theorem names_join (directory : String) (h : IsName name) :
    names (join directory name) = names directory ++ [name] := by
  have hword : wordsBy (· == '/') name.toList = [name.toList] := by
    refine wordsBy_word h.ne_nil fun c hc => ?_
    rw [beq_eq_false_iff_ne]
    rintro rfl
    exact h.slash_notMem hc
  have hwords : wordsBy (· == '/') (join directory name).toList =
      wordsBy (· == '/') directory.toList ++ [name.toList] := by
    obtain ⟨front, heq, ⟨rfl, rfl⟩ | ⟨rest, rfl, hrest⟩⟩ := exists_toList_join directory name
    · rw [heq, List.nil_append, hword]
      rfl
    · have hfront : wordsBy (· == '/') directory.toList = wordsBy (· == '/') rest := by
        rcases hrest with hrest | hrest
        · rw [hrest]
        · rw [hrest, wordsBy_append_separator (by decide)]
          exact List.append_nil _
      rw [heq, List.append_assoc, List.singleton_append, wordsBy_append_separator (by decide),
        hword, hfront]
  unfold names
  rw [hwords]
  simp [h.ne_dot]

/-- A joined path begins where the directory does. -/
theorem isAbsolute_join (hd : directory ≠ "") (name : String) :
    isAbsolute (join directory name) = isAbsolute directory := by
  obtain ⟨front, heq, ⟨-, rfl⟩ | ⟨rest, rfl, hrest⟩⟩ := exists_toList_join directory name
  · exact absurd rfl hd
  · unfold isAbsolute
    rw [heq, List.append_assoc]
    rcases hrest with rfl | hrest
    · have : directory.toList ≠ [] := by simpa using hd
      rw [List.head?_append_of_ne_nil _ this]
    · rw [hrest]
      cases rest <;> rfl

/-- A joined path ends in its name. -/
theorem ending_join (directory : String) (h : IsName name) :
    ending (join directory name) = .name := by
  have hslash : ∀ c ∈ name.toList.reverse, (c != '/') = true :=
    fun _ => bne_of_mem_reverse h.slash_notMem
  -- read backwards, the name is what stands in front of the first slash
  have hbackwards : ∃ rest, (join directory name).toList.reverse = name.toList.reverse ++ rest ∧
      rest.takeWhile (· != '/') = [] := by
    obtain ⟨front, heq, ⟨rfl, -⟩ | ⟨rest, rfl, -⟩⟩ := exists_toList_join directory name
    · exact ⟨[], by simp [heq], rfl⟩
    · exact ⟨'/' :: rest.reverse, by simp [heq], rfl⟩
  obtain ⟨rest, hrest, htake⟩ := hbackwards
  obtain ⟨last, before, hlast⟩ := List.exists_cons_of_ne_nil
    (List.reverse_ne_nil_iff.2 h.ne_nil)
  have hne : last ≠ '/' := by
    have := hslash last (by simp [hlast])
    exact bne_iff_ne.1 this
  have hdot : name.toList.reverse ≠ ['.'] := by
    intro heq
    have : name.toList = ['.'] := by simpa using congrArg List.reverse heq
    exact h.ne_dot (String.toList_injective this)
  have hdrop : ((join directory name).toList.reverse.dropWhile (· == '/')).takeWhile (· != '/') =
      name.toList.reverse := by
    rw [hrest, hlast, List.cons_append, List.dropWhile_cons_of_neg (by simpa using hne),
      ← List.cons_append, ← hlast, List.takeWhile_append_of_pos hslash, htake, List.append_nil]
  unfold ending
  dsimp only
  rw [hdrop, hrest, hlast]
  rw [hlast] at hdot
  simpa [hne] using hdot

/-- The extension is what stands behind the last dot of a name. -/
theorem extensionOf?_append {front extension : List Char} (hf : front ≠ [])
    (he : '.' ∉ extension) (hdots : front ++ '.' :: extension ≠ ['.', '.']) :
    extensionOf? (front ++ '.' :: extension) = some extension := by
  have hback : (front ++ '.' :: extension).reverse = extension.reverse ++ '.' :: front.reverse := by
    simp
  have hfree : ∀ c ∈ extension.reverse, (c != '.') = true := fun _ => bne_of_mem_reverse he
  unfold extensionOf?
  dsimp only
  rw [hback, takeWhile_append_cons hfree (by decide), dropWhile_append_cons hfree (by decide)]
  simp [hf, hdots]

end Path

namespace FileSystem

variable {fs : FileSystem} {directory name path : String}

/-- A path of what has a name directly within a directory, and its place if the machine takes the
path at all. -/
structure Within (fs : FileSystem) (directory name path : String) : Prop where
  names_eq : Path.names path = Path.names directory ++ [name]
  ending_eq : Path.ending path = .name
  exists_place : ∃ above, fs.place directory = .ok above ∧
    fs.entry above = .ok (some .directory) ∧
    fs.place path =
      if '\x00' ∈ name.toList then .error .zeroInPath
      else if pathLimit < path.utf8ByteSize then .error .nameTooLong
      else .ok (above ++ [name])

theorem isDirectory_iff : fs.isDirectory path = true ↔
    ∃ place, fs.place path = .ok place ∧ fs.entry place = .ok (some .directory) := by
  unfold isDirectory
  constructor
  · intro h
    split at h
    · next hfind =>
      unfold find at hfind
      obtain ⟨place, hplace, hfound⟩ := bind_eq_ok_iff.1 hfind
      obtain ⟨found, hentry, hmatch⟩ := bind_eq_ok_iff.1 hfound
      refine ⟨place, hplace, ?_⟩
      split at hmatch
      · cases hmatch
      · cases hmatch
      · rw [hentry, Except.ok.inj hmatch]
    · cases h
  · rintro ⟨place, hplace, hentry⟩
    have hfind : fs.find path = .ok (some .directory) := by
      rw [find, hplace, ok_bind, hentry]
      rfl
    rw [hfind]

/-- A directory and a name make a path directly within the directory. -/
theorem within_join (hd : fs.isDirectory directory = true) (h : Path.IsName name) :
    fs.Within directory name (Path.join directory name) := by
  obtain ⟨above, hplace, hentry⟩ := isDirectory_iff.1 hd
  refine ⟨Path.names_join directory h, Path.ending_join directory h, above, hplace, hentry, ?_⟩
  obtain ⟨hzero, hempty, -, hway⟩ := place_eq_ok_iff.1 hplace
  have hne : directory ≠ "" := by
    rintro rfl
    cases hempty
  obtain ⟨front, heq, hfront⟩ := Path.exists_toList_join directory name
  have hmem : '\x00' ∈ (Path.join directory name).toList ↔ '\x00' ∈ name.toList := by
    have : '\x00' ∉ front := by
      rcases hfront with ⟨rfl, -⟩ | ⟨rest, rfl, hrest | hrest⟩ <;> simp_all
    simp [heq, this]
  have hsome : (Path.join directory name).isEmpty = false := by
    rw [← Bool.not_eq_true, String.isEmpty_iff, ← String.toList_inj, heq]
    simp [h.ne_nil]
  have hfold : (Path.names (Path.join directory name)).foldlM fs.enter
      (if Path.isAbsolute (Path.join directory name) then [] else fs.workingDirectory) =
        .ok (above ++ [name]) := by
    rw [Path.isAbsolute_join hne, Path.names_join directory h, List.foldlM_append, hway, ok_bind,
      List.foldlM_cons, enter, hentry]
    simp only [ok_bind, if_neg h.ne_dots]
    rfl
  unfold FileSystem.place
  simp only [List.contains_iff_mem, hmem, hsome, hfold, Bool.false_eq_true, if_false]

/-- A path within a directory that leads anywhere leads directly below the directory. -/
theorem Within.place_eq (h : fs.Within directory name path) {place : List String}
    (hp : fs.place path = .ok place) :
    ∃ above, fs.place directory = .ok above ∧ place = above ++ [name] := by
  obtain ⟨above, habove, -, hplace⟩ := h.exists_place
  refine ⟨above, habove, ?_⟩
  rw [hp] at hplace
  split at hplace
  · cases hplace
  split at hplace
  · cases hplace
  · exact Except.ok.inj hplace

/-- Paths of different names within a directory lead to different places. -/
theorem Within.place_ne {other otherPath : String} (h : fs.Within directory name path)
    (ho : fs.Within directory other otherPath) (hne : name ≠ other) {p q : List String}
    (hp : fs.place path = .ok p) (hq : fs.place otherPath = .ok q) : p ≠ q := by
  obtain ⟨above, ha, rfl⟩ := h.place_eq hp
  obtain ⟨above', ha', rfl⟩ := ho.place_eq hq
  obtain rfl := Except.ok.inj (ha.symm.trans ha')
  simpa using hne

end FileSystem

end LaserPath
