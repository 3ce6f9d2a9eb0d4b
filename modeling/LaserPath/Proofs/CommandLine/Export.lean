import LaserPath.Proofs.CommandLine.Steps
import LaserPath.Proofs.FileName
import LaserPath.Proofs.Files.Join

/-!
# Programs in directories

A directory takes the program of a selection as a file directly within it, whatever the nodes are
called. Programs of one selection from different seconds go to different files, and the names of
the later ones are greater.

## Main definitions

* `programName`, `programPath` — the file in which a directory takes a program.
* `Session.Spares` — nothing that is delivered to one path changes the text at another.

## Main statements

* `isName_programName` — a program file has a single name.
* `Session.spares_of_within` — files of different names spare each other.
* `Session.programFiles_laws` — programs stay in their directory and apart from each other.
-/

namespace LaserPath

/-- The name of the file in which a directory takes the program of a selection. -/
def programName (selection : List SelectedNode) (time : Timestamp) : String :=
  suggestedFileName selection time ++ "." ++ programExtension

/-- The path of that file. -/
def programPath (directory : String) (selection : List SelectedNode) (time : Timestamp) : String :=
  Path.join directory (programName selection time)

section

variable (selection : List SelectedNode) (time : Timestamp)

theorem toList_programName : (programName selection time).toList =
    (suggestedFileName selection time).toList ++ ".gcode".toList := by
  have hend : ("." ++ programExtension) = ".gcode" := by decide
  rw [programName, String.append_assoc, hend, String.toList_append]

theorem suggestedFileName_ne_empty : (suggestedFileName selection time).toList ≠ [] := by
  unfold suggestedFileName
  split
  · decide
  · simp

/-- A program file has a longer name than the ones that stand for directories. -/
theorem toList_programName_ne {word : List Char} (h : word.length ≤ 2) :
    (programName selection time).toList ≠ word := by
  rintro rfl
  have hend : ".gcode".toList.length = 6 := by decide
  rw [toList_programName, List.length_append] at h
  omega

/-- A program file has a single name. -/
theorem isName_programName : Path.IsName (programName selection time) where
  slash_notMem := by
    rw [toList_programName, List.mem_append, not_or]
    have hreserved : '/' ∈ reservedCharacters := by decide
    exact ⟨fun h => unreserved_suggestedFileName selection time _ h hreserved, by decide⟩
  ne_nil := toList_programName_ne selection time (by decide)
  ne_dot := fun h => toList_programName_ne selection time (by decide) (congrArg String.toList h)
  ne_dots := fun h => toList_programName_ne selection time (by decide) (congrArg String.toList h)

/-- A program file has the extension of program files. -/
theorem extension?_programPath (directory : String) :
    Path.extension? (programPath directory selection time) = some programExtension := by
  have hlist : (programName selection time).toList =
      (suggestedFileName selection time).toList ++ '.' :: programExtension.toList :=
    toList_programName selection time
  have hextension : Path.extensionOf? (programName selection time).toList =
      some programExtension.toList := by
    have hdots : (programName selection time).toList ≠ ['.', '.'] :=
      toList_programName_ne selection time (by decide)
    rw [hlist] at hdots ⊢
    exact Path.extensionOf?_append (suggestedFileName_ne_empty selection time) (by decide) hdots
  unfold Path.extension? programPath
  rw [Path.names_join directory (isName_programName selection time), List.getLast?_concat,
    Option.bind_some, hextension, Option.map_some, String.ofList_toList]

end

namespace Session

/-- Whatever is delivered to one path, on every disk, the file at another path keeps its text. -/
def Spares (s : Session) (written kept : String) : Prop :=
  ∀ (disk : Disk) text old result after, s.files.readText kept = .ok old →
    (disk.store.deliver text (.file written)).run s = (result, after) →
      after.files.readText kept = .ok old

variable {s : Session} {directory name other path otherPath : String}

theorem exists_place_of_readText {files : FileSystem} {text : String}
    (h : files.readText path = .ok text) : ∃ place, files.place path = .ok place := by
  unfold FileSystem.readText FileSystem.find at h
  obtain ⟨_, hfind, -⟩ := bind_eq_ok_iff.1 h
  obtain ⟨place, hplace, -⟩ := bind_eq_ok_iff.1 hfind
  exact ⟨place, hplace⟩

/-- Files of different names within a directory spare each other. -/
theorem spares_of_within (h : s.files.Within directory name path)
    (ho : s.files.Within directory other otherPath) (hne : name ≠ other) :
    s.Spares path otherPath := by
  intro disk text old result after hread hdeliver
  obtain ⟨target, htarget⟩ := exists_place_of_readText hread
  have hkept : ∀ place, s.files.IsFilePath path place → ∀ entry,
      (s.files.put place entry).readText otherPath = .ok old := by
    intro place hplace entry
    have hplaces := h.place_ne ho hne hplace.place_eq htarget
    exact FileSystem.readText_put_of_ne hplace entry htarget hplaces.symm hread
  cases result with
  | error error =>
    rcases deliver_eq_error hdeliver with rfl | ⟨_, reason, ⟨⟩, -, hpart⟩
    · exact hread
    · cases hpart with
      | intro hplace => exact hkept _ hplace _
  | ok =>
    cases deliver_eq_ok_iff.1 hdeliver with
    | written hplace _ hafter _ => exact hafter ▸ hkept _ hplace _

/-- A directory takes a program in a file directly within it. -/
theorem within_programPath (hd : s.files.isDirectory directory = true)
    (selection : List SelectedNode) (time : Timestamp) :
    s.files.Within directory (programName selection time)
      (programPath directory selection time) :=
  FileSystem.within_join hd (isName_programName selection time)

/-- No suggested name has a reserved character; so a directory takes every program in a file of its
own extension directly within it; and programs of one selection whose moments are a second or more
apart have names in the order of these moments and do not overwrite each other. Moments are counts
of nanoseconds. -/
theorem programFiles_laws :
    (∀ selection time, Unreserved (suggestedFileName selection time)) ∧
    (∀ (disk : Disk) (s : Session) around selection directory,
      s.files.isDirectory directory = true →
        disk.store.destination around (some directory) selection s =
            (.file (programPath directory selection around.time), s) ∧
          s.files.Within directory (programName selection around.time)
            (programPath directory selection around.time) ∧
          Path.extension? (programPath directory selection around.time) = some "gcode") ∧
    ∀ (selection : List SelectedNode) (early late : ℤ), selection ≠ [] →
      early + 1000000000 ≤ late →
      (Timestamp.ofNanoseconds early).InFourDigits → (Timestamp.ofNanoseconds late).InFourDigits →
      suggestedFileName selection (.ofNanoseconds early) <
          suggestedFileName selection (.ofNanoseconds late) ∧
        ∀ (s : Session) directory, s.files.isDirectory directory = true →
          s.Spares (programPath directory selection (.ofNanoseconds late))
              (programPath directory selection (.ofNanoseconds early)) ∧
            s.Spares (programPath directory selection (.ofNanoseconds early))
              (programPath directory selection (.ofNanoseconds late)) := by
  refine ⟨unreserved_suggestedFileName, fun disk s around selection directory hd => ?_, ?_⟩
  · exact ⟨(destination_eq_iff _).2 ⟨rfl, .directory hd⟩, within_programPath hd _ _,
      extension?_programPath _ _ _⟩
  · intro selection early late hne hapart hearly hlate
    have hseconds : (Timestamp.ofNanoseconds early).seconds <
        (Timestamp.ofNanoseconds late).seconds := by
      unfold Timestamp.ofNanoseconds
      dsimp only
      omega
    have hlt := suggestedFileName_lt hne hseconds hearly hlate
    refine ⟨hlt, fun s directory hd => ?_⟩
    have hnames : programName selection (.ofNanoseconds early) ≠
        programName selection (.ofNanoseconds late) := by
      intro heq
      have hlists := congrArg String.toList heq
      rw [toList_programName, toList_programName] at hlists
      exact hlt.ne (String.toList_injective (List.append_cancel_right hlists))
    exact ⟨spares_of_within (within_programPath hd _ _) (within_programPath hd _ _) hnames.symm,
      spares_of_within (within_programPath hd _ _) (within_programPath hd _ _) hnames⟩

/-- The first of two moments is the last second before a leap day, and the node is called like a
path out of the directory. -/
theorem programFiles_laws_of_leap_day :
    let plate : List SelectedNode := [⟨.leaf ⟨"../a:b", 0, 0, 10, 5, none⟩ .rectangle, []⟩]
    let s : Session :=
      ⟨⟨["home"], [(["home"], .directory), (["home", "out"], .directory)]⟩, ""⟩
    let early : ℤ := 1709164799999999999
    let late : ℤ := 1709164800999999999
    suggestedFileName plate (.ofNanoseconds early) = ".._a_b_2024-02-28T23-59-59" ∧
      suggestedFileName plate (.ofNanoseconds late) = ".._a_b_2024-02-29T00-00-00" ∧
      suggestedFileName plate (.ofNanoseconds early) <
        suggestedFileName plate (.ofNanoseconds late) ∧
      store.destination ⟨none, .ofNanoseconds late⟩ (some "out") plate s =
        (.file "out/.._a_b_2024-02-29T00-00-00.gcode", s) ∧
      s.Spares "out/.._a_b_2024-02-29T00-00-00.gcode" "out/.._a_b_2024-02-28T23-59-59.gcode" := by
  intro plate s early late
  obtain ⟨-, hwithin, hapart⟩ := programFiles_laws
  have hd : s.files.isDirectory "out" = true := by decide +kernel
  have hyears : (Timestamp.ofNanoseconds early).InFourDigits ∧
      (Timestamp.ofNanoseconds late).InFourDigits := by
    unfold Timestamp.InFourDigits
    decide +kernel
  obtain ⟨hlt, hspares⟩ := hapart plate early late (by simp [plate]) (by decide) hyears.1 hyears.2
  have hearly : programPath "out" plate (.ofNanoseconds early) =
      "out/.._a_b_2024-02-28T23-59-59.gcode" := by
    decide +kernel
  have hlate : programPath "out" plate (.ofNanoseconds late) =
      "out/.._a_b_2024-02-29T00-00-00.gcode" := by
    decide +kernel
  refine ⟨by decide +kernel, by decide +kernel, hlt, ?_, ?_⟩
  · rw [← hlate]
    exact (hwithin .unlimited s ⟨none, .ofNanoseconds late⟩ plate "out" hd).1
  · rw [← hearly, ← hlate]
    exact (hspares s "out" hd).1

end Session

end LaserPath
