import LaserPath.Config.Toml
import LaserPath.Proofs.Settings
import LaserPath.Proofs.Toml.Lines

/-!
# Settings in TOML, written and read

Settings are written as lines of a plain document, and what the lines add to the tables are the
settings.

## Main statements

* `Config.readToml?_tomlText` — finite settings are read as they were written.
-/

namespace LaserPath

namespace Toml

/-- A key with the word and the value of a number. -/
def numberPair (key : String) (x : Float) : String × List Char × Toml :=
  (key, (spellShortest .pointed x).toList, .float x)

/-- A key with the word and the value of a truth value. -/
def boolPair (key : String) (b : Bool) : String × List Char × Toml :=
  (key, (if b then "true" else "false").toList, .bool b)

theorem toList_numberLine (key : String) (x : Float) : (numberLine key x).toList =
    (Line.pair key (numberPair key x).2.1 (numberPair key x).2.2).chars := by
  simp [numberLine, numberPair, pairLine, Line.chars]

theorem toList_boolLine (key : String) (b : Bool) : (boolLine key b).toList =
    (Line.pair key (boolPair key b).2.1 (boolPair key b).2.2).chars := by
  simp [boolLine, boolPair, pairLine, Line.chars]

end Toml

open Toml

/-- The pairs of the laser section. -/
def LaserSettings.tomlPairs (s : LaserSettings) : List (String × List Char × Toml) :=
  [numberPair "feed_rate" s.feedRate, numberPair "rapid_feed_rate" s.rapidFeedRate,
    numberPair "laser_power" s.power]

/-- The pairs of the output section. -/
def OutputSettings.tomlPairs (s : OutputSettings) : List (String × List Char × Toml) :=
  [boolPair "optimize_travel" s.optimizeTravel, numberPair "start_x" s.startX,
    numberPair "start_y" s.startY, boolPair "inline_laser" s.inlineLaser]

namespace Config

variable {c : Config}

/-- The lines of settings. -/
def lines (c : Config) : List Line :=
  tableLines "laser" c.laser.tomlPairs ++ .blank :: tableLines "output" c.output.tomlPairs

/-- The tables of settings. -/
def tomlTables (c : Config) : Entries :=
  [("laser", .table .header (entriesOf c.laser.tomlPairs)),
    ("output", .table .header (entriesOf c.output.tomlPairs))]

theorem toList_tomlText (c : Config) : c.tomlText.toList = c.lines.flatMap Line.chars := by
  have hlaser : "[laser]\n".toList = (Line.header "laser").chars := rfl
  have houtput : "\n[output]\n".toList = Line.blank.chars ++ (Line.header "output").chars := rfl
  simp [tomlText, LaserSettings.tomlLines, OutputSettings.tomlLines, lines, tableLines,
    LaserSettings.tomlPairs, OutputSettings.tomlPairs, toList_numberLine, toList_boolLine, hlaser,
    houtput, numberPair, boolPair]

theorem isPlainKey_name {key : String} (h : key ∈ ["laser", "feed_rate", "rapid_feed_rate",
    "laser_power", "output", "optimize_travel", "start_x", "start_y", "inline_laser"]) :
    IsPlainKey key := by
  simp only [List.mem_cons, List.not_mem_nil, or_false] at h
  rcases h with rfl | rfl | rfl | rfl | rfl | rfl | rfl | rfl | rfl <;>
    exact ⟨by simp, by simp [isBareKey]⟩

/-- The lines of settings are plain if their numbers are finite. -/
theorem plain_lines (h : ∀ x ∈ c.numbers, x.isFinite = true) : ∀ line ∈ c.lines, line.Plain := by
  have hnumber {key : String} {x : Float} (hk : IsPlainKey key) (hx : x ∈ c.numbers) :
      IsPlainKey key ∧ (Toml.float x).IsWordOf (spellShortest .pointed x).toList :=
    ⟨hk, isWordOf_spellShortest (h x hx)⟩
  rw [lines, List.forall_mem_append, List.forall_mem_cons]
  refine ⟨plain_tableLines (isPlainKey_name (by simp)) ?_, trivial,
    plain_tableLines (isPlainKey_name (by simp)) ?_⟩
  · simp only [LaserSettings.tomlPairs, List.forall_mem_cons]
    refine ⟨?_, ?_, ?_, by simp⟩ <;>
      exact hnumber (isPlainKey_name (by simp [numberPair])) (by simp [numbers])
  · simp only [OutputSettings.tomlPairs, List.forall_mem_cons]
    refine ⟨⟨isPlainKey_name (by simp [boolPair]), isWordOf_bool _⟩, ?_, ?_,
      ⟨isPlainKey_name (by simp [boolPair]), isWordOf_bool _⟩, by simp⟩ <;>
      exact hnumber (isPlainKey_name (by simp [numberPair])) (by simp [numbers])

/-- The lines of settings add their tables. -/
theorem foldlM_apply_lines (c : Config) :
    c.lines.foldlM Line.apply ([], []) = some (["output"], c.tomlTables) := by
  have hlaser := @foldlM_apply_tableLines "laser" [] [] c.laser.tomlPairs (by simp)
    (by simp [LaserSettings.tomlPairs, entriesOf, numberPair])
  have houtput := @foldlM_apply_tableLines "output" ["laser"]
    [("laser", .table .header (entriesOf c.laser.tomlPairs))] c.output.tomlPairs (by simp)
    (by simp [OutputSettings.tomlPairs, entriesOf, numberPair, boolPair])
  rw [lines, List.foldlM_append, hlaser]
  exact houtput

theorem ofToml?_tomlTables (c : Config) : ofToml? c.tomlTables = some c := by
  rfl

/-- Finite settings are read as they were written. -/
theorem readToml?_tomlText (h : ∀ x ∈ c.numbers, x.isFinite = true) :
    readToml? c.tomlText = some c := by
  have htext := toList_tomlText c
  have hmark : skipByteOrderMark (c.lines.flatMap Line.chars) = c.lines.flatMap Line.chars := by
    rfl
  have hfuel := Nat.add_le_add_right (length_le_flatMap_chars c.lines) 2
  rw [readToml?, read?, htext, hmark, lines?_flatMap_chars (plain_lines h) hfuel,
    foldlM_apply_lines]
  exact ofToml?_tomlTables c

end Config

end LaserPath
