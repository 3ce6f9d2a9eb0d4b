import LaserPath.Calendar
import LaserPath.Selection

/-!
# Suggested file names

A program is saved under the name of the first selected node, the number of
the other ones and the time.

## Main definitions

* `suggestedFileName` — the name, without an extension.

## Main statements

* `not_isReserved_cleanName` — the name of a node gives no reserved character
  to a file name.
-/

namespace LaserPath

/-- The characters that have a meaning in paths. -/
def reservedCharacters : List Char := ['<', '>', ':', '"', '/', '\\', '|', '?', '*']

/-- Has a character a meaning in paths? -/
def isReserved (c : Char) : Bool := reservedCharacters.contains c

/-- A name with an underscore in place of every reserved character. -/
def cleanName (name : String) : String :=
  name.map fun c => if isReserved c then '_' else c

theorem not_isReserved_cleanName {name : String} {c : Char}
    (h : c ∈ (cleanName name).toList) : isReserved c = false := by
  simp only [cleanName, String.toList_map, List.mem_map] at h
  obtain ⟨d, _, rfl⟩ := h
  split
  · decide
  · simp_all

/-- The name under which a program for a selection may be saved at a moment. -/
def suggestedFileName (selection : List SelectedNode) (time : Timestamp) : String :=
  match selection with
  | [] => "gcode"
  | first :: others =>
    let name := first.shape.attributes.name
    cleanName (if name.isEmpty then "untitled" else name) ++
      (if others.isEmpty then "" else "_and_" ++ toString others.length ++ "_more") ++
      "_" ++ time.stamp

end LaserPath
