import LaserPath.Proofs.Scene.Node
import LaserPath.Scene.Document

/-!
# Selections as they are written

A selection is written as an object with the selected nodes and the containers above them, or,
where there are none above any node, as an array of the nodes alone. Reading either gives the
selection back.

## Main definitions

* `IsSelection`, `IsBareSelection` — the values that write a selection in either layout.
* `selectionJson`, `bareSelectionJson` — a selection as an object and as an array.

## Main statements

* `selectionOfJson_eq_of_written` — what writes a selection is read as that selection.
-/

namespace LaserPath

open Json (Field IsRecord IsList)

/-- The value writes the selection as an object. -/
def IsSelection (selection : List SelectedNode) : Json → Prop :=
  IsRecord sceneLayout [⟨"selection", IsList SelectedNode.Written selection⟩]

/-- The value writes the nodes of the selection as an array, without what is above them. -/
def IsBareSelection (selection : List SelectedNode) : Json → Prop :=
  IsList Shape.Written (selection.map SelectedNode.shape)

/-- A selection as an object. -/
def selectionJson (selection : List SelectedNode) : Json :=
  .object [("selection", .array (selection.map SelectedNode.toJson))]

/-- The nodes of a selection as an array. -/
def bareSelectionJson (selection : List SelectedNode) : Json :=
  .array ((selection.map SelectedNode.shape).map Shape.toJson)

section

variable {selection : List SelectedNode} {json : Json}

theorem objectSelection?_eq_of_written (hs : ∀ n ∈ selection, n.Storable)
    (h : IsSelection selection json) : objectSelection? json = some selection := by
  obtain ⟨known, hk, hold⟩ := h.exists_fields? (by simp)
  have hselection := hold.optional? "selection" (Json.list? SelectedNode.ofJson?) []
    (IsList SelectedNode.Written selection) (by simp)
    (fun _ h => h.list? fun n hn _ => SelectedNode.ofJson?_eq_of_written (hs n hn))
    (by rintro _ ⟨⟩)
  simp only [objectSelection?, hk, hselection, Option.bind_eq_bind, Option.bind_some]

theorem selectionOfJson_eq_of_isSelection (hs : ∀ n ∈ selection, n.Storable)
    (h : IsSelection selection json) : selectionOfJson json = .ok selection := by
  have hobject := objectSelection?_eq_of_written hs h
  obtain ⟨members, -, rfl, -⟩ := h
  rw [selectionOfJson, hobject]
  rfl

theorem selectionOfJson_eq_of_isBareSelection (hs : ∀ n ∈ selection, n.Storable)
    (ha : ∀ n ∈ selection, n.ancestors = []) (h : IsBareSelection selection json) :
    selectionOfJson json = .ok selection := by
  obtain ⟨items, rfl, hf⟩ := h
  have hshapes : ∀ shape ∈ selection.map SelectedNode.shape, shape.Storable := by
    rw [List.forall_mem_map]
    exact fun n hn => (hs n hn).shape
  have hnodes : (selection.map SelectedNode.shape).map (⟨·, []⟩) = selection := by
    rw [List.map_map]
    refine (List.map_congr_left fun n hn => ?_).trans (List.map_id selection)
    rw [Function.comp_apply, ← ha n hn, id]
  rw [selectionOfJson, bareSelection?, Shape.listOfItems?_of_written hshapes hf, Option.map_some,
    hnodes]
  rfl

/-- Every selection that can be written is written by its object, and by its array if no node has
a container above it; and every value that writes it in either layout is read as it. -/
theorem selectionOfJson_eq_of_written {selection : List SelectedNode}
    (hs : ∀ n ∈ selection, n.Storable) :
    (IsSelection selection (selectionJson selection) ∧
      ∀ json, IsSelection selection json → selectionOfJson json = .ok selection) ∧
    ((∀ n ∈ selection, n.ancestors = []) →
      IsBareSelection selection (bareSelectionJson selection) ∧
        ∀ json, IsBareSelection selection json → selectionOfJson json = .ok selection) := by
  refine ⟨⟨?_, fun _ => selectionOfJson_eq_of_isSelection hs⟩, fun ha => ⟨?_, fun _ =>
    selectionOfJson_eq_of_isBareSelection hs ha⟩⟩
  · exact Json.isRecord_of_writes
      (.written (Json.isList_map fun n hn => SelectedNode.written_toJson (hs n hn)) .nil)
      (by simp [sceneLayout])
  · refine Json.isList_map fun shape hshape => Shape.written_toJson ?_
    obtain ⟨n, hn, rfl⟩ := List.mem_map.1 hshape
    exact (hs n hn).shape

end

/-- A frame on the page itself, with a star and a node of an unknown kind. -/
theorem selectionOfJson_of_frame :
    let selection : List SelectedNode := [⟨.container ⟨"f", 0, 0, 9, 9, none⟩ .frame
      [.leaf ⟨"s", 1, 1, 4, 4, none⟩ (.star 5 (some 0.5)),
        .leaf ⟨"w", 0, 0, 1, 1, some ⟨1, 2, 1, 1⟩⟩ (.unsupported "WIDGET")], []⟩]
    selectionOfJson (selectionJson selection) = .ok selection ∧
      selectionOfJson (bareSelectionJson selection) = .ok selection := by
  intro selection
  have hstar : Shape.Storable (.leaf ⟨"s", 1, 1, 4, 4, none⟩ (.star 5 (some 0.5))) :=
    .leaf ⟨by decide +kernel, by decide +kernel, by decide +kernel, by decide +kernel, by simp⟩
      ⟨by decide +kernel, by decide +kernel⟩
  have hwidget : Shape.Storable
      (.leaf ⟨"w", 0, 0, 1, 1, some ⟨1, 2, 1, 1⟩⟩ (.unsupported "WIDGET")) := by
    refine .leaf ⟨by decide +kernel, by decide +kernel, by decide +kernel, by decide +kernel, ?_⟩
      (by decide : "WIDGET" ∉ knownTags)
    rintro _ ⟨⟩
    exact ⟨by decide +kernel, by decide +kernel, by decide +kernel, by decide +kernel⟩
  have hs : ∀ n ∈ selection, n.Storable := by
    rw [List.forall_mem_singleton]
    refine ⟨.container ⟨by decide +kernel, by decide +kernel, by decide +kernel,
      by decide +kernel, by simp⟩ ?_, by simp⟩
    simp [hstar, hwidget]
  obtain ⟨⟨h, hread⟩, hbare⟩ := selectionOfJson_eq_of_written hs
  obtain ⟨hb, hreadb⟩ := hbare (by simp [selection])
  exact ⟨hread _ h, hreadb _ hb⟩

end LaserPath
