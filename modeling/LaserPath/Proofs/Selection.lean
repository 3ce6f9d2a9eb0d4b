import LaserPath.Proofs.Shape.Compile
import LaserPath.Selection

/-!
# The parts of a selection

A part is a node that is not taken apart: a leaf, or a container without children. Its label
is the path of names from the selected node down to it, so it ends in the name of the part.

## Main definitions

* `Part.Named` — the shape and the label of a part fit.

## Main statements

* `Part.named_of_mem_parts` — the parts of a selection are of this kind.
-/

namespace LaserPath

/-- A label for a shape: the name of the shape, with names in front of it or without. -/
def Shape.Labels (label : String) (s : Shape) : Prop :=
  label = s.displayName ∨ ∃ above, label = above ++ Part.labelSeparator ++ s.displayName

/-- A node that is not taken apart, with a label for it. -/
structure Part.Named (p : Part) : Prop where
  childless : p.shape.children = []
  labels : Shape.Labels p.label p.shape

namespace Shape

theorem parts_of_childless {s : Shape} (h : s.children = []) (ancestors : List Ancestor)
    (label : String) : s.parts ancestors label = [⟨s, ancestors, label⟩] := by
  cases s with
  | leaf a figure => rfl
  | container a kind children =>
    obtain rfl : children = [] := h
    rfl

theorem partsBelow_eq_flatMap (children : List Shape) (ancestors : List Ancestor)
    (label : String) :
    partsBelow children ancestors label = children.flatMap fun child =>
      child.parts ancestors (label ++ Part.labelSeparator ++ child.displayName) := by
  induction children with
  | nil => simp [partsBelow]
  | cons child rest ih => rw [partsBelow, ih, List.flatMap_cons]

theorem parts_container {a : Attributes} {kind : ContainerKind} {children : List Shape}
    (h : children ≠ []) (ancestors : List Ancestor) (label : String) :
    (container a kind children).parts ancestors label = children.flatMap fun child =>
      child.parts (.of a :: ancestors) (label ++ Part.labelSeparator ++ child.displayName) := by
  cases children with
  | nil => exact absurd rfl h
  | cons child rest => rw [parts, partsBelow_eq_flatMap]

theorem named_of_mem_parts (s : Shape) {ancestors : List Ancestor} {label : String} {p : Part}
    (hl : Labels label s) (hp : p ∈ s.parts ancestors label) : p.Named := by
  induction s using Shape.induction generalizing ancestors label with
  | leaf a figure =>
    rw [parts_of_childless rfl, List.mem_singleton] at hp
    subst hp
    exact ⟨rfl, hl⟩
  | container a kind children ih =>
    by_cases hc : children = []
    · rw [parts_of_childless (s := .container a kind children) hc, List.mem_singleton] at hp
      subst hp
      exact ⟨hc, hl⟩
    · rw [parts_container hc] at hp
      obtain ⟨child, hm, hp⟩ := List.mem_flatMap.1 hp
      exact ih child hm (.inr ⟨label, rfl⟩) hp

end Shape

/-- A part of a selection is not taken apart, and its label ends in its name. -/
theorem Part.named_of_mem_parts {selection : List SelectedNode} {p : Part}
    (h : p ∈ parts selection) : p.Named := by
  obtain ⟨n, -, hp⟩ := List.mem_flatMap.1 h
  exact n.shape.named_of_mem_parts (.inl rfl) hp

end LaserPath
