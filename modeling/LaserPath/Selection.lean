import LaserPath.Shape.Basic

/-!
# Selections

A selection is a list of nodes with the containers above each. A program is
cut from its parts: the leaves of the selected trees, and containers that have
no children.

## Main definitions

* `SelectedNode` — a node of the selection.
* `Part` — a piece of the selection that is compiled on its own.
* `Shape.parts`, `parts` — the parts of a tree and of a selection.

## Main statements

* `parts_append` — the parts of two selections follow each other.
-/

namespace LaserPath

/-- A selected node and the containers between it and the page, nearest first. -/
structure SelectedNode where
  shape : Shape
  ancestors : List Ancestor

/-- A piece of the selection: a shape, the containers above it, nearest first,
and the names from the selected node down to it. -/
structure Part where
  shape : Shape
  ancestors : List Ancestor
  label : String

/-- What stands between two names in a label. -/
def Part.labelSeparator : String := " > "

namespace Shape

mutual

/-- The parts of a tree in the order of its nodes. -/
def parts (shape : Shape) (ancestors : List Ancestor) (label : String) : List Part :=
  match shape with
  | .container a _ (child :: children) =>
    partsBelow (child :: children) (Ancestor.of a :: ancestors) label
  | shape => [⟨shape, ancestors, label⟩]

/-- The parts of the children of a node with the given label. -/
def partsBelow (children : List Shape) (ancestors : List Ancestor) (label : String) :
    List Part :=
  match children with
  | [] => []
  | child :: rest =>
    parts child ancestors (label ++ Part.labelSeparator ++ child.displayName) ++
      partsBelow rest ancestors label

end

end Shape

/-- The parts of one selected node. -/
def SelectedNode.parts (n : SelectedNode) : List Part :=
  n.shape.parts n.ancestors n.shape.displayName

/-- The parts of a selection, in the order of the selection. -/
def parts (selection : List SelectedNode) : List Part :=
  selection.flatMap SelectedNode.parts

@[simp] theorem parts_nil : parts [] = [] := rfl

/-- The parts of two selections follow each other. -/
theorem parts_append (s t : List SelectedNode) : parts (s ++ t) = parts s ++ parts t := by
  simp [parts]

end LaserPath
