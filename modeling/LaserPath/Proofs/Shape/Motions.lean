import LaserPath.Proofs.Selection
import Mathlib.Data.List.Basic

/-!
# The motions of a container are those of its parts

There are two walks through a tree. One compiles a container together with its children and
leaves a comment in place of what cannot be drawn, the other takes a selection apart and has
every part compiled on its own. They write the same motions, as long as the containers in the
tree can be drawn: a container that cannot be drawn takes its children with it on the first walk
but not on the second.

## Main definitions

* `Attributes.IsFinite` — nothing that is checked of a node is infinite or undefined.
* `Shape.containers` — the containers of a tree.
* `Part.motions` — the motions of a part compiled on its own.

## Main statements

* `Shape.motions_contribution` — the walks agree on every tree.
* `Shape.exists_motions_compile` — a container is compiled to the motions of its parts.
-/

namespace LaserPath

namespace Toolpath

/-- The motions of a toolpath, in order. -/
def motions (t : Toolpath) : Toolpath := t.filter Command.isMotion

@[simp] theorem motions_nil : motions [] = [] := rfl

@[simp] theorem motions_comment_cons (text : String) (t : Toolpath) :
    motions (.comment text :: t) = motions t :=
  rfl

@[simp] theorem motions_append (s t : Toolpath) : motions (s ++ t) = motions s ++ motions t :=
  List.filter_append ..

theorem motions_flatMap {α : Type} (f : α → Toolpath) (l : List α) :
    motions (l.flatMap f) = l.flatMap fun a => motions (f a) :=
  List.filter_flatMap ..

end Toolpath

namespace Attributes

/-- The position, the size and the corner of the box on the page are finite. -/
structure IsFinite (a : Attributes) : Prop where
  x : a.x.isFinite = true
  y : a.y.isFinite = true
  width : a.width.isFinite = true
  height : a.height.isFinite = true
  bounds : ∀ b ∈ a.absoluteBounds?, b.x.isFinite = true ∧ b.y.isFinite = true

variable {a : Attributes}

instance : Decidable a.IsFinite :=
  decidable_of_iff (a.x.isFinite = true ∧ a.y.isFinite = true ∧ a.width.isFinite = true ∧
    a.height.isFinite = true ∧ ∀ b ∈ a.absoluteBounds?, b.x.isFinite = true ∧ b.y.isFinite = true)
    ⟨fun ⟨hx, hy, hw, hh, hb⟩ => ⟨hx, hy, hw, hh, hb⟩,
      fun ⟨hx, hy, hw, hh, hb⟩ => ⟨hx, hy, hw, hh, hb⟩⟩

theorem check_eq_ok_iff : a.check = .ok () ↔ ∀ d ∈ a.dimensions, d.2.isFinite = true := by
  unfold check
  split
  · next dimension value h =>
    have hv := List.find?_some h
    have hm := List.mem_of_find?_eq_some h
    simp only [reduceCtorEq, false_iff]
    intro hall
    simp [hall _ hm] at hv
  · next h => simpa using h

theorem IsFinite.check (h : a.IsFinite) : a.check = .ok () := by
  rw [check_eq_ok_iff, dimensions]
  have hb := h.bounds
  cases hbounds : a.absoluteBounds? with
  | none => simp [h.x, h.y, h.width, h.height]
  | some b => simp [h.x, h.y, h.width, h.height, hb b hbounds]

end Attributes

namespace Shape

mutual

/-- The containers of a tree, each in front of its children. -/
def containers (shape : Shape) : List Attributes :=
  match shape with
  | .leaf _ _ => []
  | .container a _ children => a :: containersAll children

def containersAll (children : List Shape) : List Attributes :=
  match children with
  | [] => []
  | child :: rest => containers child ++ containersAll rest

end

theorem containersAll_eq_flatMap (children : List Shape) :
    containersAll children = children.flatMap containers := by
  induction children with
  | nil => simp [containersAll]
  | cons child rest ih => rw [containersAll, ih, List.flatMap_cons]

theorem forall_mem_containers_iff {a : Attributes} {kind : ContainerKind} {children : List Shape}
    {P : Attributes → Prop} :
    (∀ b ∈ (container a kind children).containers, P b) ↔
      P a ∧ ∀ child ∈ children, ∀ b ∈ child.containers, P b := by
  rw [containers, List.forall_mem_cons, containersAll_eq_flatMap]
  simp only [List.mem_flatMap]
  grind

end Shape

/-- The motions of a part that is compiled on its own; a part that cannot be drawn has none. -/
def Part.motions (settings : LaserSettings) (p : Part) : Toolpath :=
  match p.shape.compile settings p.ancestors with
  | .ok t => t.motions
  | .error _ => []

namespace Shape

open Toolpath

variable (settings : LaserSettings) {a : Attributes} {kind : ContainerKind} {children : List Shape}

theorem motions_contribution_of_childless {s : Shape} (h : s.children = [])
    (ancestors : List Ancestor) (label : String) :
    Toolpath.motions (s.contribution settings ancestors) =
      (s.parts ancestors label).flatMap (Part.motions settings) := by
  rw [parts_of_childless h, List.flatMap_singleton, Part.motions, contribution]
  cases s.compile settings ancestors <;> rfl

theorem contribution_container (h : a.check = .ok ()) (ancestors : List Ancestor) :
    (container a kind children).contribution settings ancestors =
      framed a kind (inside settings a kind children ancestors) := by
  rw [contribution, compile_container_eq_ok_iff.2 ⟨h, rfl⟩]

theorem motions_inside (h : children ≠ []) (ancestors : List Ancestor) :
    Toolpath.motions (inside settings a kind children ancestors) =
      children.flatMap fun child =>
        Toolpath.motions (child.contribution settings (.of a :: ancestors)) := by
  rw [inside, if_neg (by simpa using h), motions_flatMap]

/-- Both walks through a tree whose containers are finite write the same motions. -/
theorem motions_contribution (shape : Shape) (ancestors : List Ancestor) (label : String)
    (h : ∀ a ∈ shape.containers, a.IsFinite) :
    Toolpath.motions (shape.contribution settings ancestors) =
      (shape.parts ancestors label).flatMap (Part.motions settings) := by
  induction shape using Shape.induction generalizing ancestors label with
  | leaf a figure => exact motions_contribution_of_childless settings rfl ancestors label
  | container a kind children ih =>
    by_cases hc : children = []
    · exact motions_contribution_of_childless settings (s := container a kind children) hc
        ancestors label
    · obtain ⟨ha, hchildren⟩ := forall_mem_containers_iff.1 h
      rw [contribution_container settings ha.check, framed, motions_comment_cons, motions_append,
        motions_inside settings hc, motions_comment_cons, motions_nil, List.append_nil,
        parts_container hc, List.flatMap_assoc]
      exact List.flatMap_congr fun child hm => ih child hm _ _ (hchildren child hm)

/-- A container is compiled, and to the motions of its parts in their order. -/
theorem exists_motions_compile (a : Attributes) (kind : ContainerKind) (children : List Shape)
    (ancestors : List Ancestor)
    (h : ∀ b ∈ (container a kind children).containers, b.IsFinite) :
    ∃ t, (container a kind children).compile settings ancestors = .ok t ∧
      Toolpath.motions t =
        (LaserPath.parts [⟨container a kind children, ancestors⟩]).flatMap
          (Part.motions settings) := by
  have ha := (forall_mem_containers_iff.1 h).1
  refine ⟨_, compile_container_eq_ok_iff.2 ⟨ha.check, rfl⟩, ?_⟩
  rw [← contribution_container settings ha.check, LaserPath.parts, List.flatMap_singleton]
  exact motions_contribution settings _ ancestors _ h

/-- A sheet with a box, and with a group of a star that cannot be drawn and an empty section. -/
def sheet : List Shape :=
  [.leaf ⟨"box", 1, 2, 10, 5, none⟩ .rectangle,
    .container ⟨"group", 20, 0, 40, 40, some ⟨25, 5, 40, 40⟩⟩ .group
      [.leaf ⟨"star", 0, 0, 8, 8, none⟩ (.star 5 (some 2)),
        .container ⟨"", 3, 4, 6, 6, none⟩ .section []]]

/-- The sheet is cut as its box and its section are, one after the other. -/
theorem exists_motions_sheet :
    ∃ t, (container ⟨"sheet", 5, 5, 100, 80, none⟩ .frame sheet).compile {} [⟨"page", none⟩] =
        .ok t ∧
      Toolpath.motions t =
        (LaserPath.parts [⟨container ⟨"sheet", 5, 5, 100, 80, none⟩ .frame sheet,
          [⟨"page", none⟩]⟩]).flatMap (Part.motions {}) ∧
      t.motions.length = 10 := by
  obtain ⟨t, ht, hm⟩ := exists_motions_compile {} ⟨"sheet", 5, 5, 100, 80, none⟩ .frame sheet
    [⟨"page", none⟩] (by decide +kernel)
  refine ⟨t, ht, hm, ?_⟩
  rw [hm]
  decide +kernel

end Shape

end LaserPath
