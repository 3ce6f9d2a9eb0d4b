import LaserPath.Shape.Compile

/-!
# What a compilation comes to

A node is compiled when its measures pass; the toolpath of a container is then framed by two
comments, and between them every child adds its toolpath or a comment of its own. Everything
about toolpaths of trees is proved by `Shape.induction` from these equations.

## Main definitions

* `Shape.contribution` — what a child adds to the toolpath of its container.
* `Shape.inside` — what stands between the two comments of a container.

## Main statements

* `Shape.induction` — induction over trees.
* `Shape.compile_leaf_eq_ok_iff`, `Shape.compile_container_eq_ok_iff` — when a node is compiled
  and to what.
-/

namespace LaserPath

/-- A result that passes a test is a result. -/
theorem exists_ok_of_any {ε α : Type} {x : Except ε α} {Q : α → Prop} [DecidablePred Q]
    (h : x.toOption.any (fun a => decide (Q a)) = true) : ∃ a, x = .ok a ∧ Q a := by
  cases x with
  | error error => simp [Except.toOption] at h
  | ok a => exact ⟨a, rfl, by simpa [Except.toOption] using h⟩

/-- What is made of a result comes from a result. -/
theorem exists_ok_of_map_eq_ok {ε α β : Type} {f : α → β} {x : Except ε α} {b : β}
    (h : x.map f = .ok b) : ∃ a, x = .ok a ∧ f a = b := by
  cases x with
  | error error => cases h
  | ok a => exact ⟨a, rfl, Except.ok.inj h⟩

namespace Shape

/-- A statement about all trees follows from that about leaves and from that about containers
whose children satisfy it. -/
@[elab_as_elim]
theorem induction {P : Shape → Prop} (leaf : ∀ a figure, P (.leaf a figure))
    (container : ∀ a kind children, (∀ child ∈ children, P child) →
      P (.container a kind children)) (shape : Shape) : P shape := by
  refine @Shape.rec P (fun children => ∀ child ∈ children, P child) leaf container ?_ ?_ shape
  · simp
  · intro child rest hchild hrest
    simpa using ⟨hchild, hrest⟩

/-- What a child adds to the toolpath of its container. -/
def contribution (settings : LaserSettings) (ancestors : List Ancestor) (child : Shape) :
    Toolpath :=
  match child.compile settings ancestors with
  | .ok toolpath => toolpath
  | .error error => [skippedComment child.displayName error]

theorem compileAll_eq_flatMap (settings : LaserSettings) (children : List Shape)
    (ancestors : List Ancestor) :
    compileAll settings children ancestors =
      children.flatMap (contribution settings ancestors) := by
  induction children with
  | nil => simp [compileAll]
  | cons child rest ih =>
    rw [compileAll, ih, List.flatMap_cons]
    rfl

/-- What stands between the two comments of a container: its box if it is empty, or what its
children add. -/
def inside (settings : LaserSettings) (a : Attributes) (kind : ContainerKind)
    (children : List Shape) (ancestors : List Ancestor) : Toolpath :=
  if children.isEmpty then
    .comment (kind.tag ++ " (empty - drawing bounding box)") ::
      settings.outline (a.anchor ancestors) a.width a.height
  else children.flatMap (contribution settings (Ancestor.of a :: ancestors))

/-- The toolpath of a container with the given inside. -/
def framed (a : Attributes) (kind : ContainerKind) (inside : Toolpath) : Toolpath :=
  .comment (kind.tag ++ " START - \"" ++ a.name ++ "\"") ::
    (inside ++ [.comment (kind.tag ++ " END - \"" ++ a.name ++ "\"")])

variable {settings : LaserSettings} {a : Attributes} {ancestors : List Ancestor} {t : Toolpath}

theorem compile_leaf_eq_ok_iff {figure : Figure} :
    (leaf a figure).compile settings ancestors = .ok t ↔
      a.check = .ok () ∧ figure.trace settings a (a.anchor ancestors) = .ok t := by
  rw [compile]
  cases h : a.check with
  | error error => simp [bind, Except.bind]
  | ok => simp [bind, Except.bind]

theorem compile_container_eq_ok_iff {kind : ContainerKind} {children : List Shape} :
    (container a kind children).compile settings ancestors = .ok t ↔
      a.check = .ok () ∧ framed a kind (inside settings a kind children ancestors) = t := by
  rw [compile]
  cases h : a.check with
  | error error => simp [bind, Except.bind]
  | ok => simp [bind, Except.bind, pure, Except.pure, framed, inside, compileAll_eq_flatMap]

end Shape

end LaserPath
