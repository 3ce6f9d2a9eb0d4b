import LaserPath.Proofs.Shape.Motions
import LaserPath.Proofs.Trace.Network

/-!
# Which shapes are refused

A shape is refused for its own sake only: for its first measure that is not finite, or else for the
share of a star or the first fault of a network. A container is drawn whatever its children are.
Each of them leaves its toolpath between the two comments of the container, or one comment if it is
refused, and nothing else in the tree depends on it.

## Main definitions

* `Attributes.FirstNonfinite` — the measure for which a node is refused.
* `Shape.Refused` — the reason for which a shape is refused.
* `Shape.Leaves` — what a child leaves in the toolpath of its container.
* `Shape.within` — a tree around a place, given by the levels above the place.

## Main statements

* `Shape.compile_eq_error_iff` — a shape is refused for that reason and for no other.
* `Shape.exists_compile_within`, `Shape.exists_compile_within_of_not_isFinite` — what is compiled
  around a place.
* `Shape.refused_or_drawn` — all of this for every shape.
-/

namespace LaserPath

/-- The measures in the order in which they are checked. -/
def Dimension.inOrder : List Dimension := [.x, .y, .width, .height, .boundsX, .boundsY]

/-- A measure of a node; the box on the page has measures only if it is there. -/
def Attributes.measure? (a : Attributes) : Dimension → Option Float
  | .x => some a.x
  | .y => some a.y
  | .width => some a.width
  | .height => some a.height
  | .boundsX => a.absoluteBounds?.map Bounds.x
  | .boundsY => a.absoluteBounds?.map Bounds.y

/-- The first measure that is not finite, with its value. -/
inductive Attributes.FirstNonfinite (a : Attributes) : Dimension → Float → Prop where
  | intro {before behind : List Dimension} {dimension : Dimension} {value : Float}
    (heq : Dimension.inOrder = before ++ dimension :: behind)
    (hvalue : a.measure? dimension = some value) (h : value.isFinite = false)
    (hbefore : ∀ d ∈ before, ∀ v ∈ a.measure? d, v.isFinite = true) :
    a.FirstNonfinite dimension value

/-- Why a shape is refused: for its first measure that is not finite, or else for a share that is
not above zero or is above one, or for the first fault of a network. What stands below a container
is no reason. -/
inductive Shape.Refused : Shape → ShapeError → Prop where
  | notFinite {s : Shape} {dimension : Dimension} {value : Float}
    (h : s.attributes.FirstNonfinite dimension value) : s.Refused (.notFinite dimension value)
  | starRatio {a : Attributes} {points : Nat} {ratio : Float} (ha : a.IsFinite)
    (h : ¬ (0 < ratio ∧ ratio ≤ 1)) :
    (leaf a (.star points (some ratio))).Refused (.starRatio ratio)
  | malformedNetwork {a : Attributes} {n : Network} {paths : List String} {fault : Network.Fault}
    (ha : a.IsFinite) (h : n.FirstFault fault) :
    (leaf a (.vector (some n) paths)).Refused (.malformedNetwork fault)

/-- What a child leaves in the toolpath of its container: its own toolpath, or, if it is refused,
one comment on the reason. -/
inductive Shape.Leaves (settings : LaserSettings) (ancestors : List Ancestor) (child : Shape) :
    Toolpath → Prop where
  | drawn {t : Toolpath} (h : child.compile settings ancestors = .ok t) :
    child.Leaves settings ancestors t
  | skipped {error : ShapeError} (h : child.Refused error) :
    child.Leaves settings ancestors [skippedComment child.displayName error]

/-- A container around a place among its children. -/
structure Level where
  attributes : Attributes
  kind : ContainerKind
  before : List Shape
  behind : List Shape

/-- The container with a shape in the place. -/
def Level.around (l : Level) (s : Shape) : Shape :=
  .container l.attributes l.kind (l.before ++ s :: l.behind)

/-- A tree with a shape in a place, the levels above the place from the root down. -/
def Shape.within (levels : List Level) (s : Shape) : Shape := levels.foldr Level.around s

/-- The containers above the place, nearest first, and those above the tree. -/
def Level.ancestors (levels : List Level) (ancestors : List Ancestor) : List Ancestor :=
  (levels.reverse.map fun l => Ancestor.of l.attributes) ++ ancestors

/-! ## Measures -/

namespace Attributes

variable {a : Attributes}

theorem dimensions_eq_filterMap (a : Attributes) :
    a.dimensions = Dimension.inOrder.filterMap fun d => (a.measure? d).map (d, ·) := by
  unfold dimensions
  cases h : a.absoluteBounds? <;> simp [Dimension.inOrder, measure?, h]

theorem check_eq_ok_iff_isFinite : a.check = .ok () ↔ a.IsFinite := by
  refine ⟨fun h => ?_, IsFinite.check⟩
  rw [check_eq_ok_iff, dimensions] at h
  cases hb : a.absoluteBounds? with
  | none =>
    obtain ⟨hx, hy, hwidth, hheight⟩ : a.x.isFinite = true ∧ a.y.isFinite = true ∧
        a.width.isFinite = true ∧ a.height.isFinite = true := by
      simpa [hb] using h
    exact ⟨hx, hy, hwidth, hheight, by simp [hb]⟩
  | some b =>
    obtain ⟨hx, hy, hwidth, hheight, hbounds⟩ : a.x.isFinite = true ∧ a.y.isFinite = true ∧
        a.width.isFinite = true ∧ a.height.isFinite = true ∧
          b.x.isFinite = true ∧ b.y.isFinite = true := by
      simpa [hb] using h
    exact ⟨hx, hy, hwidth, hheight, by simpa [hb] using hbounds⟩

theorem find?_dimensions_eq_some_iff {dimension : Dimension} {value : Float} :
    a.dimensions.find? (!·.2.isFinite) = some (dimension, value) ↔
      a.FirstNonfinite dimension value := by
  rw [dimensions_eq_filterMap, List.find?_filterMap, Option.bind_eq_some_iff]
  constructor
  · rintro ⟨d, hfind, hd⟩
    obtain ⟨v, hv, hdv⟩ := Option.map_eq_some_iff.1 hd
    obtain ⟨rfl, rfl⟩ := Prod.mk.inj hdv
    obtain ⟨hnot, before, behind, heq, hbefore⟩ := List.find?_eq_some_iff_append.1 hfind
    refine .intro heq hv (by simpa [hv] using hnot) fun d' hd' v' hv' => ?_
    have hv' : a.measure? d' = some v' := hv'
    simpa [hv'] using hbefore d' hd'
  · rintro ⟨heq, hv, hnot, hbefore⟩
    refine ⟨dimension, List.find?_eq_some_iff_append.2 ⟨by simp [hv, hnot], _, _, heq, ?_⟩,
      by simp [hv]⟩
    intro d hd
    cases hvd : a.measure? d with
    | none => rfl
    | some v => simp [hbefore d hd v hvd]

theorem check_eq_error_iff {error : ShapeError} : a.check = .error error ↔
    ∃ dimension value, a.FirstNonfinite dimension value ∧ .notFinite dimension value = error := by
  simp only [← find?_dimensions_eq_some_iff]
  unfold check
  cases a.dimensions.find? (!·.2.isFinite) with
  | none => simp
  | some measure =>
    obtain ⟨dimension, value⟩ := measure
    simp

end Attributes

/-! ## Figures -/

section

variable {settings : LaserSettings} {a : Attributes} {anchor : Point} {error : ShapeError}

/-- What is made of a result fails as the result does. -/
theorem map_eq_error_iff {ε α β : Type} {f : α → β} {x : Except ε α} {e : ε} :
    x.map f = .error e ↔ x = .error e := by
  cases x <;> simp [Except.map]

theorem starRatio_eq_error_iff {innerRadius? : Option Float} :
    starRatio innerRadius? = .error error ↔
      ∃ ratio, innerRadius? = some ratio ∧ ¬ (0 < ratio ∧ ratio ≤ 1) ∧
        .starRatio ratio = error := by
  unfold starRatio
  cases innerRadius? with
  | none => simp
  | some ratio =>
    dsimp only
    split
    · next h => simp [h]
    · next h =>
      have hshare := not_and.1 h
      simpa using fun _ => hshare

theorem Network.trace_eq_error_iff {n : Network} : n.trace settings anchor = .error error ↔
    ∃ fault, n.FirstFault fault ∧ .malformedNetwork fault = error := by
  simp only [← fault?_eq_some_iff]
  unfold trace
  cases n.fault? <;> simp

namespace Figure

/-- A network with a fault has segments, so it is the network that is traced. -/
theorem traceVector_eq_error_iff {network? : Option Network} {paths : List String} :
    traceVector settings a anchor network? paths = .error error ↔
      ∃ n fault, network? = some n ∧ n.FirstFault fault ∧ .malformedNetwork fault = error := by
  unfold traceVector
  split
  · next n hn =>
    obtain ⟨rfl, -⟩ := Option.filter_eq_some_iff.1 hn
    simp [map_eq_error_iff, Network.trace_eq_error_iff]
  · next hn =>
    have hempty : ∀ n fault, network? = some n → ¬ n.FirstFault fault := by
      rintro n fault rfl hfault
      cases hfault with
      | start heq | finish heq => simp [Option.filter, Network.isEmpty, heq] at hn
    constructor
    · split <;> simp
    · rintro ⟨n, fault, h, hfault, -⟩
      exact absurd hfault (hempty n fault h)

/-- Only stars and networks are refused by their tracers. -/
theorem trace_eq_error_iff {figure : Figure} : figure.trace settings a anchor = .error error ↔
    (∃ points ratio, figure = .star points (some ratio) ∧ ¬ (0 < ratio ∧ ratio ≤ 1) ∧
      .starRatio ratio = error) ∨
    ∃ n paths fault, figure = .vector (some n) paths ∧ n.FirstFault fault ∧
      .malformedNetwork fault = error := by
  cases figure with
  | star points innerRadius? => simp [trace, map_eq_error_iff, starRatio_eq_error_iff]
  | vector network? paths => simp [trace, map_eq_error_iff, traceVector_eq_error_iff]
  | _ => simp [trace]

end Figure

end

namespace Shape

variable {settings : LaserSettings} {a : Attributes} {ancestors : List Ancestor}
  {error : ShapeError}

theorem compile_leaf_eq_error_iff {figure : Figure} :
    (leaf a figure).compile settings ancestors = .error error ↔ a.check = .error error ∨
      a.check = .ok () ∧ figure.trace settings a (a.anchor ancestors) = .error error := by
  rw [compile]
  cases h : a.check <;> simp [bind, Except.bind]

theorem compile_container_eq_error_iff {kind : ContainerKind} {children : List Shape} :
    (container a kind children).compile settings ancestors = .error error ↔
      a.check = .error error := by
  rw [compile]
  cases h : a.check <;> simp [bind, Except.bind, pure, Except.pure]

/-- A shape is refused for its own reason and for no other. -/
theorem compile_eq_error_iff {s : Shape} :
    s.compile settings ancestors = .error error ↔ s.Refused error := by
  cases s with
  | leaf a figure =>
    rw [compile_leaf_eq_error_iff, Attributes.check_eq_error_iff,
      Attributes.check_eq_ok_iff_isFinite, Figure.trace_eq_error_iff]
    constructor
    · rintro (⟨d, v, h, rfl⟩ | ⟨ha, ⟨points, ratio, rfl, h, rfl⟩ | ⟨n, paths, fault, rfl, h, rfl⟩⟩)
      · exact .notFinite h
      · exact .starRatio ha h
      · exact .malformedNetwork ha h
    · rintro (h | ⟨ha, h⟩ | ⟨ha, h⟩)
      · exact .inl ⟨_, _, h, rfl⟩
      · exact .inr ⟨ha, .inl ⟨_, _, rfl, h, rfl⟩⟩
      · exact .inr ⟨ha, .inr ⟨_, _, _, rfl, h, rfl⟩⟩
  | container a kind children =>
    rw [compile_container_eq_error_iff, Attributes.check_eq_error_iff]
    constructor
    · rintro ⟨d, v, h, rfl⟩
      exact .notFinite h
    · rintro ⟨h⟩
      exact ⟨_, _, h, rfl⟩

theorem exists_compile_eq_ok_iff {s : Shape} :
    (∃ t, s.compile settings ancestors = .ok t) ↔ ∀ error, ¬ s.Refused error := by
  have h error := @compile_eq_error_iff settings ancestors error s
  simp only [← h]
  cases s.compile settings ancestors <;> simp

/-! ## Children -/

theorem leaves_contribution (settings : LaserSettings) (ancestors : List Ancestor) (s : Shape) :
    s.Leaves settings ancestors (s.contribution settings ancestors) := by
  unfold contribution
  split
  · next t h => exact .drawn h
  · next error h => exact .skipped (compile_eq_error_iff.1 h)

/-- A child leaves one thing only. -/
theorem Leaves.eq_contribution {s : Shape} {piece : Toolpath}
    (h : s.Leaves settings ancestors piece) : piece = s.contribution settings ancestors := by
  unfold contribution
  cases h with
  | drawn h => rw [h]
  | skipped h => rw [compile_eq_error_iff.2 h]

/-- A container with children is drawn as these leave it, between its two comments. -/
theorem exists_pieces_of_compile {kind : ContainerKind} {children : List Shape} {t : Toolpath}
    (hchildren : children ≠ [])
    (h : (container a kind children).compile settings ancestors = .ok t) :
    ∃ pieces, List.Forall₂ (Leaves settings (Ancestor.of a :: ancestors)) children pieces ∧
      t = framed a kind pieces.flatten := by
  obtain ⟨-, rfl⟩ := compile_container_eq_ok_iff.1 h
  refine ⟨children.map (contribution settings (Ancestor.of a :: ancestors)), ?_, ?_⟩
  · rw [List.forall₂_map_right_iff, List.forall₂_same]
    exact fun child _ => leaves_contribution settings _ child
  · rw [inside, if_neg (by simpa using hchildren), List.flatMap_def]

/-! ## Around a place -/

/-- What is compiled around a child does not depend on the child. -/
theorem exists_compile_around (settings : LaserSettings) {l : Level} (h : l.attributes.IsFinite)
    (ancestors : List Ancestor) : ∃ front back, ∀ s : Shape,
      (l.around s).compile settings ancestors = .ok (front ++
        s.contribution settings (Ancestor.of l.attributes :: ancestors) ++ back) := by
  let pieces (children : List Shape) : Toolpath :=
    children.flatMap (contribution settings (Ancestor.of l.attributes :: ancestors))
  refine ⟨.comment (l.kind.tag ++ " START - \"" ++ l.attributes.name ++ "\"") :: pieces l.before,
    pieces l.behind ++ [.comment (l.kind.tag ++ " END - \"" ++ l.attributes.name ++ "\"")],
    fun s => compile_container_eq_ok_iff.2 ⟨h.check, ?_⟩⟩
  rw [inside, if_neg (by simp), framed, List.flatMap_append, List.flatMap_cons]
  simp [pieces]

@[simp] theorem within_cons (l : Level) (levels : List Level) (s : Shape) :
    s.within (l :: levels) = l.around (s.within levels) :=
  rfl

theorem Level.ancestors_cons (l : Level) (levels : List Level) (ancestors : List Ancestor) :
    Level.ancestors (l :: levels) ancestors =
      Level.ancestors levels (Ancestor.of l.attributes :: ancestors) := by
  simp [Level.ancestors]

/-- The same holds below any number of levels. -/
theorem exists_contribution_within (settings : LaserSettings) {levels : List Level}
    (h : ∀ l ∈ levels, l.attributes.IsFinite) (ancestors : List Ancestor) :
    ∃ front back, ∀ s : Shape, (s.within levels).contribution settings ancestors =
      front ++ s.contribution settings (Level.ancestors levels ancestors) ++ back := by
  induction levels generalizing ancestors with
  | nil => exact ⟨[], [], fun s => by simp [within, Level.ancestors]⟩
  | cons l levels ih =>
    rw [List.forall_mem_cons] at h
    obtain ⟨front, back, haround⟩ := exists_compile_around settings h.1 ancestors
    obtain ⟨front', back', hwithin⟩ := ih h.2 (Ancestor.of l.attributes :: ancestors)
    refine ⟨front ++ front', back' ++ back, fun s => ?_⟩
    have hdrawn := (Leaves.drawn (haround (s.within levels))).eq_contribution
    rw [hwithin] at hdrawn
    simpa [Level.ancestors_cons] using hdrawn.symm

/-- A tree whose levels above a place are finite is drawn, and of what is drawn only what stands in
the place depends on it. -/
theorem exists_compile_within {levels : List Level} (hlevels : levels ≠ [])
    (h : ∀ l ∈ levels, l.attributes.IsFinite) (ancestors : List Ancestor) :
    ∃ front back, ∀ (s : Shape) (piece : Toolpath),
      s.Leaves settings (Level.ancestors levels ancestors) piece →
        (s.within levels).compile settings ancestors = .ok (front ++ piece ++ back) := by
  obtain ⟨l, levels, rfl⟩ := List.exists_cons_of_ne_nil hlevels
  rw [List.forall_mem_cons] at h
  obtain ⟨front, back, haround⟩ := exists_compile_around settings h.1 ancestors
  obtain ⟨front', back', hwithin⟩ := exists_contribution_within settings h.2
    (Ancestor.of l.attributes :: ancestors)
  refine ⟨front ++ front', back' ++ back, fun s piece hpiece => ?_⟩
  have hdrawn := haround (s.within levels)
  rw [hwithin, ← Level.ancestors_cons, ← hpiece.eq_contribution] at hdrawn
  simpa using hdrawn

/-- If a level above a place is not finite, nothing depends on what stands in the place. -/
theorem exists_compile_within_of_not_isFinite {levels : List Level}
    (h : ∃ l ∈ levels, ¬ l.attributes.IsFinite) (ancestors : List Ancestor) :
    ∃ result, ∀ s : Shape, (s.within levels).compile settings ancestors = result := by
  induction levels generalizing ancestors with
  | nil => simp at h
  | cons l levels ih =>
    by_cases hl : l.attributes.IsFinite
    · have hlevels : ∃ m ∈ levels, ¬ m.attributes.IsFinite := by simpa [hl] using h
      obtain ⟨result, hresult⟩ := ih hlevels (Ancestor.of l.attributes :: ancestors)
      obtain ⟨front, back, haround⟩ := exists_compile_around settings hl ancestors
      have hne : levels ≠ [] := by
        rintro rfl
        simp at hlevels
      obtain ⟨m, levels, rfl⟩ := List.exists_cons_of_ne_nil hne
      cases result with
      | ok t =>
        refine ⟨.ok (front ++ t ++ back), fun s => ?_⟩
        rw [within_cons, haround, contribution, hresult]
      | error error =>
        -- The comment in place of the next level shows the name of that level.
        refine ⟨.ok (front ++ [skippedComment m.attributes.displayName error] ++ back), fun s => ?_⟩
        rw [within_cons, haround, contribution, hresult]
        rfl
    · cases hcheck : l.attributes.check with
      | ok => exact absurd (Attributes.check_eq_ok_iff_isFinite.1 hcheck) hl
      | error error => exact ⟨.error error, fun s => compile_container_eq_error_iff.2 hcheck⟩

/-- A shape is refused for its own reason, and for nothing below it. A container that is not
refused is drawn as its children leave it, and wherever a shape stands in a tree, the rest of the
tree is drawn, or refused, in one way whatever the shape is. -/
theorem refused_or_drawn (settings : LaserSettings) (ancestors : List Ancestor) :
    (∀ (s : Shape) (error : ShapeError),
      s.compile settings ancestors = .error error ↔ s.Refused error) ∧
    (∀ s : Shape, (∃ t, s.compile settings ancestors = .ok t) ↔ ∀ error, ¬ s.Refused error) ∧
    (∀ (a : Attributes) (kind : ContainerKind) (children : List Shape) (t : Toolpath),
      children ≠ [] → (container a kind children).compile settings ancestors = .ok t →
        ∃ pieces, List.Forall₂ (Leaves settings (Ancestor.of a :: ancestors)) children pieces ∧
          t = .comment (kind.tag ++ " START - \"" ++ a.name ++ "\"") ::
            (pieces.flatten ++ [.comment (kind.tag ++ " END - \"" ++ a.name ++ "\"")])) ∧
    ∀ levels : List Level, levels ≠ [] →
      ((∃ l ∈ levels, ¬ l.attributes.IsFinite) ∧
        ∃ result, ∀ s : Shape, (s.within levels).compile settings ancestors = result) ∨
      ((∀ l ∈ levels, l.attributes.IsFinite) ∧
        ∃ front back, ∀ (s : Shape) (piece : Toolpath),
          s.Leaves settings (Level.ancestors levels ancestors) piece →
            (s.within levels).compile settings ancestors = .ok (front ++ piece ++ back)) := by
  refine ⟨fun s error => compile_eq_error_iff, fun s => exists_compile_eq_ok_iff,
    fun a kind children t hchildren h => exists_pieces_of_compile hchildren h,
    fun levels hlevels => ?_⟩
  by_cases h : ∀ l ∈ levels, l.attributes.IsFinite
  · exact .inr ⟨h, exists_compile_within hlevels h ancestors⟩
  · have hinfinite : ∃ l ∈ levels, ¬ l.attributes.IsFinite := by simpa using h
    exact .inl ⟨hinfinite, exists_compile_within_of_not_isFinite hinfinite ancestors⟩

/-- The sheet is drawn with a comment in place of its star, and so is any tree with the star in the
middle of a group. -/
theorem refused_or_drawn_of_star :
    let star : Shape := .leaf ⟨"star", 0, 0, 8, 8, none⟩ (.star 5 (some 2))
    let a : Attributes := ⟨"sheet", 5, 5, 100, 80, none⟩
    let levels : List Level := [⟨a, .frame, sheet, []⟩,
      ⟨⟨"group", 20, 0, 40, 40, some ⟨25, 5, 40, 40⟩⟩, .group, [star], sheet⟩]
    star.Refused (.starRatio 2) ∧ sheet ≠ [] ∧
    (∃ t pieces, (container a .frame sheet).compile {} [⟨"page", none⟩] = .ok t ∧
      List.Forall₂ (Leaves {} [Ancestor.of a, ⟨"page", none⟩]) sheet pieces ∧
        t = .comment (ContainerKind.frame.tag ++ " START - \"" ++ a.name ++ "\"") ::
          (pieces.flatten ++
            [.comment (ContainerKind.frame.tag ++ " END - \"" ++ a.name ++ "\"")])) ∧
    levels ≠ [] ∧ (∀ l ∈ levels, l.attributes.IsFinite) ∧ ∃ front back,
      (star.within levels).compile {} [⟨"page", none⟩] =
        .ok (front ++ [skippedComment "star" (.starRatio 2)] ++ back) := by
  intro star a levels
  obtain ⟨hrefused, hdrawn, hpieces, hplace⟩ := refused_or_drawn {} [⟨"page", none⟩]
  have hstar : star.Refused (.starRatio 2) := by
    rw [← hrefused]
    decide +kernel
  have hfinite : ∀ l ∈ levels, l.attributes.IsFinite := by decide +kernel
  refine ⟨hstar, List.cons_ne_nil _ _, ?_, List.cons_ne_nil _ _, hfinite, ?_⟩
  · obtain ⟨t, ht, -⟩ := exists_ok_of_any (Q := fun _ : Toolpath => True)
      (x := (container a .frame sheet).compile {} [⟨"page", none⟩]) (by decide +kernel)
    obtain ⟨pieces, hleaves, heq⟩ := hpieces a .frame sheet t (List.cons_ne_nil _ _) ht
    exact ⟨t, pieces, ht, hleaves, heq⟩
  · obtain ⟨⟨l, hl, hnot⟩, -⟩ | ⟨-, front, back, h⟩ := hplace levels (List.cons_ne_nil _ _)
    · exact absurd (hfinite l hl) hnot
    · exact ⟨front, back, h star _ (.skipped hstar)⟩

end Shape

end LaserPath
