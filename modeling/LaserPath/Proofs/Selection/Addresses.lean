import LaserPath.Proofs.Selection
import LaserPath.Shape.Anchor
import Mathlib.Data.List.Forall2

/-!
# Where the parts of a selection stand

A node of a selection has an address: the position of the selected node, and the positions of the
children that lead down to it. The parts of a selection are the nodes that have no children, in the
order of their addresses. The containers that lead down to a part, and those above the selected
node, are the ancestors of the part, its label joins the names from the selected node down, and its
place on the page follows from both.

## Main definitions

* `Shape.Descends` — a walk down a tree, with its positions and the containers on the way.
* `Part.StandsAt` — the part at an address.
* `Shape.visits` — the walks to the nodes without children, in order.
* `Part.addresses` — the addresses of the parts of a selection, in order.

## Main statements

* `Shape.mem_visits_iff`, `Shape.pairwise_visits` — the walks are all there, in the order of their
  positions.
* `Shape.parts_eq_map_visits` — the parts of a tree stand at the ends of the walks.
* `Part.StandsAt.unique` — an address determines its part.
* `exists_addresses_parts` — the parts of a selection stand at the addresses, in order.
-/

namespace LaserPath

/-- A walk down a tree to the last node: the positions of the children that are entered, and the
containers that are left for them, from the top down. -/
inductive Shape.Descends : Shape → List Nat → List Attributes → Shape → Prop where
  | here (s : Shape) : s.Descends [] [] s
  | child {a : Attributes} {kind : ContainerKind} {children : List Shape} {index : Nat}
    {child last : Shape} {path : List Nat} {line : List Attributes}
    (hchild : children[index]? = some child) (h : child.Descends path line last) :
    (container a kind children).Descends (index :: path) (a :: line) last

/-- The containers of a walk as ancestors of its last node, nearest first, each with its own
position. -/
def Ancestor.ofLine (line : List Attributes) : List Ancestor :=
  line.reverse.map fun a => ⟨a.name, some ⟨a.x, a.y⟩⟩

/-- The names of a walk, from the top down. -/
def Part.namesOf (line : List Attributes) (last : Shape) : List String :=
  line.map Attributes.displayName ++ [last.displayName]

/-- The part at an address: a node without children at the end of a walk down from a selected node,
below the containers on the way and those above the selection. -/
inductive Part.StandsAt (selection : List SelectedNode) : List Nat → Part → Prop where
  | intro {index : Nat} {n : SelectedNode} {path : List Nat} {line : List Attributes}
    {last : Shape} (hn : selection[index]? = some n) (h : n.shape.Descends path line last)
    (hlast : last.children = []) :
    StandsAt selection (index :: path) ⟨last, Ancestor.ofLine line ++ n.ancestors,
      Part.labelSeparator.intercalate (Part.namesOf line last)⟩

/-! ## Walks -/

/-- A walk to a node. -/
structure Visit where
  path : List Nat
  line : List Attributes
  last : Shape

/-- The walk from the container above. -/
def Visit.enter (a : Attributes) (index : Nat) (v : Visit) : Visit :=
  ⟨index :: v.path, a :: v.line, v.last⟩

namespace Shape

mutual

/-- The walks to the nodes without children, in order. -/
def visits (s : Shape) : List Visit :=
  match s with
  | .container a _ (child :: children) => visitsBelow a 0 (child :: children)
  | s => [⟨[], [], s⟩]

/-- The walks into the children of a container, whose positions begin with `index`. -/
def visitsBelow (a : Attributes) (index : Nat) (children : List Shape) : List Visit :=
  match children with
  | [] => []
  | child :: rest => (visits child).map (Visit.enter a index) ++ visitsBelow a (index + 1) rest

end

theorem visits_of_childless {s : Shape} (h : s.children = []) : s.visits = [⟨[], [], s⟩] := by
  cases s with
  | leaf a figure => rfl
  | container a kind children =>
    obtain rfl : children = [] := h
    rfl

theorem visitsBelow_eq_flatMap (a : Attributes) (index : Nat) (children : List Shape) :
    visitsBelow a index children =
      (children.zipIdx index).flatMap fun (child, i) => child.visits.map (Visit.enter a i) := by
  induction children generalizing index with
  | nil => simp [visitsBelow]
  | cons child rest ih => rw [visitsBelow, ih, List.zipIdx_cons, List.flatMap_cons]

theorem visits_container {a : Attributes} {kind : ContainerKind} {children : List Shape}
    (h : children ≠ []) : (container a kind children).visits =
      children.zipIdx.flatMap fun (child, i) => child.visits.map (Visit.enter a i) := by
  cases children with
  | nil => exact absurd rfl h
  | cons child rest => rw [visits, visitsBelow_eq_flatMap]

/-- The walks that are listed are those to nodes without children. -/
theorem mem_visits_iff {s : Shape} {v : Visit} :
    v ∈ s.visits ↔ s.Descends v.path v.line v.last ∧ v.last.children = [] := by
  induction s using Shape.induction generalizing v with
  | leaf a figure =>
    rw [visits_of_childless rfl, List.mem_singleton]
    constructor
    · rintro rfl
      exact ⟨.here _, rfl⟩
    · obtain ⟨path, line, last⟩ := v
      rintro ⟨⟨⟩, -⟩
      rfl
  | container a kind children ih =>
    by_cases hc : children = []
    · subst hc
      rw [visits_of_childless (s := .container a kind []) rfl, List.mem_singleton]
      constructor
      · rintro rfl
        exact ⟨.here _, rfl⟩
      · obtain ⟨path, line, last⟩ := v
        rintro ⟨h, -⟩
        cases h with
        | here => rfl
        | child hchild => simp at hchild
    · rw [visits_container hc, List.mem_flatMap]
      constructor
      · rintro ⟨⟨child, i⟩, hmem, hv⟩
        have hchild : children[i]? = some child := List.mem_zipIdx_iff_getElem?.1 hmem
        obtain ⟨below, hbelow, rfl⟩ := List.mem_map.1 hv
        obtain ⟨hd, hlast⟩ := (ih child (List.mem_of_getElem? hchild)).1 hbelow
        exact ⟨.child hchild hd, hlast⟩
      · obtain ⟨path, line, last⟩ := v
        rintro ⟨h, hlast⟩
        cases h with
        | here => exact absurd hlast hc
        | @child _ _ _ i child _ path line hchild hd =>
          refine ⟨⟨child, i⟩, List.mem_zipIdx_iff_getElem?.2 hchild, ?_⟩
          exact List.mem_map_of_mem (f := Visit.enter a i) (a := ⟨path, line, last⟩)
            ((ih child (List.mem_of_getElem? hchild)).2 ⟨hd, hlast⟩)

end Shape

theorem flatMap_eq_flatMap_zipIdx {α β : Type} (f : α → List β) (items : List α) :
    items.flatMap f = items.zipIdx.flatMap fun (item, _) => f item := by
  conv_lhs => rw [← List.zipIdx_map_fst 0 items, List.flatMap_map]

/-- Addresses below numbered items are in order if those below each item are. -/
theorem pairwise_flatMap_zipIdx {α : Type} {paths : α → List (List Nat)} {items : List α}
    (h : ∀ item ∈ items, (paths item).Pairwise (· < ·)) :
    (items.zipIdx.flatMap fun (item, i) => (paths item).map (i :: ·)).Pairwise (· < ·) := by
  have hnumbers : items.zipIdx.Pairwise fun a b => a.2 < b.2 := by
    rw [← List.pairwise_map (f := Prod.snd), List.zipIdx_map_snd]
    exact List.pairwise_lt_range'
  rw [List.pairwise_flatMap]
  constructor
  · rintro ⟨item, i⟩ hmem
    rw [List.pairwise_map]
    exact (h item (List.fst_mem_of_mem_zipIdx hmem)).imp fun hlt =>
      List.cons_lt_cons_iff.2 (.inr ⟨rfl, hlt⟩)
  · refine hnumbers.imp ?_
    rintro ⟨a, i⟩ ⟨b, j⟩ hij address ha address' hb
    obtain ⟨path, -, rfl⟩ := List.mem_map.1 ha
    obtain ⟨path', -, rfl⟩ := List.mem_map.1 hb
    exact List.cons_lt_cons_iff.2 (.inl hij)

namespace Shape

/-- The walks are in the order of their positions. -/
theorem pairwise_visits (s : Shape) : (s.visits.map Visit.path).Pairwise (· < ·) := by
  induction s using Shape.induction with
  | leaf a figure => simp [visits_of_childless (s := .leaf a figure) rfl]
  | container a kind children ih =>
    by_cases hc : children = []
    · simp [visits_of_childless (s := .container a kind children) hc]
    · have hpaths : ((container a kind children).visits.map Visit.path) =
          children.zipIdx.flatMap fun (child, i) =>
            (child.visits.map Visit.path).map (i :: ·) := by
        rw [visits_container hc, List.map_flatMap]
        refine List.flatMap_congr fun child _ => ?_
        simp only [List.map_map]
        rfl
      rw [hpaths]
      exact pairwise_flatMap_zipIdx ih

/-- A tree has a node without children. -/
theorem visits_ne_nil (s : Shape) : s.visits ≠ [] := by
  induction s using Shape.induction with
  | leaf a figure => simp [visits_of_childless (s := .leaf a figure) rfl]
  | container a kind children ih =>
    cases children with
    | nil => simp [visits_of_childless (s := .container a kind []) rfl]
    | cons child rest =>
      rw [visits, visitsBelow]
      simp [ih child List.mem_cons_self]

end Shape

/-! ## Parts at the ends of walks -/

/-- The part at the end of a walk, below some ancestors and with names in front of its label. -/
def Visit.part (ancestors : List Ancestor) (front : String) (v : Visit) : Part :=
  ⟨v.last, Ancestor.ofLine v.line ++ ancestors,
    front ++ Part.labelSeparator.intercalate (Part.namesOf v.line v.last)⟩

theorem Visit.part_enter (ancestors : List Ancestor) (front : String) (a : Attributes) (i : Nat)
    (v : Visit) : (v.enter a i).part ancestors front =
      v.part (.of a :: ancestors) (front ++ a.displayName ++ Part.labelSeparator) := by
  have hancestors : Ancestor.ofLine (a :: v.line) = Ancestor.ofLine v.line ++ [.of a] := by
    simp [Ancestor.ofLine, Ancestor.of, Attributes.position]
  have hnames : Part.namesOf v.line v.last ≠ [] := by simp [Part.namesOf]
  have hlabel : Part.labelSeparator.intercalate (Part.namesOf (a :: v.line) v.last) =
      a.displayName ++ Part.labelSeparator ++
        Part.labelSeparator.intercalate (Part.namesOf v.line v.last) :=
    String.intercalate_cons_of_ne_nil hnames
  simp [Visit.part, Visit.enter, hancestors, hlabel, String.append_assoc]

namespace Shape

/-- The parts of a tree stand at the ends of its walks. -/
theorem parts_eq_map_visits (s : Shape) (ancestors : List Ancestor) (front : String) :
    s.parts ancestors (front ++ s.displayName) = s.visits.map (Visit.part ancestors front) := by
  induction s using Shape.induction generalizing ancestors front with
  | leaf a figure =>
    rw [parts_of_childless rfl, visits_of_childless rfl]
    simp [Visit.part, Ancestor.ofLine, Part.namesOf]
  | container a kind children ih =>
    by_cases hc : children = []
    · rw [parts_of_childless (s := .container a kind children) hc,
        visits_of_childless (s := .container a kind children) hc]
      simp [Visit.part, Ancestor.ofLine, Part.namesOf]
    · rw [parts_container hc, visits_container hc, List.map_flatMap, flatMap_eq_flatMap_zipIdx]
      refine List.flatMap_congr fun ⟨child, i⟩ hmem => ?_
      have hchild := ih child (List.fst_mem_of_mem_zipIdx hmem) (.of a :: ancestors)
        (front ++ a.displayName ++ Part.labelSeparator)
      rw [List.map_map]
      exact hchild.trans (List.map_congr_left fun v _ => (v.part_enter ancestors front a i).symm)

end Shape

theorem SelectedNode.parts_eq_map_visits (n : SelectedNode) :
    n.parts = n.shape.visits.map (Visit.part n.ancestors "") := by
  have h := n.shape.parts_eq_map_visits n.ancestors ""
  rwa [String.empty_append] at h

/-- The positions determine the walk. -/
theorem Shape.Descends.unique {s last last' : Shape} {path : List Nat}
    {line line' : List Attributes} (h : s.Descends path line last)
    (h' : s.Descends path line' last') : line = line' ∧ last = last' := by
  induction h generalizing line' last' with
  | here s =>
    cases h'
    exact ⟨rfl, rfl⟩
  | child hchild h ih =>
    cases h' with
    | child hchild' h' =>
      obtain rfl := Option.some.inj (hchild.symm.trans hchild')
      obtain ⟨rfl, rfl⟩ := ih h'
      exact ⟨rfl, rfl⟩

/-- The address determines the part. -/
theorem Part.StandsAt.unique {selection : List SelectedNode} {address : List Nat} {p q : Part}
    (hp : StandsAt selection address p) (hq : StandsAt selection address q) : p = q := by
  cases hp with
  | intro hn h _ =>
    cases hq with
    | intro hn' h' _ =>
      obtain rfl := Option.some.inj (hn.symm.trans hn')
      obtain ⟨rfl, rfl⟩ := h.unique h'
      rfl

/-! ## Parts of a selection -/

/-- The addresses of the parts of a selection. -/
def Part.addresses (selection : List SelectedNode) : List (List Nat) :=
  selection.zipIdx.flatMap fun (n, i) => (n.shape.visits.map Visit.path).map (i :: ·)

theorem pairwise_addresses (selection : List SelectedNode) :
    (Part.addresses selection).Pairwise (· < ·) := by
  have hvisits : ∀ n ∈ selection, (n.shape.visits.map Visit.path).Pairwise (· < ·) :=
    fun n _ => n.shape.pairwise_visits
  exact pairwise_flatMap_zipIdx hvisits

theorem mem_addresses_iff {selection : List SelectedNode} {address : List Nat} :
    address ∈ Part.addresses selection ↔ ∃ p, Part.StandsAt selection address p := by
  constructor
  · intro h
    obtain ⟨⟨n, i⟩, hmem, h⟩ := List.mem_flatMap.1 h
    obtain ⟨path, hpath, rfl⟩ := List.mem_map.1 h
    obtain ⟨v, hv, rfl⟩ := List.mem_map.1 hpath
    obtain ⟨hd, hlast⟩ := Shape.mem_visits_iff.1 hv
    exact ⟨_, .intro (List.mem_zipIdx_iff_getElem?.1 hmem) hd hlast⟩
  · rintro ⟨p, @⟨i, n, path, line, last, hn, hd, hlast⟩⟩
    have hv : ⟨path, line, last⟩ ∈ n.shape.visits := Shape.mem_visits_iff.2 ⟨hd, hlast⟩
    exact List.mem_flatMap.2 ⟨(n, i), List.mem_zipIdx_iff_getElem?.2 hn,
      List.mem_map_of_mem (List.mem_map_of_mem (f := Visit.path) hv)⟩

/-- Every selected node has an address below it. -/
theorem exists_mem_addresses {selection : List SelectedNode} {index : Nat}
    (h : index < selection.length) : ∃ path, index :: path ∈ Part.addresses selection := by
  obtain ⟨v, hv⟩ := List.exists_mem_of_ne_nil _ selection[index].shape.visits_ne_nil
  have hmem : (selection[index], index) ∈ selection.zipIdx :=
    List.mem_zipIdx_iff_getElem?.2 (List.getElem?_eq_getElem h)
  exact ⟨v.path, List.mem_flatMap.2 ⟨_, hmem, List.mem_map_of_mem (List.mem_map_of_mem hv)⟩⟩

/-- The part at the end of a walk from a selected node stands at its address. -/
theorem Part.standsAt_of_mem_visits {selection : List SelectedNode} {n : SelectedNode} {i : Nat}
    {v : Visit} (hn : selection[i]? = some n) (hv : v ∈ n.shape.visits) :
    StandsAt selection (i :: v.path) (v.part n.ancestors "") := by
  obtain ⟨hd, hlast⟩ := Shape.mem_visits_iff.1 hv
  rw [Visit.part, String.empty_append]
  exact .intro hn hd hlast

/-- The parts of a selection stand at its addresses, in order. -/
theorem forall₂_standsAt (selection : List SelectedNode) :
    List.Forall₂ (Part.StandsAt selection) (Part.addresses selection) (parts selection) := by
  -- Both lists run over the numbered nodes, and for each node over its walks.
  rw [parts, flatMap_eq_flatMap_zipIdx, Part.addresses]
  refine List.rel_flatMap (R := fun a b => a = b ∧ selection[a.2]? = some a.1) ?_ ?_
  · exact List.forall₂_same.2 fun a ha => ⟨rfl, List.mem_zipIdx_iff_getElem?.1 ha⟩
  · rintro ⟨n, i⟩ _ ⟨rfl, hn⟩
    simp only [n.parts_eq_map_visits, List.map_map, List.forall₂_map_left_iff,
      List.forall₂_map_right_iff]
    exact List.forall₂_same.2 fun v hv => Part.standsAt_of_mem_visits hn hv

/-- No other list of parts stands at the addresses. -/
theorem forall₂_standsAt_iff {selection : List SelectedNode} {units : List Part} :
    List.Forall₂ (Part.StandsAt selection) (Part.addresses selection) units ↔
      units = parts selection := by
  constructor
  · intro h
    exact List.right_unique_forall₂' (fun _ _ _ hp hq => hp.unique hq) h
      (forall₂_standsAt selection)
  · rintro rfl
    exact forall₂_standsAt selection

theorem Shape.anchor_of_none {s : Shape} (h : s.attributes.absoluteBounds? = none)
    (line : List Attributes) (ancestors : List Ancestor) :
    s.anchor (Ancestor.ofLine line ++ ancestors) =
      (line.reverse.map Attributes.position ++ ancestors.filterMap Ancestor.offset?).foldl
        Point.shift s.attributes.position := by
  have hline : (Ancestor.ofLine line).filterMap Ancestor.offset? =
      line.reverse.map Attributes.position := by
    rw [Ancestor.ofLine, List.filterMap_map, ← List.filterMap_eq_map]
    rfl
  simp only [Shape.anchor, Attributes.anchor, h, Point.throughAncestors, List.filterMap_append,
    hline]

/-- The parts of a selection are the nodes without children, each once, in the order of their
addresses, with the containers above them and the names that lead to them. So the parts of two
selections follow each other and every selected node has a part, and a node without a box on the
page is anchored by its own position, the containers above it and nothing else. -/
theorem exists_addresses_parts (selection : List SelectedNode) :
    (∃ addresses : List (List Nat), addresses.Pairwise (· < ·) ∧
      (∀ address, address ∈ addresses ↔ ∃ p, Part.StandsAt selection address p) ∧
      (∀ units, List.Forall₂ (Part.StandsAt selection) addresses units ↔
        units = parts selection) ∧
      ∀ index < selection.length, ∃ path, index :: path ∈ addresses) ∧
    (∀ more, parts (selection ++ more) = parts selection ++ parts more) ∧
    ∀ (index : Nat) (n : SelectedNode) (path : List Nat) (line : List Attributes) (last : Shape),
      selection[index]? = some n → n.shape.Descends path line last →
      last.attributes.absoluteBounds? = none →
      last.anchor (Ancestor.ofLine line ++ n.ancestors) =
        (line.reverse.map Attributes.position ++
          n.ancestors.filterMap Ancestor.offset?).foldl Point.shift last.attributes.position :=
  ⟨⟨Part.addresses selection, pairwise_addresses selection, fun _ => mem_addresses_iff,
      fun _ => forall₂_standsAt_iff, fun _ => exists_mem_addresses⟩,
    parts_append selection, fun _ n _ line _ _ _ hbounds =>
      Shape.anchor_of_none hbounds line n.ancestors⟩

example : (parts [⟨.container ⟨"Sheet", 5, 5, 100, 80, none⟩ .frame
      [.leaf ⟨"A", 0, 0, 1, 1, none⟩ .rectangle,
        .container ⟨"G", 10, 0, 9, 9, none⟩ .group [.leaf ⟨"", 0, 0, 2, 2, none⟩ .ellipse],
        .container ⟨"S", 0, 40, 9, 9, none⟩ .section []], []⟩]).map Part.label =
    ["Sheet > A", "Sheet > G > Unnamed", "Sheet > S"] := by
  decide +kernel

/-- A figure in a group of a sheet is anchored by itself, the group, the sheet and the bed, in this
order; the page has no position. -/
theorem anchor_in_group_of_sheet :
    let sheet : Attributes := ⟨"Sheet", 5, 5, 100, 80, none⟩
    let group : Attributes := ⟨"Group", 20, 0, 40, 40, some ⟨25, 5, 40, 40⟩⟩
    let box : Shape := .leaf ⟨"", 2, 3, 4, 4, none⟩ .rectangle
    let n : SelectedNode :=
      ⟨.container sheet .frame [.container sheet .section [], .container group .group [box]],
        [⟨"Page", none⟩, ⟨"Bed", some ⟨100, 50⟩⟩]⟩
    n.shape.Descends [1, 0] [sheet, group] box ∧ box.attributes.absoluteBounds? = none ∧
      box.anchor [.of group, .of sheet, ⟨"Page", none⟩, ⟨"Bed", some ⟨100, 50⟩⟩] =
        (((⟨2, 3⟩ : Point).shift ⟨20, 0⟩).shift ⟨5, 5⟩).shift ⟨100, 50⟩ := by
  intro sheet group box n
  have hwalk : n.shape.Descends [1, 0] [sheet, group] box := .child rfl (.child rfl (.here box))
  exact ⟨hwalk, rfl, (exists_addresses_parts [n]).2.2 0 n _ _ box rfl hwalk rfl⟩

end LaserPath
