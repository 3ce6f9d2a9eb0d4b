import LaserPath.Proofs.Scene.Network
import LaserPath.Proofs.Shape.Compile
import LaserPath.Scene.Node

/-!
# Nodes as they are written

A node is written as a record: its tag, its attributes, and what its figure has beyond them. A
container writes its children, and a selected node the containers above it. Reading such a record
gives the node back.

## Main definitions

* `Shape.Written`, `Ancestor.Written`, `SelectedNode.Written` — the values that write a node, a
  container above it, and a selected node.
* `Shape.Storable`, `SelectedNode.Storable` — the numbers are finite, the counts and indices below
  their limits, and an unknown tag is none of the known ones.

## Main statements

* `Shape.ofJson?_eq_of_written` — reading what writes a node gives the node.
* `SelectedNode.ofJson?_eq_of_written` — the same for a selected node.
-/

namespace LaserPath

open Json (Field Writes IsRecord IsNumber IsOptional IsList IsText IsCount)

namespace Attributes

/-- All numbers are finite. -/
structure Storable (a : Attributes) : Prop where
  x : a.x.isFinite = true
  y : a.y.isFinite = true
  width : a.width.isFinite = true
  height : a.height.isFinite = true
  bounds : ∀ b ∈ a.absoluteBounds?, b.IsFinite

/-- The fields of a node with the given tag that do not depend on the tag. -/
def fields (a : Attributes) (tag : String) : List Field :=
  [⟨"type", IsText tag⟩, ⟨"name", IsText a.name⟩, ⟨"x", IsNumber a.x⟩, ⟨"y", IsNumber a.y⟩,
    ⟨"width", IsNumber a.width⟩, ⟨"height", IsNumber a.height⟩,
    ⟨"absoluteBoundingBox", IsOptional Bounds.Written a.absoluteBounds?⟩]

/-- The members of a node with the given tag that do not depend on the tag. -/
def members (a : Attributes) (tag : String) : Json.Fields :=
  [("type", .string tag), ("name", .string a.name), ("x", .ofFloat a.x), ("y", .ofFloat a.y),
    ("width", .ofFloat a.width), ("height", .ofFloat a.height)] ++
  (a.absoluteBounds?.map fun b => ("absoluteBoundingBox", b.toJson)).toList

theorem writes_members {a : Attributes} (h : a.Storable) (tag : String) :
    Writes (a.fields tag) (a.members tag) :=
  .written rfl (.written rfl (.written (Json.isNumber_ofFloat h.x)
    (.written (Json.isNumber_ofFloat h.y) (.written (Json.isNumber_ofFloat h.width)
      (.written (Json.isNumber_ofFloat h.height)
        (Json.writes_optional _ fun b hb => Bounds.written_toJson (h.bounds b hb)))))))

end Attributes

/-- An entry of path data is written as a text, or as an object that has the text. -/
inductive PathEntryWritten : String → Json → Prop where
  | text (data : String) : PathEntryWritten data (.string data)
  | object {data : String} {json : Json}
    (h : IsRecord ⟨["data"], true⟩ [⟨"data", IsText data⟩] json) : PathEntryWritten data json

theorem PathEntryWritten.pathEntry? {data : String} {json : Json}
    (h : PathEntryWritten data json) : pathEntry? json = some (some data) := by
  cases h with
  | text => rfl
  | object h =>
    obtain ⟨known, hk, hold⟩ := h.exists_fields? (by simp)
    obtain ⟨members, -, rfl, -⟩ := h
    have hdata : known.lookup "data" = members.lookup "data" :=
      Json.lookup_of_fields?_eq hk (by simp)
    obtain ⟨json, hj, hd⟩ | ⟨-, hn⟩ := hold.found ⟨"data", IsText data⟩ (by simp)
    · cases hd
      rw [LaserPath.pathEntry?, ← hdata, hj]
      rfl
    · cases hn

/-- The tags of the nodes that are known. -/
def knownTags : List String :=
  ["RECTANGLE", "ELLIPSE", "POLYGON", "STAR", "LINE", "VECTOR", "BOOLEAN_OPERATION", "INSTANCE",
    "SLICE", "TEXT", "FRAME", "GROUP", "SECTION"]

namespace Figure

/-- Counts are below their limit, numbers are finite, and an unknown tag is none of the known. -/
def Storable : Figure → Prop
  | .polygon corners => corners < countLimit
  | .star points innerRadius? => points < countLimit ∧ ∀ r ∈ innerRadius?, r.isFinite = true
  | .vector network? _ => ∀ n ∈ network?, n.Storable
  | .unsupported tag => tag ∉ knownTags
  | _ => True

/-- The fields that a node has for its figure. -/
def fields : Figure → List Field
  | .polygon corners => [⟨"pointCount", IsCount corners⟩]
  | .star points innerRadius? =>
    [⟨"pointCount", IsCount points⟩, ⟨"innerRadius", IsOptional IsNumber innerRadius?⟩]
  | .vector network? paths =>
    [⟨"vectorNetwork", IsOptional Network.Written network?⟩,
      ⟨"vectorPaths", IsList PathEntryWritten paths⟩]
  | .booleanOperation operation => [⟨"booleanOperation", IsText operation.tag⟩]
  | _ => []

/-- The members that a node has for its figure. -/
def members : Figure → Json.Fields
  | .polygon corners => [("pointCount", .integer corners)]
  | .star points innerRadius? =>
    [("pointCount", .integer points)] ++
      (innerRadius?.map fun r => ("innerRadius", Json.ofFloat r)).toList
  | .vector network? paths =>
    (network?.map fun n => ("vectorNetwork", n.toJson)).toList ++
      [("vectorPaths", .array (paths.map .string))]
  | .booleanOperation operation => [("booleanOperation", .string operation.tag)]
  | _ => []

theorem writes_members {figure : Figure} (h : figure.Storable) :
    Writes figure.fields figure.members := by
  cases figure with
  | polygon corners => exact .written rfl .nil
  | star points innerRadius? =>
    exact .written rfl (Json.writes_optional _ fun r hr => Json.isNumber_ofFloat (h.2 r hr))
  | vector network? paths =>
    refine (Json.writes_optional _ fun n hn => Network.written_toJson (h n hn)).append ?_
    exact .written (Json.isList_map fun data _ => .text data) .nil
  | booleanOperation operation => exact .written rfl .nil
  | _ => exact .nil

end Figure

namespace Shape

/-- All numbers, counts and tags of a tree can be written. -/
inductive Storable : Shape → Prop where
  | leaf {a : Attributes} {figure : Figure} (ha : a.Storable) (hf : figure.Storable) :
    Storable (.leaf a figure)
  | container {a : Attributes} {kind : ContainerKind} {children : List Shape} (ha : a.Storable)
    (hc : ∀ child ∈ children, Storable child) : Storable (.container a kind children)

/-- The value writes the tree. -/
inductive Written : Shape → Json → Prop where
  | leaf {a : Attributes} {figure : Figure} {json : Json}
    (h : IsRecord layout (a.fields figure.tag ++ figure.fields) json) :
    Written (.leaf a figure) json
  | container {a : Attributes} {kind : ContainerKind} {children : List Shape}
    {items : List Json} {json : Json} (hc : List.Forall₂ Written children items)
    (h : IsRecord layout (a.fields kind.tag ++ [⟨"children", (· = .array items)⟩]) json) :
    Written (.container a kind children) json

mutual

/-- A tree as an object. -/
def toJson : Shape → Json
  | .leaf a figure => .object (a.members figure.tag ++ figure.members)
  | .container a kind children =>
    .object (a.members kind.tag ++ [("children", .array (toJsons children))])

/-- Trees as objects. -/
def toJsons : List Shape → List Json
  | [] => []
  | shape :: rest => shape.toJson :: toJsons rest

end

/-- What is read of a node beyond its attributes. -/
def readExtras? (known : Json.Fields) (children : List Shape) : Option Extras := do
  return {
    pointCount? := ← known.optional? "pointCount" (Json.orNull? (Json.natBelow? countLimit)) none
    innerRadius? := ← known.optional? "innerRadius" (Json.orNull? Json.float?) none
    network? := ← known.optional? "vectorNetwork" (Json.orNull? Network.ofJson?) none
    paths := (← known.optional? "vectorPaths" (Json.list? pathEntry?) []).filterMap id
    operation? :=
      ← known.optional? "booleanOperation" (Json.orNull? BooleanOperation.ofJson?) none
    children }

section

variable {a : Attributes} {tag : String} {own : List Field} {known : Json.Fields}

/-- The attributes and the tag are read back, whatever else a node has. -/
theorem ofFields?_eq (hold : known.Hold (a.fields tag ++ own)) (children : List Shape) :
    ofFields? known children = (readExtras? known children).map (ofTag tag a) := by
  have htag := hold.optional? "type" Json.string? "" (IsText tag) (by simp [Attributes.fields])
    (fun _ h => h.string?) nofun
  have hname := hold.optional? "name" Json.string? "" (IsText a.name)
    (by simp [Attributes.fields]) (fun _ h => h.string?) nofun
  have hx := hold.optional?_float "x" a.x 0 (by simp [Attributes.fields])
  have hy := hold.optional?_float "y" a.y 0 (by simp [Attributes.fields])
  have hw := hold.optional?_float "width" a.width 0 (by simp [Attributes.fields])
  have hh := hold.optional?_float "height" a.height 0 (by simp [Attributes.fields])
  have hb := hold.optional? "absoluteBoundingBox" (Json.orNull? Bounds.ofJson?) none
    (IsOptional Bounds.Written a.absoluteBounds?) (by simp [Attributes.fields])
    (fun _ h => h.orNull? (fun _ _ _ => Bounds.ofJson?_eq_of_written) rfl)
    (by rintro _ ⟨⟩; rfl)
  simp only [ofFields?, readExtras?, htag, hname, hx, hy, hw, hh, hb, Option.bind_eq_bind,
    Option.bind_some, Option.pure_def, Option.map_bind, Function.comp_def, Option.map_some]

/-- A tag that is none of the known ones is kept. -/
theorem ofTag_of_not_mem (h : tag ∉ knownTags) (a : Attributes) (extras : Extras) :
    ofTag tag a extras = .leaf a (.unsupported tag) := by
  unfold ofTag
  split <;> simp_all [knownTags]

/-- A leaf is read back from what is found of its fields. -/
theorem ofFields?_leaf {figure : Figure} (hf : figure.Storable)
    (hold : known.Hold (a.fields figure.tag ++ figure.fields)) :
    ofFields? known [] = some (.leaf a figure) := by
  rw [ofFields?_eq hold]
  cases figure with
  | polygon corners =>
    have hp := hold.optional? "pointCount" (Json.orNull? (Json.natBelow? countLimit)) none
      (IsCount corners) (by simp [Figure.fields]) (fun _ h => h.orNull?_natBelow? hf)
      (by rintro _ ⟨⟩; rfl)
    simp [readExtras?, hp, hold.optional?_of_not_mem, Attributes.fields, Figure.fields]
    rfl
  | star points innerRadius? =>
    have hp := hold.optional? "pointCount" (Json.orNull? (Json.natBelow? countLimit)) none
      (IsCount points) (by simp [Figure.fields]) (fun _ h => h.orNull?_natBelow? hf.1)
      (by rintro _ ⟨⟩; rfl)
    have hr := hold.optional? "innerRadius" (Json.orNull? Json.float?) none
      (IsOptional IsNumber innerRadius?) (by simp [Figure.fields])
      (fun _ h => h.orNull? (fun _ _ _ hx => hx.float?) rfl) (by rintro _ ⟨⟩; rfl)
    simp [readExtras?, hp, hr, hold.optional?_of_not_mem, Attributes.fields, Figure.fields]
    rfl
  | vector network? paths =>
    have hn := hold.optional? "vectorNetwork" (Json.orNull? Network.ofJson?) none
      (IsOptional Network.Written network?) (by simp [Figure.fields])
      (fun _ h => h.orNull? (fun n hm _ => Network.ofJson?_eq_of_written (hf n hm)) rfl)
      (by rintro _ ⟨⟩; rfl)
    have hp := hold.optional? "vectorPaths" (Json.list? pathEntry?) []
      (IsList PathEntryWritten paths) (by simp [Figure.fields])
      (fun _ h => h.list?_map some fun _ _ _ hd => hd.pathEntry?) (by rintro _ ⟨⟩)
    simp [readExtras?, hn, hp, hold.optional?_of_not_mem, Attributes.fields, Figure.fields]
    rfl
  | booleanOperation operation =>
    have ho := hold.optional? "booleanOperation" (Json.orNull? BooleanOperation.ofJson?) none
      (IsText operation.tag) (by simp [Figure.fields]) (a := some operation)
      (by rintro _ ⟨⟩; simp [Json.orNull?, BooleanOperation.ofJson?]) (by rintro _ ⟨⟩; rfl)
    simp [readExtras?, ho, hold.optional?_of_not_mem, Attributes.fields, Figure.fields]
    rfl
  | unsupported tag =>
    simp [readExtras?, hold.optional?_of_not_mem, Attributes.fields, Figure.fields, Figure.tag,
      ofTag_of_not_mem hf]
  | _ =>
    simp [readExtras?, hold.optional?_of_not_mem, Attributes.fields, Figure.fields]
    rfl

/-- A container is read back from what is found of its fields, and from its children. -/
theorem ofFields?_container {kind : ContainerKind} {P : Json → Prop}
    (hold : known.Hold (a.fields kind.tag ++ [⟨"children", P⟩])) (children : List Shape) :
    ofFields? known children = some (.container a kind children) := by
  rw [ofFields?_eq hold]
  simp [readExtras?, hold.optional?_of_not_mem, Attributes.fields]
  cases kind <;> rfl

end

theorem childrenIn?_eq (members : List (String × Json)) :
    childrenIn? members = Json.Fields.optional? members "children" listOfJson? [] := by
  induction members with
  | nil => rfl
  | cons m rest ih =>
    obtain ⟨key, value⟩ := m
    rw [childrenIn?, ih, Json.Fields.optional?, Json.Fields.optional?]
    split
    · next h =>
      subst h
      rw [List.lookup_cons_self]
    · next h => rw [Json.lookup_cons_of_ne (Ne.symm h)]

/-- The children are read from the object itself. -/
theorem ofJson?_eq_of_fields? {json : Json} {known : Json.Fields}
    {fields : List Field} (h : IsRecord layout fields json)
    (hk : json.fields? layout = some known) :
    ofJson? json = (known.optional? "children" listOfJson? []).bind (ofFields? known) := by
  obtain ⟨members, -, rfl, -⟩ := h
  have hlookup : known.lookup "children" = members.lookup "children" :=
    Json.lookup_of_fields?_eq hk (by simp [layout])
  rw [ofJson?, hk, childrenIn?_eq, Json.Fields.optional?, Json.Fields.optional?, hlookup]
  rfl

theorem listOfItems?_of_forall₂ {shapes : List Shape} {items : List Json}
    (h : List.Forall₂ Written shapes items)
    (hs : ∀ shape ∈ shapes, ∀ json, shape.Written json → ofJson? json = some shape) :
    listOfItems? items = some shapes := by
  induction h with
  | nil => rfl
  | @cons shape json shapes items hw _ ih =>
    rw [List.forall_mem_cons] at hs
    rw [listOfItems?, hs.1 json hw, ih hs.2]
    rfl

/-- Reading what writes a node gives the node. -/
theorem ofJson?_eq_of_written {shape : Shape} (hs : shape.Storable) {json : Json}
    (h : shape.Written json) : ofJson? json = some shape := by
  induction shape using Shape.induction generalizing json with
  | leaf a figure =>
    obtain ⟨h⟩ := h
    obtain ⟨-, hf⟩ := hs
    obtain ⟨known, hk, hold⟩ := h.exists_fields? (by
      cases figure <;> simp [Attributes.fields, Figure.fields])
    have hchildren := hold.optional?_of_not_mem "children" listOfJson? []
      (by cases figure <;> simp [Attributes.fields, Figure.fields])
    rw [ofJson?_eq_of_fields? h hk, hchildren, Option.bind_some, ofFields?_leaf hf hold]
  | container a kind children ih =>
    cases h with
    | @container _ _ _ items _ hc h =>
    obtain - | ⟨-, hs⟩ := hs
    have hitems : listOfJson? (.array items) = some children :=
      listOfItems?_of_forall₂ hc fun child hm _ => ih child hm (hs child hm)
    obtain ⟨known, hk, hold⟩ := h.exists_fields? (by simp [Attributes.fields])
    have hchildren := hold.optional? "children" listOfJson? [] (· = .array items) (by simp)
      (fun json hj => hj ▸ hitems) nofun
    rw [ofJson?_eq_of_fields? h hk, hchildren, Option.bind_some, ofFields?_container hold]

/-- The items of an array of nodes are read one by one. -/
theorem listOfItems?_of_written {shapes : List Shape} (hs : ∀ shape ∈ shapes, shape.Storable)
    {items : List Json} (h : List.Forall₂ Written shapes items) :
    listOfItems? items = some shapes :=
  listOfItems?_of_forall₂ h fun shape hm _ => ofJson?_eq_of_written (hs shape hm)

theorem toJsons_eq_map (shapes : List Shape) : toJsons shapes = shapes.map toJson := by
  induction shapes with
  | nil => rfl
  | cons shape rest ih => rw [toJsons, ih, List.map_cons]

/-- The object of a tree writes it. -/
theorem written_toJson {shape : Shape} (hs : shape.Storable) : shape.Written shape.toJson := by
  induction shape using Shape.induction with
  | leaf a figure =>
    obtain ⟨ha, hf⟩ := hs
    refine .leaf (Json.isRecord_of_writes
      ((Attributes.writes_members ha figure.tag).append (Figure.writes_members hf)) ?_)
    cases figure <;> simp [Attributes.fields, Figure.fields, layout]
  | container a kind children ih =>
    obtain - | ⟨ha, hs⟩ := hs
    refine .container (?_ : List.Forall₂ Written children (toJsons children))
      (Json.isRecord_of_writes
        ((Attributes.writes_members ha kind.tag).append (.written rfl .nil)) ?_)
    · rw [toJsons_eq_map, List.forall₂_map_right_iff, List.forall₂_same]
      exact fun child hm => ih child hm (hs child hm)
    · simp [Attributes.fields, layout]

end Shape

namespace Ancestor

/-- The position is finite if there is one. -/
def Storable (a : Ancestor) : Prop := ∀ p ∈ a.offset?, p.IsFinite

/-- The fields of a container above a node: its coordinates only if it has a position. -/
def fields (a : Ancestor) : List Field :=
  [⟨"name", IsText a.name⟩, ⟨"x", IsOptional IsNumber (a.offset?.map Point.x)⟩,
    ⟨"y", IsOptional IsNumber (a.offset?.map Point.y)⟩]

/-- The value writes the container. -/
def Written (a : Ancestor) : Json → Prop := IsRecord layout a.fields

/-- A container above a node as an object. -/
def toJson (a : Ancestor) : Json :=
  .object ([("name", .string a.name)] ++
    ((a.offset?.map Point.x).map fun x => ("x", Json.ofFloat x)).toList ++
    ((a.offset?.map Point.y).map fun y => ("y", Json.ofFloat y)).toList)

theorem ofJson?_eq_of_written {a : Ancestor} {json : Json} (h : a.Written json) :
    ofJson? json = some a := by
  obtain ⟨known, hk, hold⟩ := h.exists_fields? (by simp [fields])
  have hname := hold.optional? "name" Json.string? "" (IsText a.name) (by simp [fields])
    (fun _ h => h.string?) nofun
  have hx := hold.optional? "x" (Json.orNull? Json.float?) none
    (IsOptional IsNumber (a.offset?.map Point.x)) (by simp [fields])
    (fun _ h => h.orNull? (fun _ _ _ hx => hx.float?) rfl) (by rintro _ ⟨⟩; rfl)
  have hy := hold.optional? "y" (Json.orNull? Json.float?) none
    (IsOptional IsNumber (a.offset?.map Point.y)) (by simp [fields])
    (fun _ h => h.orNull? (fun _ _ _ hy => hy.float?) rfl) (by rintro _ ⟨⟩; rfl)
  obtain ⟨name, offset?⟩ := a
  cases offset? <;>
    simp only [ofJson?, hk, hname, hx, hy, Option.bind_eq_bind, Option.bind_some,
      Option.pure_def, Option.map_none, Option.map_some, Option.getD_some]

theorem written_toJson {a : Ancestor} (h : a.Storable) : a.Written a.toJson := by
  have hx : ∀ x ∈ a.offset?.map Point.x, IsNumber x (Json.ofFloat x) := by
    intro x hx
    obtain ⟨p, hp, rfl⟩ := Option.map_eq_some_iff.1 hx
    exact Json.isNumber_ofFloat (h p hp).x
  have hy : ∀ y ∈ a.offset?.map Point.y, IsNumber y (Json.ofFloat y) := by
    intro y hy
    obtain ⟨p, hp, rfl⟩ := Option.map_eq_some_iff.1 hy
    exact Json.isNumber_ofFloat (h p hp).y
  have hname : Writes [⟨"name", IsText a.name⟩] [("name", .string a.name)] := .written rfl .nil
  have hwrites := (hname.append (Json.writes_optional "x" hx)).append
    (Json.writes_optional "y" hy)
  exact Json.isRecord_of_writes hwrites (by simp [fields, layout])

end Ancestor

namespace SelectedNode

/-- The node and the containers above it can be written. -/
structure Storable (n : SelectedNode) : Prop where
  shape : n.shape.Storable
  ancestors : ∀ a ∈ n.ancestors, a.Storable

/-- The fields of a selected node. -/
def fields (n : SelectedNode) : List Field :=
  [⟨"ancestors", IsList Ancestor.Written n.ancestors⟩, ⟨"node", n.shape.Written⟩]

/-- The value writes the selected node. -/
def Written (n : SelectedNode) : Json → Prop := IsRecord layout n.fields

/-- A selected node as an object. -/
def toJson (n : SelectedNode) : Json :=
  .object [("ancestors", .array (n.ancestors.map Ancestor.toJson)), ("node", n.shape.toJson)]

/-- Reading what writes a selected node gives the node with the containers above it. -/
theorem ofJson?_eq_of_written {n : SelectedNode} (hn : n.Storable) {json : Json}
    (h : n.Written json) : ofJson? json = some n := by
  obtain ⟨known, hk, hold⟩ := h.exists_fields? (by simp [fields])
  have hancestors := hold.optional? "ancestors" (Json.list? Ancestor.ofJson?) []
    (IsList Ancestor.Written n.ancestors) (by simp [fields])
    (fun _ h => h.list? fun _ _ _ => Ancestor.ofJson?_eq_of_written) (by rintro _ ⟨⟩)
  have hnode := hold.required? "node" Shape.ofJson? n.shape.Written (by simp [fields])
    (fun _ h => Shape.ofJson?_eq_of_written hn.shape h) rfl
  simp only [ofJson?, hk, hancestors, hnode, Option.bind_eq_bind, Option.bind_some,
    Option.pure_def]

theorem written_toJson {n : SelectedNode} (hn : n.Storable) : n.Written n.toJson :=
  Json.isRecord_of_writes
    (.written (Json.isList_map fun a ha => Ancestor.written_toJson (hn.ancestors a ha))
      (.written (Shape.written_toJson hn.shape) .nil))
    (by simp [fields, layout])

end SelectedNode

end LaserPath
