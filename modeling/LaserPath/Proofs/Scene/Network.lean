import LaserPath.Proofs.Json.Record
import LaserPath.Scene.Network

/-!
# Points, boxes and networks as they are written

Each of them is written as a record of its numbers. Reading such a record gives it back.

## Main definitions

* `Point.Written`, `Bounds.Written`, `Network.Written` — the values that write them.
* `Point.IsFinite`, `Bounds.IsFinite`, `Network.Storable` — their numbers are finite, and indices
  are below their limit.

## Main statements

* `Network.ofJson?_eq_of_written` — reading what writes a network gives the network.
* `Network.written_toJson` — the object of a network writes it.
-/

namespace LaserPath

open Json (Field Writes IsRecord IsNumber IsOptional IsList)

/-- The value is the text. -/
def Json.IsText (s : String) (json : Json) : Prop := json = .string s

/-- The value is the natural number. -/
def Json.IsCount (n : Nat) (json : Json) : Prop := json = .integer n

open Json (IsText IsCount)

theorem Json.IsText.string? {s : String} {json : Json} (h : IsText s json) :
    json.string? = some s := by
  cases h
  rfl

theorem Json.IsCount.natBelow? {n limit : Nat} {json : Json} (h : IsCount n json)
    (hn : n < limit) : json.natBelow? limit = some n := by
  cases h
  simp [Json.natBelow?, hn]

theorem Json.IsCount.orNull?_natBelow? {n limit : Nat} {json : Json} (h : IsCount n json)
    (hn : n < limit) : json.orNull? (Json.natBelow? limit) = some (some n) := by
  have hv := h.natBelow? hn
  cases h
  rw [Json.orNull?, hv]
  · rfl
  · exact nofun

namespace Point

/-- Both coordinates are finite. -/
structure IsFinite (p : Point) : Prop where
  x : p.x.isFinite = true
  y : p.y.isFinite = true

/-- The fields of a point. -/
def fields (p : Point) : List Field := [⟨"x", IsNumber p.x⟩, ⟨"y", IsNumber p.y⟩]

/-- The value writes the point. -/
def Written (p : Point) : Json → Prop := IsRecord layout p.fields

theorem ofJson?_eq_of_written {p : Point} {json : Json} (h : p.Written json) :
    ofJson? json = some p := by
  obtain ⟨known, hk, hold⟩ := h.exists_fields? (by simp [fields])
  have hx := hold.required?_float "x" p.x (by simp [fields])
  have hy := hold.required?_float "y" p.y (by simp [fields])
  simp only [ofJson?, hk, hx, hy, Option.bind_eq_bind, Option.bind_some, Option.pure_def]

theorem written_toJson {p : Point} (h : p.IsFinite) : p.Written p.toJson :=
  Json.isRecord_of_writes
    (.written (Json.isNumber_ofFloat h.x) (.written (Json.isNumber_ofFloat h.y) .nil))
    (by simp [fields, layout])

end Point

namespace Bounds

/-- All four numbers are finite. -/
structure IsFinite (b : Bounds) : Prop where
  x : b.x.isFinite = true
  y : b.y.isFinite = true
  width : b.width.isFinite = true
  height : b.height.isFinite = true

/-- The fields of a box. -/
def fields (b : Bounds) : List Field :=
  [⟨"x", IsNumber b.x⟩, ⟨"y", IsNumber b.y⟩, ⟨"width", IsNumber b.width⟩,
    ⟨"height", IsNumber b.height⟩]

/-- The value writes the box. -/
def Written (b : Bounds) : Json → Prop := IsRecord layout b.fields

/-- A box as an object. -/
def toJson (b : Bounds) : Json :=
  .object [("x", .ofFloat b.x), ("y", .ofFloat b.y), ("width", .ofFloat b.width),
    ("height", .ofFloat b.height)]

theorem ofJson?_eq_of_written {b : Bounds} {json : Json} (h : b.Written json) :
    ofJson? json = some b := by
  obtain ⟨known, hk, hold⟩ := h.exists_fields? (by simp [fields])
  have hx := hold.required?_float "x" b.x (by simp [fields])
  have hy := hold.required?_float "y" b.y (by simp [fields])
  have hw := hold.required?_float "width" b.width (by simp [fields])
  have hh := hold.required?_float "height" b.height (by simp [fields])
  simp only [ofJson?, hk, hx, hy, hw, hh, Option.bind_eq_bind, Option.bind_some, Option.pure_def]

theorem written_toJson {b : Bounds} (h : b.IsFinite) : b.Written b.toJson :=
  Json.isRecord_of_writes
    (.written (Json.isNumber_ofFloat h.x) (.written (Json.isNumber_ofFloat h.y)
      (.written (Json.isNumber_ofFloat h.width) (.written (Json.isNumber_ofFloat h.height) .nil))))
    (by simp [fields, layout])

end Bounds

namespace Network

namespace Segment

/-- The indices are below their limit, and the tangents are finite. -/
structure Storable (s : Segment) : Prop where
  start : s.start < indexLimit
  finish : s.finish < indexLimit
  startTangent : ∀ p ∈ s.startTangent?, p.IsFinite
  finishTangent : ∀ p ∈ s.finishTangent?, p.IsFinite

/-- The fields of a segment. -/
def fields (s : Segment) : List Field :=
  [⟨"start", IsCount s.start⟩, ⟨"end", IsCount s.finish⟩,
    ⟨"tangentStart", IsOptional Point.Written s.startTangent?⟩,
    ⟨"tangentEnd", IsOptional Point.Written s.finishTangent?⟩]

/-- The value writes the segment. -/
def Written (s : Segment) : Json → Prop := IsRecord layout s.fields

theorem orNull?_eq_of_isOptional {p? : Option Point} {json : Json}
    (h : IsOptional Point.Written p? json) : json.orNull? Point.ofJson? = some p? :=
  h.orNull? (fun _ _ _ => Point.ofJson?_eq_of_written) rfl

theorem ofJson?_eq_of_written {s : Segment} {json : Json} (hs : s.Storable)
    (h : s.Written json) : ofJson? json = some s := by
  obtain ⟨known, hk, hold⟩ := h.exists_fields? (by simp [fields])
  have hstart := hold.required? "start" (Json.natBelow? indexLimit) (IsCount s.start)
    (by simp [fields]) (fun _ h => h.natBelow? hs.start) rfl
  have hfinish := hold.required? "end" (Json.natBelow? indexLimit) (IsCount s.finish)
    (by simp [fields]) (fun _ h => h.natBelow? hs.finish) rfl
  have hst := hold.optional? "tangentStart" (Json.orNull? Point.ofJson?) none
    (IsOptional Point.Written s.startTangent?) (by simp [fields])
    (fun _ => orNull?_eq_of_isOptional) (by rintro _ ⟨⟩; rfl)
  have hft := hold.optional? "tangentEnd" (Json.orNull? Point.ofJson?) none
    (IsOptional Point.Written s.finishTangent?) (by simp [fields])
    (fun _ => orNull?_eq_of_isOptional) (by rintro _ ⟨⟩; rfl)
  simp only [ofJson?, hk, hstart, hfinish, hst, hft, Option.bind_eq_bind, Option.bind_some,
    Option.pure_def]

theorem isOptional_elim {p? : Option Point} (h : ∀ p ∈ p?, p.IsFinite) :
    IsOptional Point.Written p? (p?.elim .null Point.toJson) := by
  cases p? with
  | none => rfl
  | some p => exact Point.written_toJson (h p rfl)

theorem written_toJson {s : Segment} (hs : s.Storable) : s.Written s.toJson :=
  Json.isRecord_of_writes
    (.written rfl (.written rfl (.written (isOptional_elim hs.startTangent)
      (.written (isOptional_elim hs.finishTangent) .nil))))
    (by simp [fields, layout])

end Segment

/-- The vertices are finite, and the segments can be written. -/
structure Storable (n : Network) : Prop where
  vertices : ∀ p ∈ n.vertices, p.IsFinite
  segments : ∀ s ∈ n.segments, s.Storable

/-- The fields of a network. -/
def fields (n : Network) : List Field :=
  [⟨"vertices", IsList Point.Written n.vertices⟩, ⟨"segments", IsList Segment.Written n.segments⟩]

/-- The value writes the network. -/
def Written (n : Network) : Json → Prop := IsRecord layout n.fields

theorem ofJson?_eq_of_written {n : Network} {json : Json} (hn : n.Storable)
    (h : n.Written json) : ofJson? json = some n := by
  obtain ⟨known, hk, hold⟩ := h.exists_fields? (by simp [fields])
  have hv := hold.optional? "vertices" (Json.list? Point.ofJson?) []
    (IsList Point.Written n.vertices) (by simp [fields])
    (fun _ h => h.list? fun _ _ _ => Point.ofJson?_eq_of_written) (by rintro _ ⟨⟩)
  have hs := hold.optional? "segments" (Json.list? Segment.ofJson?) []
    (IsList Segment.Written n.segments) (by simp [fields])
    (fun _ h => h.list? fun s hm _ => Segment.ofJson?_eq_of_written (hn.segments s hm))
    (by rintro _ ⟨⟩)
  simp only [ofJson?, hk, hv, hs, Option.bind_eq_bind, Option.bind_some, Option.pure_def]

theorem written_toJson {n : Network} (hn : n.Storable) : n.Written n.toJson :=
  Json.isRecord_of_writes
    (.written (Json.isList_map fun p hp => Point.written_toJson (hn.vertices p hp))
      (.written (Json.isList_map fun s hs => Segment.written_toJson (hn.segments s hs)) .nil))
    (by simp [fields, layout])

end Network

end LaserPath
