import LaserPath.Proofs.Json.Numbers
import LaserPath.Scene.Network

/-!
# Networks as texts

A network that has been written as a text of its own is read back with all that makes up its
structure: vertices and segments in their order, the indices of the segments, and which of them
have tangents. Each coordinate is what its digits are read as, so the network is read back as it was
if and only if all of its coordinates are.

## Main definitions

* `Point.RereadAs`, `Network.RereadAs` — what is written and what it is read as.
* `Network.numbers` — the coordinates of a network.

## Main statements

* `Network.readJson?_jsonText_iff` — what the text of a network is read as.
* `Network.readJson?_jsonText_laws` — when it is the network itself, and written as the same text.
-/

namespace LaserPath

namespace Point

/-- The coordinates of a point. -/
def numbers (p : Point) : List Float := [p.x, p.y]

/-- The coordinates of a point, and what they are read as when they have been written. -/
structure RereadAs (p q : Point) : Prop where
  x : Json.RereadAs p.x q.x
  y : Json.RereadAs p.y q.y

variable {p q : Point}

/-- A point that has been written is read coordinate by coordinate. -/
theorem ofJson?_reread_iff : ofJson? p.toJson.reread = some q ↔ p.RereadAs q := by
  have hread : ofJson? p.toJson.reread = (do
    return ⟨← (Json.ofFloat p.x).reread.float?, ← (Json.ofFloat p.y).reread.float?⟩) := rfl
  have hfields : p.RereadAs q ↔ (Json.ofFloat p.x).reread.float? = some q.x ∧
      (Json.ofFloat p.y).reread.float? = some q.y := ⟨fun h => ⟨h.x, h.y⟩, fun h => ⟨h.1, h.2⟩⟩
  rw [hread, hfields]
  obtain ⟨x, y⟩ := q
  cases (Json.ofFloat p.x).reread.float? <;> cases (Json.ofFloat p.y).reread.float? <;> simp

theorem rereadAs_self_iff : p.RereadAs p ↔ ∀ x ∈ p.numbers, Json.RereadAs x x := by
  simp only [numbers, List.forall_mem_cons]
  exact ⟨fun ⟨hx, hy⟩ => ⟨hx, hy, by simp⟩, fun ⟨hx, hy, _⟩ => ⟨hx, hy⟩⟩

end Point

namespace Network

namespace Segment

/-- The coordinates of the tangents of a segment. -/
def numbers (s : Segment) : List Float :=
  (s.startTangent?.toList ++ s.finishTangent?.toList).flatMap Point.numbers

/-- A segment, and what it is read as when it has been written. The indices are the same, and the
tangents are there or not as they were. -/
structure RereadAs (s r : Segment) : Prop where
  start : r.start = s.start
  finish : r.finish = s.finish
  startTangent : Option.Rel Point.RereadAs s.startTangent? r.startTangent?
  finishTangent : Option.Rel Point.RereadAs s.finishTangent? r.finishTangent?

variable {s r : Segment}

theorem orNull?_reread_iff {p? q? : Option Point} :
    (Json.reread (p?.elim .null Point.toJson)).orNull? Point.ofJson? = some q? ↔
      Option.Rel Point.RereadAs p? q? := by
  have hobject (p : Point) : p.toJson.reread ≠ .null := by simp [Point.toJson, Json.reread]
  exact Json.orNull?_reread_iff hobject fun p q => Point.ofJson?_reread_iff

/-- A segment that has been written is read field by field. -/
theorem ofJson?_reread_iff (hstart : s.start < indexLimit) (hfinish : s.finish < indexLimit) :
    ofJson? s.toJson.reread = some r ↔ s.RereadAs r := by
  have hread : ofJson? s.toJson.reread = (do
    return {
      start := ← (Json.reread (.integer s.start)).natBelow? indexLimit
      finish := ← (Json.reread (.integer s.finish)).natBelow? indexLimit
      startTangent? := ← (Json.reread (s.startTangent?.elim .null Point.toJson)).orNull?
        Point.ofJson?
      finishTangent? := ← (Json.reread (s.finishTangent?.elim .null Point.toJson)).orNull?
        Point.ofJson? }) := rfl
  obtain ⟨start, finish, startTangent?, finishTangent?⟩ := r
  rw [hread, Json.natBelow?_reread hstart le_rfl, Json.natBelow?_reread hfinish le_rfl]
  simp only [Option.bind_eq_bind, Option.bind_some, Option.bind_eq_some_iff, Option.pure_def,
    Option.some.injEq, mk.injEq, orNull?_reread_iff]
  constructor
  · rintro ⟨p?, hp, q?, hq, rfl, rfl, rfl, rfl⟩
    exact ⟨rfl, rfl, hp, hq⟩
  · rintro ⟨hs, hf, hp, hq⟩
    exact ⟨_, hp, _, hq, hs.symm, hf.symm, rfl, rfl⟩

theorem rel_self_iff {p? : Option Point} : Option.Rel Point.RereadAs p? p? ↔
    ∀ x ∈ p?.toList.flatMap Point.numbers, Json.RereadAs x x := by
  cases p? with
  | none => simp
  | some p => simpa using Point.rereadAs_self_iff

theorem rereadAs_self_iff : s.RereadAs s ↔ ∀ x ∈ s.numbers, Json.RereadAs x x := by
  rw [numbers, List.flatMap_append, List.forall_mem_append, ← rel_self_iff, ← rel_self_iff]
  exact ⟨fun h => ⟨h.startTangent, h.finishTangent⟩, fun ⟨hp, hq⟩ => ⟨rfl, rfl, hp, hq⟩⟩

end Segment

/-- The coordinates of a network. -/
def numbers (n : Network) : List Float :=
  n.vertices.flatMap Point.numbers ++ n.segments.flatMap Segment.numbers

/-- A network, and what it is read as when it has been written: its vertices and segments one by
one. -/
structure RereadAs (n m : Network) : Prop where
  vertices : List.Forall₂ Point.RereadAs n.vertices m.vertices
  segments : List.Forall₂ Segment.RereadAs n.segments m.segments

variable {n m : Network}

/-- What the text of a network is read as. -/
theorem readJson?_jsonText_iff
    (h : ∀ s ∈ n.segments, s.start < indexLimit ∧ s.finish < indexLimit) :
    readJson? n.jsonText = some m ↔ n.RereadAs m := by
  have hread : readJson? n.jsonText = (do
    return {
      vertices := ← (Json.reread (.array (n.vertices.map Point.toJson))).list? Point.ofJson?
      segments := ← (Json.reread (.array (n.segments.map Segment.toJson))).list?
        Segment.ofJson? }) := by
    rw [readJson?, jsonText, Json.read_compact]
    rfl
  have hvertices {vertices : List Point} :=
    Json.list?_reread_iff (l := n.vertices) (r := vertices) (R := Point.RereadAs)
      fun p _ q => Point.ofJson?_reread_iff
  have hsegments {segments : List Segment} :=
    Json.list?_reread_iff (l := n.segments) (r := segments) (R := Segment.RereadAs)
      fun s hs r => Segment.ofJson?_reread_iff (h s hs).1 (h s hs).2
  obtain ⟨vertices, segments⟩ := m
  rw [hread]
  simp only [Option.bind_eq_bind, Option.bind_eq_some_iff, Option.pure_def, Option.some.injEq,
    mk.injEq, hvertices, hsegments]
  constructor
  · rintro ⟨vertices, hv, segments, hs, rfl, rfl⟩
    exact ⟨hv, hs⟩
  · rintro ⟨hv, hs⟩
    exact ⟨_, hv, _, hs, rfl, rfl⟩

theorem rereadAs_self_iff : n.RereadAs n ↔ ∀ x ∈ n.numbers, Json.RereadAs x x := by
  rw [numbers, List.forall_mem_append, List.forall_mem_flatMap, List.forall_mem_flatMap]
  simp only [← Point.rereadAs_self_iff, ← Segment.rereadAs_self_iff]
  exact ⟨fun h => ⟨List.forall₂_same.1 h.vertices, List.forall₂_same.1 h.segments⟩,
    fun h => ⟨List.forall₂_same.2 h.1, List.forall₂_same.2 h.2⟩⟩

/-- The text of a network is read as a network with the same vertices and segments, but for the
doubles that digits are read as. If these are the doubles that were written, it is read as the
network itself, which is written as the same text again. -/
theorem readJson?_jsonText_laws (n : Network) (hfinite : ∀ x ∈ n.numbers, x.isFinite = true)
    (hindices : ∀ s ∈ n.segments, s.start < indexLimit ∧ s.finish < indexLimit) :
    (∀ m, readJson? n.jsonText = some m ↔ n.RereadAs m) ∧
    (readJson? n.jsonText = some n ↔ ∀ x ∈ n.numbers, Json.ReadsNearest x) ∧
    ((∀ x ∈ n.numbers, Json.ReadsNearest x) →
      ∀ m, readJson? n.jsonText = some m → m.jsonText = n.jsonText) := by
  have hself : readJson? n.jsonText = some n ↔ ∀ x ∈ n.numbers, Json.ReadsNearest x :=
    calc readJson? n.jsonText = some n
      _ ↔ ∀ x ∈ n.numbers, Json.RereadAs x x :=
        (readJson?_jsonText_iff hindices).trans rereadAs_self_iff
      _ ↔ ∀ x ∈ n.numbers, Json.ReadsNearest x :=
        forall₂_congr fun x hx => Json.rereadAs_self_iff (hfinite x hx)
  refine ⟨fun m => readJson?_jsonText_iff hindices, hself, fun hnumbers m hm => ?_⟩
  obtain rfl := Option.some.inj (hm.symm.trans (hself.2 hnumbers))
  rfl

/-- A segment to the highest index there is, where no vertex is, with a tangent of no length at one
end and no tangent at the other. -/
theorem readJson?_jsonText_laws_of_loose_end :
    let loose : Network :=
      ⟨[⟨0.1, -0⟩], [⟨0, 18446744073709551615, some ⟨0, 0⟩, none⟩]⟩
    (∀ x ∈ loose.numbers, x.isFinite = true ∧ Json.ReadsNearest x) ∧
      readJson? loose.jsonText = some loose := by
  intro loose
  have hfinite : ∀ x ∈ loose.numbers, x.isFinite = true := by decide +kernel
  have hindices : ∀ s ∈ loose.segments, s.start < indexLimit ∧ s.finish < indexLimit := by
    decide +kernel
  have hnumbers : ∀ x ∈ loose.numbers, Json.ReadsNearest x := by
    have hread : ∀ x ∈ loose.numbers, (Json.ofFloat x).reread.float? = some x := by
      decide +kernel
    exact fun x hx => (Json.float?_reread_iff (hfinite x hx)).1 (hread x hx)
  obtain ⟨-, hself, -⟩ := readJson?_jsonText_laws loose hfinite hindices
  exact ⟨fun x hx => ⟨hfinite x hx, hnumbers x hx⟩, hself.2 hnumbers⟩

end Network

end LaserPath
