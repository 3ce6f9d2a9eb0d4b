import LaserPath.Proofs.Trace.PathData
import LaserPath.Trace.Network
import Mathlib.Data.List.Forall2

/-!
# The outline of a network as path data

The chains of a network take up every segment once. A network of straight segments is an outline
that path data can write as well: for every chain a move to its first vertex and lines to the ends
of its segments. Both are traced to the same motions, whatever words the numbers are written in.

## Main definitions

* `Network.Valid` — every segment joins vertices that exist.
* `Network.ChainDrawnBy` — the strokes of a chain.
* `Network.OutlinedBy` — the path data of a network.

## Main statements

* `Network.perm_flatten_cutChains` — chains take up every link once.
* `Network.traceChain_eq_of_drawnBy` — a straight chain is traced like its strokes.
* `Network.trace_outlined` — a straight network is traced like its path data.
-/

namespace LaserPath.Network

variable {n : Network}

/-- Every segment joins vertices that exist. -/
def Valid (n : Network) : Prop :=
  ∀ s ∈ n.segments, s.start < n.vertices.length ∧ s.finish < n.vertices.length

instance : Decidable n.Valid :=
  inferInstanceAs (Decidable (∀ s ∈ n.segments,
    s.start < n.vertices.length ∧ s.finish < n.vertices.length))

/-- The place of a vertex relative to the anchor. -/
def place (n : Network) (index : Nat) : Point := n.vertices.getD index .origin

/-- Strokes that draw a chain: a move to where it starts, and lines to the ends of its segments,
which may be given to one command or to several. -/
inductive ChainDrawnBy (n : Network) : List Link → List Stroke → Prop where
  | intro {first : Link} {rest : List Link} (groups : List (List Link))
      (hgroups : groups.flatten = first :: rest) :
      ChainDrawnBy n (first :: rest) (.move (n.place first.1.start) ::
        groups.map fun links => .lines (links.map fun l => n.place l.1.finish))

/-- Path data of a network: the strokes of its chains, in order, as commands behind each other. -/
def OutlinedBy (n : Network) (data : String) : Prop :=
  ∃ (strokes : List (List Stroke)) (texts : List (List Char)),
    List.Forall₂ n.ChainDrawnBy (linkChains n.segments) strokes ∧
      List.Forall₂ (fun s => s.command.WrittenAs) strokes.flatten texts ∧
        data.toList = texts.flatten

/-- A network has no fault if and only if every segment joins vertices that exist. -/
theorem fault?_eq_none_iff : n.fault? = none ↔ n.Valid := by
  have hsegment (s : Segment) (index : Nat) :
      [s.start, s.finish].findSome? (fun vertex => if n.vertices.length ≤ vertex then
        some (⟨index, vertex, n.vertices.length⟩ : Fault) else none) = none ↔
        s.start < n.vertices.length ∧ s.finish < n.vertices.length := by
    simp
  rw [fault?, List.findSome?_eq_none_iff]
  constructor
  · intro h s hs
    rw [← List.zipIdx_map_fst 0 n.segments] at hs
    obtain ⟨⟨_, index⟩, hmem, rfl⟩ := List.mem_map.1 hs
    exact (hsegment _ index).1 (h _ hmem)
  · rintro h ⟨s, index⟩ hmem
    exact (hsegment s index).2 (h s (List.fst_mem_of_mem_zipIdx hmem))

/-! ## Chains -/

/-- Following a chain only moves links. -/
theorem perm_follow (vertex : Nat) (links : List Link) :
    ((follow vertex links).1 ++ (follow vertex links).2).Perm links := by
  fun_induction follow vertex links with
  | case1 vertex links h => exact List.Perm.refl _
  | case2 vertex links link h chain left heq ih =>
    obtain ⟨hstart, before, behind, rfl, hbefore⟩ := List.find?_eq_some_iff_append.1 h
    have herase : (link :: behind).eraseP (·.1.start == vertex) = behind :=
      List.eraseP_cons_of_pos hstart
    rw [heq, List.eraseP_append_right _ (by simpa using hbefore), herase] at ih
    rw [List.cons_append]
    exact (ih.cons link).trans List.perm_middle.symm

/-- Chains take up every link once. -/
theorem perm_flatten_cutChains (links : List Link) : (cutChains links).flatten.Perm links := by
  fun_induction cutChains links with
  | case1 => exact List.Perm.refl _
  | case2 link rest ih =>
    rw [List.flatten_cons, List.cons_append]
    exact ((ih.append_left _).trans (perm_follow _ _)).cons link

theorem mem_segments_of_mem_linkChains {segments : List Segment} {chain : List Link}
    (h : chain ∈ linkChains segments) {link : Link} (hl : link ∈ chain) : link.1 ∈ segments := by
  have hm := (perm_flatten_cutChains segments.zipIdx).mem_iff.1
    (List.mem_flatten.2 ⟨chain, h, hl⟩)
  exact List.fst_mem_of_mem_zipIdx hm

/-- A chain has a first link. -/
theorem ne_nil_of_mem_cutChains {links : List Link} : ∀ chain ∈ cutChains links, chain ≠ [] := by
  fun_induction cutChains links with
  | case1 => exact nofun
  | case2 link rest ih => exact List.forall_mem_cons.2 ⟨List.cons_ne_nil _ _, ih⟩

/-! ## Motions -/

section

variable (settings : LaserSettings) (anchor : Point)

/-- Straight segments are cut to their ends. -/
theorem flatMap_traceSegment_eq {links : List Link} (h : ∀ l ∈ links, l.1.isCurved = false) :
    (links.flatMap fun l => n.traceSegment settings anchor l.1) =
      links.map fun l => settings.cutTo (anchor.shift (n.place l.1.finish)) := by
  rw [List.map_eq_flatMap]
  apply List.flatMap_congr
  intro l hl
  rw [traceSegment, h l hl]
  rfl

/-- A straight chain is traced like the strokes that draw it. -/
theorem traceChain_eq_of_drawnBy {chain : List Link} {strokes : List Stroke}
    (h : n.ChainDrawnBy chain strokes) (hstraight : ∀ l ∈ chain, l.1.isCurved = false) :
    n.traceChain settings anchor chain = strokes.flatMap (Stroke.motions settings anchor) := by
  obtain @⟨first, rest, groups, hgroups⟩ := h
  rw [traceChain, flatMap_traceSegment_eq settings anchor hstraight, ← hgroups, List.map_flatten,
    List.flatMap_cons, List.flatMap_map, List.flatMap_def]
  simp only [Stroke.motions, List.map_map, Function.comp_def]
  rfl

/-- So are straight chains behind each other. -/
theorem flatMap_traceChain_eq {chains : List (List Link)} {strokes : List (List Stroke)}
    (h : List.Forall₂ n.ChainDrawnBy chains strokes)
    (hstraight : ∀ chain ∈ chains, ∀ l ∈ chain, l.1.isCurved = false) :
    chains.flatMap (n.traceChain settings anchor) =
      strokes.flatten.flatMap (Stroke.motions settings anchor) := by
  induction h with
  | nil => rfl
  | cons hchain _ ih =>
    rw [List.forall_mem_cons] at hstraight
    rw [List.flatMap_cons, traceChain_eq_of_drawnBy settings anchor hchain hstraight.1,
      ih hstraight.2, List.flatten_cons, List.flatMap_append]

end

/-- The strokes of a chain go to places of vertices. -/
theorem isFinite_of_drawnBy (hfinite : ∀ p ∈ n.vertices, p.IsFinite) {chain : List Link}
    {strokes : List Stroke} (h : n.ChainDrawnBy chain strokes) :
    ∀ s ∈ strokes, ∀ p ∈ s.targets, p.IsFinite := by
  have hplace (index : Nat) : (n.place index).IsFinite := by
    rw [place, List.getD_eq_getElem?_getD]
    cases hv : n.vertices[index]? with
    | none => exact ⟨rfl, rfl⟩
    | some p => exact hfinite p (List.mem_of_getElem? hv)
  obtain @⟨first, rest, groups, hgroups⟩ := h
  rw [List.forall_mem_cons, List.forall_mem_map]
  constructor
  · exact List.forall_mem_singleton.2 (hplace _)
  · intro links _
    exact List.forall_mem_map.2 fun l _ => hplace _

theorem isFinite_of_forall₂_drawnBy (hfinite : ∀ p ∈ n.vertices, p.IsFinite)
    {chains : List (List Link)} {strokes : List (List Stroke)}
    (h : List.Forall₂ n.ChainDrawnBy chains strokes) :
    ∀ s ∈ strokes.flatten, ∀ p ∈ s.targets, p.IsFinite := by
  induction h with
  | nil => exact nofun
  | cons hchain _ ih =>
    rw [List.flatten_cons, List.forall_mem_append]
    exact ⟨isFinite_of_drawnBy hfinite hchain, ih⟩

/-- One way to draw a chain is to give all its lines to one command. -/
theorem chainDrawnBy_lines (first : Link) (rest : List Link) :
    n.ChainDrawnBy (first :: rest) [.move (n.place first.1.start),
      .lines ((first :: rest).map fun l => n.place l.1.finish)] :=
  .intro [first :: rest] List.flatten_singleton

/-- A network of finite vertices can be written as path data. -/
theorem exists_outlinedBy (hfinite : ∀ p ∈ n.vertices, p.IsFinite) : ∃ data, n.OutlinedBy data := by
  have hchains : ∀ chain ∈ linkChains n.segments, ∃ strokes, n.ChainDrawnBy chain strokes := by
    intro chain hchain
    obtain ⟨first, rest, rfl⟩ := List.exists_cons_of_ne_nil (ne_nil_of_mem_cutChains chain hchain)
    exact ⟨_, chainDrawnBy_lines first rest⟩
  obtain ⟨strokes, hstrokes⟩ := exists_forall₂ hchains
  have hcommands : ∀ s ∈ strokes.flatten, ∃ text, s.command.WrittenAs text := by
    intro s hs
    exact PathCommand.exists_writtenAs
      (Stroke.isFinite_params (isFinite_of_forall₂_drawnBy hfinite hstrokes s hs))
  obtain ⟨texts, htexts⟩ := exists_forall₂ hcommands
  exact ⟨String.ofList texts.flatten, strokes, texts, hstrokes, htexts, String.toList_ofList⟩

/-- A network of straight segments is traced like any path data that writes its outline, and there
is such path data. -/
theorem trace_outlined (settings : LaserSettings) (anchor : Point) (hvalid : n.Valid)
    (hfinite : ∀ p ∈ n.vertices, p.IsFinite) (hstraight : ∀ s ∈ n.segments, s.isCurved = false) :
    (∃ data, n.OutlinedBy data) ∧ ∀ data, n.OutlinedBy data →
      n.trace settings anchor = .ok (tracePathData settings anchor data) := by
  refine ⟨exists_outlinedBy hfinite, ?_⟩
  rintro data ⟨strokes, texts, hstrokes, htexts, hdata⟩
  have hpath := Stroke.tracePathData_eq_of_written settings anchor htexts
    (isFinite_of_forall₂_drawnBy hfinite hstrokes) hdata
  have hchains := flatMap_traceChain_eq settings anchor hstrokes
    fun chain hchain l hl => hstraight l.1 (mem_segments_of_mem_linkChains hchain hl)
  rw [trace, fault?_eq_none_iff.2 hvalid, hpath, hchains]

/-- A cycle of three segments, with its lines in one command, and a segment that goes back along the
first of them. -/
theorem trace_outlined_of_cycle :
    let n : Network := ⟨[⟨0, 0⟩, ⟨10, 0⟩, ⟨10, 2.5⟩], [⟨0, 1, none, none⟩,
      ⟨1, 2, some .origin, none⟩, ⟨1, 0, none, none⟩, ⟨2, 0, none, some .origin⟩]⟩
    let data := "M0 0 L10 0 10 2.5 0 0 M10 0 L0 0 "
    n.Valid ∧ (∀ p ∈ n.vertices, p.IsFinite) ∧ (∀ s ∈ n.segments, s.isCurved = false) ∧
      n.OutlinedBy data ∧ n.trace {} ⟨3, -4⟩ = .ok (tracePathData {} ⟨3, -4⟩ data) := by
  intro n data
  have hvalid : n.Valid := by decide
  have hfinite : ∀ p ∈ n.vertices, p.IsFinite := by
    simp only [n, List.forall_mem_cons]
    exact ⟨⟨rfl, rfl⟩, ⟨rfl, rfl⟩, ⟨rfl, rfl⟩, nofun⟩
  have hstraight : ∀ s ∈ n.segments, s.isCurved = false := by decide
  have hchains : linkChains n.segments = [[(⟨0, 1, none, none⟩, 0),
      (⟨1, 2, some .origin, none⟩, 1), (⟨2, 0, none, some .origin⟩, 3)],
      [(⟨1, 0, none, none⟩, 2)]] := by
    decide +kernel
  have hdata : n.OutlinedBy data := by
    have hzero : List.Forall₂ PathCommand.IsNumber [0, 0] [['0'], ['0']] := by decide +kernel
    have hten : List.Forall₂ PathCommand.IsNumber [10, 0] [['1', '0'], ['0']] := by
      decide +kernel
    have hcycle : List.Forall₂ PathCommand.IsNumber [10, 0, 10, 2.5, 0, 0]
        [['1', '0'], ['0'], ['1', '0'], ['2', '.', '5'], ['0'], ['0']] := by
      decide +kernel
    have hdrawn : List.Forall₂ n.ChainDrawnBy (linkChains n.segments)
        [[.move ⟨0, 0⟩, .lines [⟨10, 0⟩, ⟨10, 2.5⟩, ⟨0, 0⟩]],
          [.move ⟨10, 0⟩, .lines [⟨0, 0⟩]]] := by
      rw [hchains]
      exact .cons (chainDrawnBy_lines ..) (.cons (chainDrawnBy_lines ..) .nil)
    exact ⟨_, _, hdrawn, .cons (PathCommand.writtenAs_spaced hzero)
      (.cons (PathCommand.writtenAs_spaced hcycle) (.cons (PathCommand.writtenAs_spaced hten)
        (.cons (PathCommand.writtenAs_spaced hzero) .nil))), by decide +kernel⟩
  exact ⟨hvalid, hfinite, hstraight, hdata,
    (trace_outlined {} ⟨3, -4⟩ hvalid hfinite hstraight).2 data hdata⟩

end LaserPath.Network
