import LaserPath.Proofs.Program.Coordinates
import LaserPath.Proofs.Route.Conservation
import LaserPath.Proofs.Trace.Network

/-!
# Where a shape is entered and left

The route is planned with two anchors of a shape, which are read from the shape by rules of their
own and not from its toolpath. For lines and for all that is drawn as a box they are where the
toolpath begins and ends. A network begins where its first segment does and ends where the last
chain does, which are the anchors if these are the first and the last vertex. Everywhere else the
two anchors are one point, and a shape like that is never traced backwards.

## Main definitions

* `Shape.IsPlain` — lines, and the shapes that are drawn as a box.
* `Shape.IsOpen` — the shapes that may be traced backwards.
* `Network.RunsBetween` — where the toolpath of a network begins and ends.

## Main statements

* `Shape.routeAnchors_compile` — how the anchors of a shape and its toolpath fit together.
-/

namespace LaserPath

/-- Lines, and the shapes that are drawn as a box. -/
inductive Shape.IsPlain : Shape → Prop where
  | rectangle (a : Attributes) : IsPlain (.leaf a .rectangle)
  | line (a : Attributes) : IsPlain (.leaf a .line)
  | booleanOperation (a : Attributes) (operation : BooleanOperation) :
    IsPlain (.leaf a (.booleanOperation operation))
  | component (a : Attributes) : IsPlain (.leaf a .component)
  | slice (a : Attributes) : IsPlain (.leaf a .slice)
  | text (a : Attributes) : IsPlain (.leaf a .text)
  | vector (a : Attributes) {network? : Option Network}
    (h : ∀ n ∈ network?, n.segments = []) : IsPlain (.leaf a (.vector network? []))
  | container (a : Attributes) (kind : ContainerKind) : IsPlain (.container a kind [])

/-- The shapes that may be entered at one point and left at another. -/
inductive Shape.IsOpen : Shape → Prop where
  | line (a : Attributes) : IsOpen (.leaf a .line)
  | network (a : Attributes) {n : Network} (paths : List String) (h : n.segments ≠ []) :
    IsOpen (.leaf a (.vector (some n) paths))

variable {settings : LaserSettings} {n : Network} {anchor : Point} {t : Toolpath}

/-- A toolpath that is entered and left as its network is: it begins where the first segment
starts, and where the last segment of the last chain ends it ends, as far as a curve there does.
If these are the first and the last vertex, they are the points `ends`. -/
structure Network.RunsBetween (n : Network) (anchor : Point) (ends : Point × Point)
    (t : Toolpath) : Prop where
  first : ∀ first rest, n.segments = first :: rest →
    ∃ p, n.vertices[first.start]? = some p ∧
      t.firstPoint? = some ⟨anchor.x + p.x, anchor.y + p.y⟩
  entered : ∀ first rest, n.segments = first :: rest → first.start = 0 →
    t.firstPoint? = some ends.1
  last : ∀ before done index last, chains n.segments = before ++ [done ++ [index]] →
    n.segments[index]? = some last →
    (last.isCurved = true → (n.curve anchor last).sample 1 = (n.curve anchor last).finish) →
      ∃ p, n.vertices[last.finish]? = some p ∧
        t.lastPoint? = some ⟨anchor.x + p.x, anchor.y + p.y⟩
  left : ∀ before done index last, chains n.segments = before ++ [done ++ [index]] →
    n.segments[index]? = some last →
    (last.isCurved = true → (n.curve anchor last).sample 1 = (n.curve anchor last).finish) →
      last.finish + 1 = n.vertices.length → t.lastPoint? = some ends.2

/-! ## Networks -/

namespace Network

/-- The first chain begins with the first segment. -/
theorem exists_linkChains_eq_cons {first : Segment} {rest : List Segment}
    (h : n.segments = first :: rest) :
    ∃ chain chains, linkChains n.segments = ((first, 0) :: chain) :: chains := by
  rw [linkChains, h, List.zipIdx_cons, cutChains]
  exact ⟨_, _, rfl⟩

/-- The links at the end of the last chain. -/
theorem exists_linkChains_eq_concat {before : List (List Nat)} {done : List Nat} {index : Nat}
    {last : Segment} (h : chains n.segments = before ++ [done ++ [index]])
    (hlast : n.segments[index]? = some last) :
    ∃ chains chain, linkChains n.segments = chains ++ [chain ++ [(last, index)]] := by
  obtain ⟨chains, tail, heq, -, htail⟩ := List.map_eq_append_iff.1 h
  obtain ⟨chain, rfl, hchain⟩ := List.map_eq_singleton_iff.1 htail
  obtain ⟨links, tail, rfl, -, htail⟩ := List.map_eq_append_iff.1 hchain
  obtain ⟨link, rfl, rfl⟩ := List.map_eq_singleton_iff.1 htail
  have hmem : links ++ [link] ∈ linkChains n.segments := heq ▸ List.mem_concat_self
  have hlink := getElem?_of_mem_linkChains hmem List.mem_concat_self
  obtain rfl := Option.some.inj (hlast.symm.trans hlink)
  exact ⟨chains, links, heq⟩

/-- A chain ends where its last segment does. -/
theorem lastPoint?_traceChain {chain : List Link} {last : Link}
    (h : last.1.isCurved = true →
      (n.curve anchor last.1).sample 1 = (n.curve anchor last.1).finish) :
    Toolpath.lastPoint? (n.traceChain settings anchor (chain ++ [last])) =
      some (n.vertex anchor last.1.finish) := by
  have hcuts (front : Toolpath) : Toolpath.lastPoint?
      (front ++ (chain ++ [last]).flatMap fun l => n.traceSegment settings anchor l.1) =
        some (n.vertex anchor last.1.finish) := by
    simp [lastPoint?_traceSegment h]
  cases chain with
  | nil => exact hcuts [_]
  | cons link rest => exact hcuts [_]

theorem trace_eq_ok_iff : n.trace settings anchor = .ok t ↔
    n.Valid ∧ t = (linkChains n.segments).flatMap (n.traceChain settings anchor) := by
  rw [← fault?_eq_none_iff, trace]
  cases n.fault? with
  | none => simp [eq_comm]
  | some fault => simp

/-- A network is entered where its first segment starts. -/
theorem firstPoint?_trace {first : Segment} {rest : List Segment}
    (htrace : n.trace settings anchor = .ok t) (hfirst : n.segments = first :: rest) :
    ∃ p, n.vertices[first.start]? = some p ∧
      t.firstPoint? = some ⟨anchor.x + p.x, anchor.y + p.y⟩ := by
  obtain ⟨hvalid, rfl⟩ := trace_eq_ok_iff.1 htrace
  obtain ⟨p, hp, hstart⟩ := exists_vertex_eq anchor (hvalid first (hfirst ▸ List.mem_cons_self)).1
  obtain ⟨chain, chains, heq⟩ := exists_linkChains_eq_cons hfirst
  refine ⟨p, hp, ?_⟩
  rw [heq, ← hstart]
  rfl

/-- A network is left where the last segment of its last chain ends. -/
theorem lastPoint?_trace {last : Segment} {before : List (List Nat)} {done : List Nat} {index : Nat}
    (htrace : n.trace settings anchor = .ok t)
    (hchains : chains n.segments = before ++ [done ++ [index]])
    (hlast : n.segments[index]? = some last)
    (hcurve : last.isCurved = true →
      (n.curve anchor last).sample 1 = (n.curve anchor last).finish) :
    ∃ p, n.vertices[last.finish]? = some p ∧
      t.lastPoint? = some ⟨anchor.x + p.x, anchor.y + p.y⟩ := by
  obtain ⟨hvalid, rfl⟩ := trace_eq_ok_iff.1 htrace
  obtain ⟨p, hp, hfinish⟩ := exists_vertex_eq anchor (hvalid last (List.mem_of_getElem? hlast)).2
  obtain ⟨chains, chain, heq⟩ := exists_linkChains_eq_concat hchains hlast
  refine ⟨p, hp, ?_⟩
  rw [heq, List.flatMap_append, List.flatMap_singleton, Toolpath.lastPoint?_append,
    lastPoint?_traceChain hcurve, hfinish]
  rfl

end Network

/-! ## Shapes -/

namespace Shape

variable {shape : Shape} {ancestors : List Ancestor}

/-- A vector without segments is entered and left at its corner. -/
theorem routeAnchors_of_segments_eq_nil (a : Attributes) {network? : Option Network}
    (paths : List String) (h : ∀ n ∈ network?, n.segments = []) :
    (leaf a (.vector network? paths)).routeAnchors ancestors =
      (a.anchor ancestors, a.anchor ancestors) := by
  cases network? with
  | none => rfl
  | some n => simp [routeAnchors, Figure.routeAnchors, Network.isEmpty, h n rfl]

/-- Lines and boxes begin and end at the anchors. -/
theorem IsPlain.ends (h : shape.IsPlain) (ht : shape.compile settings ancestors = .ok t) :
    t.firstPoint? = some (shape.routeAnchors ancestors).1 ∧
      t.lastPoint? = some (shape.routeAnchors ancestors).2 := by
  cases h with
  | container a kind =>
    obtain ⟨-, rfl⟩ := compile_container_eq_ok_iff.1 ht
    exact ⟨rfl, rfl⟩
  | @vector a network? h =>
    obtain ⟨-, htrace⟩ := compile_leaf_eq_ok_iff.1 ht
    have hnetwork : network?.filter (!·.isEmpty) = none :=
      Option.filter_eq_none_iff.2 fun n hn => by simp [Network.isEmpty, h n hn]
    rw [Figure.trace, Figure.traceVector, hnetwork] at htrace
    obtain rfl := Except.ok.inj htrace
    rw [routeAnchors_of_segments_eq_nil a [] h]
    exact ⟨rfl, rfl⟩
  | _ =>
    obtain ⟨-, htrace⟩ := compile_leaf_eq_ok_iff.1 ht
    obtain rfl := Except.ok.inj htrace
    exact ⟨rfl, rfl⟩

/-- A vector with segments is entered at its first vertex and left at its last one. -/
theorem routeAnchors_of_vertex (a : Attributes) {n : Network} (paths : List String) {index : Nat}
    {p : Point} (hn : n.segments ≠ []) (hp : n.vertices[index]? = some p) :
    (index = 0 → ((leaf a (.vector (some n) paths)).routeAnchors ancestors).1 =
      ⟨(a.anchor ancestors).x + p.x, (a.anchor ancestors).y + p.y⟩) ∧
    (index + 1 = n.vertices.length →
      ((leaf a (.vector (some n) paths)).routeAnchors ancestors).2 =
        ⟨(a.anchor ancestors).x + p.x, (a.anchor ancestors).y + p.y⟩) := by
  have hne : n.vertices ≠ [] := List.ne_nil_of_mem (List.mem_of_getElem? hp)
  have hfirst := List.head?_eq_some_head hne
  have hlast := List.getLast?_eq_some_getLast hne
  simp only [routeAnchors, Figure.routeAnchors, Network.isEmpty, hfirst, hlast]
  grind [Point.shift, Point.offset]

/-- A vector with segments is compiled to the toolpath of its network behind two comments. -/
theorem exists_trace_of_compile {a : Attributes} {n : Network} {paths : List String}
    (hn : n.segments ≠ [])
    (ht : (leaf a (.vector (some n) paths)).compile settings ancestors = .ok t) :
    ∃ u, n.trace settings (a.anchor ancestors) = .ok u ∧ t.firstPoint? = u.firstPoint? ∧
      t.lastPoint? = u.lastPoint? := by
  obtain ⟨-, htrace⟩ := compile_leaf_eq_ok_iff.1 ht
  have hnetwork : (some n).filter (!·.isEmpty) = some n := by simp [Network.isEmpty, hn]
  rw [Figure.trace, Figure.traceVector, hnetwork] at htrace
  obtain ⟨named, hnamed, rfl⟩ := exists_ok_of_map_eq_ok htrace
  obtain ⟨u, hu, rfl⟩ := exists_ok_of_map_eq_ok hnamed
  simp only [Toolpath.firstPoint?_eq_head?, Toolpath.lastPoint?_eq_getLast?]
  exact ⟨u, hu, rfl, rfl⟩

/-- A compiled vector with segments is entered and left as its network is. -/
theorem runsBetween_compile {a : Attributes} {n : Network} {paths : List String}
    (hn : n.segments ≠ [])
    (ht : (leaf a (.vector (some n) paths)).compile settings ancestors = .ok t) :
    n.RunsBetween (a.anchor ancestors)
      ((leaf a (.vector (some n) paths)).routeAnchors ancestors) t := by
  obtain ⟨u, hu, hfirst?, hlast?⟩ := exists_trace_of_compile hn ht
  constructor
  · intro first rest hfirst
    rw [hfirst?]
    exact Network.firstPoint?_trace hu hfirst
  · intro first rest hfirst hzero
    obtain ⟨p, hp, hpoint⟩ := Network.firstPoint?_trace hu hfirst
    rw [hfirst?, hpoint, (routeAnchors_of_vertex a paths hn hp).1 hzero]
  · intro before done index last hchains hlast hcurve
    rw [hlast?]
    exact Network.lastPoint?_trace hu hchains hlast hcurve
  · intro before done index last hchains hlast hcurve hvertex
    obtain ⟨p, hp, hpoint⟩ := Network.lastPoint?_trace hu hchains hlast hcurve
    rw [hlast?, hpoint, (routeAnchors_of_vertex a paths hn hp).2 hvertex]

/-- A shape that is not open is entered and left at one point. -/
theorem routeAnchors_of_not_isOpen (h : ¬ shape.IsOpen) (ancestors : List Ancestor) :
    (shape.routeAnchors ancestors).1 = (shape.routeAnchors ancestors).2 := by
  cases shape with
  | container a kind children => rfl
  | leaf a figure =>
    cases figure with
    | line => exact absurd (.line a) h
    | vector network? paths =>
      have hsegments : ∀ n ∈ network?, n.segments = [] := by
        rintro n rfl
        by_contra hn
        exact h (.network a paths hn)
      rw [routeAnchors_of_segments_eq_nil a paths hsegments]
    | _ => rfl

end Shape

namespace Block

variable {b b' : Block}

theorem Routed.eq_of_not_isReversible (h : b.Routed b') (hb : b.isReversible = false) : b' = b := by
  cases h with
  | kept => rfl
  | turned allowed _ => simp [hb] at allowed

/-- The router puts out a block that may not be turned round as it is. -/
theorem mem_optimizeTravel (hb : b.isReversible = false) (start : Point) {blocks : List Block}
    (hmem : b ∈ blocks) : b ∈ optimizeTravel start blocks := by
  obtain ⟨order, hperm, hrouted⟩ := exists_perm_optimizeTravel start blocks
  obtain ⟨i, hi, rfl⟩ := List.getElem_of_mem (hperm.mem_iff.2 hmem)
  obtain ⟨hlength, hget⟩ := List.forall₂_iff_get.1 hrouted
  have hkept : (optimizeTravel start blocks)[i] = order[i] :=
    (hget i hi (hlength ▸ hi)).eq_of_not_isReversible hb
  exact hkept ▸ List.getElem_mem _

end Block

/-- Lines and boxes begin and end at their anchors, and networks at the ends of their first and
last segments, which are the anchors if they are the first and the last vertex. A shape that is
not open is never traced backwards. -/
theorem Shape.routeAnchors_compile (settings : LaserSettings) (shape : Shape)
    (ancestors : List Ancestor) :
    (∀ t, shape.compile settings ancestors = .ok t → shape.IsPlain →
      t.firstPoint? = some (shape.routeAnchors ancestors).1 ∧
        t.lastPoint? = some (shape.routeAnchors ancestors).2) ∧
    (∀ t a n paths, shape.compile settings ancestors = .ok t →
      shape = .leaf a (.vector (some n) paths) → n.segments ≠ [] →
        n.RunsBetween (a.anchor ancestors) (shape.routeAnchors ancestors) t) ∧
    (¬ shape.IsOpen → ∀ id label t,
      (Block.ofShape id label shape ancestors t).isReversible = false ∧
        ∀ start blocks, Block.ofShape id label shape ancestors t ∈ blocks →
          Block.ofShape id label shape ancestors t ∈ optimizeTravel start blocks) := by
  refine ⟨fun t ht hplain => hplain.ends ht, ?_, ?_⟩
  · rintro t a n paths ht rfl hn
    exact runsBetween_compile hn ht
  · intro hopen id label t
    have hclosed := Block.isReversible_of_closed
      (b := Block.ofShape id label shape ancestors t) (routeAnchors_of_not_isOpen hopen ancestors)
    exact ⟨hclosed, fun start blocks hmem => Block.mem_optimizeTravel hclosed start hmem⟩

/-- A hook that begins at its first vertex and ends with a curve at its last one. Below a container
that lies nowhere, an empty frame begins and ends where its anchors are, and it is never traced
backwards. -/
theorem Shape.routeAnchors_compile_of_hook :
    let size : Attributes := ⟨"", 1, 2, 3, 4, none⟩
    let hook : Network := ⟨[⟨0, 0⟩, ⟨4, 0⟩, ⟨4, 3⟩],
      [⟨0, 1, none, none⟩, ⟨1, 2, some ⟨1, 0⟩, none⟩]⟩
    let nowhere : List Ancestor := [⟨"group", some ⟨Float.nan, 0⟩⟩]
    (∃ t, (leaf size (.vector (some hook) [])).compile {} [] = .ok t ∧
      t.firstPoint? = some ⟨1, 2⟩ ∧ t.lastPoint? = some ⟨5, 5⟩) ∧
    (∃ t, (container size .frame []).compile {} nowhere = .ok t ∧
      t.firstPoint? = some ⟨Float.nan, 2⟩ ∧ t.lastPoint? = some ⟨Float.nan, 2⟩) ∧
    ∀ t, (Block.ofShape 0 "" (.container size .frame []) nowhere t).isReversible = false := by
  intro size hook nowhere
  obtain ⟨-, hnetwork, -⟩ := routeAnchors_compile {} (leaf size (.vector (some hook) [])) []
  obtain ⟨hplain, -, hclosed⟩ := routeAnchors_compile {} (container size .frame []) nowhere
  have hcheck : size.check = .ok () := by decide +kernel
  refine ⟨?_, ?_, fun t => (hclosed nofun 0 "" t).1⟩
  · obtain ⟨t, ht⟩ : ∃ t, (leaf size (.vector (some hook) [])).compile {} [] = .ok t :=
      ⟨_, compile_leaf_eq_ok_iff.2 ⟨hcheck, rfl⟩⟩
    have hruns := hnetwork t size hook [] ht rfl (by simp [hook])
    refine ⟨t, ht, ?_, ?_⟩
    · rw [hruns.entered _ _ rfl rfl]
      decide +kernel
    · rw [hruns.left [] [0] 1 _ (by decide +kernel) rfl (by decide +kernel) rfl]
      decide +kernel
  · obtain ⟨t, ht⟩ : ∃ t, (container size .frame []).compile {} nowhere = .ok t :=
      ⟨_, compile_container_eq_ok_iff.2 ⟨hcheck, rfl⟩⟩
    obtain ⟨hfirst, hlast⟩ := hplain t ht (.container size .frame)
    have hanchor : size.anchor nowhere = ⟨Float.nan, 2⟩ := by decide +kernel
    exact ⟨t, ht, hfirst.trans (congrArg some hanchor), hlast.trans (congrArg some hanchor)⟩

end LaserPath
