import LaserPath.Proofs.Decimal.Order
import LaserPath.Proofs.Route.Conservation
import Mathlib.Data.List.Nodup
import Mathlib.Order.Fin.Basic

/-!
# Every step of the router is greedy

A block can be approached at its start and, if it may be turned round, at its end. The router
goes to the nearest approach to a block that is not visited yet; among several it takes the one
that comes first. Distances that are infinite or undefined attract nothing, and where no other
is left the first block is next, in its own direction.

## Main definitions

* `FirstNearest` — the candidate that the scan of the router finds.
* `Approach` — a block of a list, to be entered at its start or at its end.
* `Approach.IsNext` — the approach that is next, said without the scan.
* `Greedy`, `legs` — routes all of whose steps are greedy, and the distances between their blocks.

## Main statements

* `nearest_cases` — the scan finds the first of the nearest candidates.
* `isNext_of_standsFor` — what the scan finds is next.
* `exists_greedy_optimizeTravel` — the router's order, its directions and its travel.
-/

namespace LaserPath

/-! ## The scan -/

/-- Candidates before `c` are farther or at no distance, and none behind it is nearer. -/
def FirstNearest (cs : List Candidate) (c : Candidate) : Prop :=
  ∃ before after, cs = before ++ c :: after ∧
    (∀ b ∈ before, ¬ b.distance ≤ c.distance) ∧ ∀ b ∈ after, ¬ b.distance < c.distance

namespace FirstNearest

variable {cs : List Candidate} {c d : Candidate}

theorem mem (h : FirstNearest cs c) : c ∈ cs := by
  obtain ⟨before, after, rfl, -, -⟩ := h
  simp

theorem not_lt (h : FirstNearest cs c) : ∀ b ∈ cs, ¬ b.distance < c.distance := by
  obtain ⟨before, after, rfl, hb, ha⟩ := h
  simp only [List.forall_mem_append, List.forall_mem_cons]
  exact ⟨fun b hm => mt Binary64.le_of_lt (hb b hm), Binary64.lt_irrefl _, ha⟩

theorem cons (h : FirstNearest cs c) (hd : ¬ d.distance ≤ c.distance) :
    FirstNearest (d :: cs) c := by
  obtain ⟨before, after, rfl, hb, ha⟩ := h
  exact ⟨d :: before, after, rfl, List.forall_mem_cons.2 ⟨hd, hb⟩, ha⟩

end FirstNearest

/-- The scan keeps what it begins with if no candidate is strictly nearer, and finds the first of
the nearest candidates otherwise. -/
theorem foldl_closer_cases (best : Candidate) (cs : List Candidate) :
    (cs.foldl Candidate.closer best = best ∧ ∀ c ∈ cs, ¬ c.distance < best.distance) ∨
      ((cs.foldl Candidate.closer best).distance < best.distance ∧
        FirstNearest cs (cs.foldl Candidate.closer best)) := by
  induction cs generalizing best with
  | nil => simp
  | cons c rest ih =>
    rw [List.foldl_cons, Candidate.closer]
    split
    · next hc =>
      rcases ih c with ⟨he, hn⟩ | ⟨hlt, hf⟩
      · rw [he]
        exact .inr ⟨hc, [], rest, rfl, by simp, hn⟩
      · exact .inr ⟨Binary64.lt_trans hlt hc, hf.cons (Binary64.not_le_of_lt hlt)⟩
    · next hc =>
      rcases ih best with ⟨he, hn⟩ | ⟨hlt, hf⟩
      · exact .inl ⟨he, List.forall_mem_cons.2 ⟨hc, hn⟩⟩
      · exact .inr ⟨hlt, hf.cons fun hle => hc (Binary64.lt_of_le_of_lt hle hlt)⟩

theorem place_farthest : place? farthest = some Place.top := rfl

theorem lt_farthest_of_lt {x y : Float} (h : x < y) : x < farthest := by
  obtain ⟨p, q, hp, hq, hlt⟩ := lt_iff_place.1 h
  have hle : q ≤ Place.top := Place.le_top_of_ofUnpacked? hq
  exact lt_iff_place.2 ⟨p, _, hp, place_farthest, hlt.trans_le hle⟩

theorem nearest_cases (pen : Point) (left : List Waiting) :
    (nearest pen left = ⟨0, false, farthest⟩ ∧
        ∀ c ∈ candidates pen left, ¬ c.distance < farthest) ∨
      ((nearest pen left).distance < farthest ∧
        FirstNearest (candidates pen left) (nearest pen left)) :=
  foldl_closer_cases ⟨0, false, farthest⟩ (candidates pen left)

/-! ## The candidates -/

def Waiting.anchor (w : Waiting) (backwards : Bool) : Point :=
  if backwards then w.block.finish else w.block.start

theorem mem_candidates_iff {pen : Point} {left : List Waiting} {c : Candidate} :
    c ∈ candidates pen left ↔ ∃ w, left[c.index]? = some w ∧
      (c.backwards = true → w.reversible = true) ∧
        c.distance = pen.distance (w.anchor c.backwards) := by
  obtain ⟨index, backwards, distance⟩ := c
  simp only [candidates, List.mem_flatMap, Prod.exists, List.mem_zipIdx_iff_getElem?,
    Waiting.candidates, Waiting.anchor, List.mem_cons]
  constructor
  · rintro ⟨w, i, hw, h⟩
    refine ⟨w, ?_⟩
    grind
  · rintro ⟨w, hw, h⟩
    refine ⟨w, index, hw, ?_⟩
    cases backwards <;> grind

/-- The block of `c` is earlier than that of `d`, or `c` is the start of a block and `d` its end. -/
def Candidate.Precedes (c d : Candidate) : Prop :=
  c.index < d.index ∨ c.index = d.index ∧ c.backwards = false ∧ d.backwards = true

theorem pairwise_candidates (pen : Point) (left : List Waiting) :
    (candidates pen left).Pairwise Candidate.Precedes := by
  have hindex : left.zipIdx.Pairwise fun a b => a.2 < b.2 := by
    rw [← List.pairwise_map, List.zipIdx_map_snd]
    exact List.pairwise_lt_range' 1
  rw [candidates, List.pairwise_flatMap]
  constructor
  · rintro ⟨w, index⟩ -
    simp only [Waiting.candidates]
    split <;> simp [Candidate.Precedes]
  · refine hindex.imp fun {a b} hlt c hc d hd => .inl ?_
    grind [Waiting.candidates]

/-- A candidate that is as near as the first of the nearest ones is this one or comes behind it. -/
theorem FirstNearest.eq_or_precedes {pen : Point} {left : List Waiting} {c d : Candidate}
    (h : FirstNearest (candidates pen left) c) (hd : d ∈ candidates pen left)
    (heq : (d.distance == c.distance) = true) : d = c ∨ c.Precedes d := by
  obtain ⟨before, after, hcs, hb, -⟩ := h
  have hpair := pairwise_candidates pen left
  rw [hcs, List.pairwise_append, List.pairwise_cons] at hpair
  rw [hcs, List.mem_append, List.mem_cons] at hd
  rcases hd with hd | rfl | hd
  · exact absurd (Binary64.le_of_beq heq) (hb d hd)
  · exact .inl rfl
  · exact .inr (hpair.2.1.1 d hd)

/-! ## Approaches -/

/-- A block of a list, to be entered at its start or, where it may be turned round, at its end. -/
structure Approach (blocks : List Block) where
  position : Fin blocks.length
  backwards : Bool
  allowed : backwards = true → blocks[position].isReversible = true

theorem Block.isSome_reversed? {b : Block} (h : b.isReversible = true) :
    b.reversed?.isSome = true := by
  rw [isReversible, Bool.and_eq_true] at h
  rw [reversed?, Option.isSome_map]
  exact h.2

theorem Block.start_of_reversed? {b b' : Block} (h : b.reversed? = some b') :
    b'.start = b.finish := by
  obtain ⟨t, -, rfl⟩ := Option.map_eq_some_iff.1 h
  rfl

theorem Block.finish_of_reversed? {b b' : Block} (h : b.reversed? = some b') :
    b'.finish = b.start := by
  obtain ⟨t, -, rfl⟩ := Option.map_eq_some_iff.1 h
  rfl

namespace Approach

variable {blocks : List Block}

def block (a : Approach blocks) : Block := blocks[a.position]

/-- The point at which the block is entered. -/
def anchor (a : Approach blocks) : Point :=
  if a.backwards then a.block.finish else a.block.start

/-- The block as it is put out, turned round if it is entered at its end. -/
def placed (a : Approach blocks) : Block :=
  if h : a.backwards = true then a.block.reversed?.get (Block.isSome_reversed? (a.allowed h))
  else a.block

/-- Approaches are ordered by the positions of their blocks, the start of a block before its
end. -/
def Precedes (a c : Approach blocks) : Prop :=
  a.position < c.position ∨ a.position = c.position ∧ a.backwards = false ∧ c.backwards = true

theorem Precedes.le {a c : Approach blocks} (h : a.Precedes c) : a.position ≤ c.position := by
  rcases h with h | ⟨h, -⟩
  · exact h.le
  · exact h.le

def Unvisited (visited : List (Approach blocks)) (a : Approach blocks) : Prop :=
  a.position ∉ visited.map position

/-- The approach `a` is next behind those in `visited`, when the pen is at the given point. -/
structure IsNext (pen : Point) (visited : List (Approach blocks)) (a : Approach blocks) : Prop where
  unvisited : a.Unvisited visited
  /-- The block put out is entered at the anchor. -/
  entered : a.placed.start = a.anchor
  /-- No approach is strictly nearer. -/
  least : ∀ c : Approach blocks, c.Unvisited visited →
    ¬ pen.distance c.anchor < pen.distance a.placed.start
  /-- Of the approaches at the least finite distance this is the first. -/
  first : (pen.distance a.placed.start).isFinite = true → ∀ c : Approach blocks,
    c.Unvisited visited → (pen.distance c.anchor == pen.distance a.placed.start) = true →
      c = a ∨ a.Precedes c
  /-- If no distance is below infinity, the first block is taken as it is. -/
  fallback : (∀ c : Approach blocks, c.Unvisited visited →
    ¬ pen.distance c.anchor < farthest) → a.backwards = false ∧
      ∀ c : Approach blocks, c.Unvisited visited → a.position ≤ c.position

theorem start_placed (a : Approach blocks) : a.placed.start = a.anchor := by
  unfold placed anchor
  split
  · exact Block.start_of_reversed? (Option.some_get _).symm
  · rfl

end Approach

/-- A route from the pen on, behind approaches that are visited already, all of whose steps go to
the approach that is next. -/
inductive Greedy {blocks : List Block} :
    Point → List (Approach blocks) → List (Approach blocks) → Prop where
  | nil {pen : Point} {visited : List (Approach blocks)} : Greedy pen visited []
  | cons {pen : Point} {visited route : List (Approach blocks)} {a : Approach blocks}
    (next : a.IsNext pen visited) (rest : Greedy a.placed.finish (visited ++ [a]) route) :
    Greedy pen visited (a :: route)

/-- The distances from the pen to the first block of a route and from block to block. -/
def legs {blocks : List Block} (pen : Point) : List (Approach blocks) → List Float
  | [] => []
  | a :: rest => pen.distance a.anchor :: legs a.placed.finish rest

section

variable {blocks : List Block}

theorem travelFrom_placed (pen : Point) (total : Float) (route : List (Approach blocks)) :
    travelFrom pen total (route.map Approach.placed) = (legs pen route).foldl (· + ·) total := by
  induction route generalizing pen total with
  | nil => rfl
  | cons a rest ih => rw [List.map_cons, travelFrom, ih, a.start_placed, legs, List.foldl_cons]

/-! ## The walk -/

/-- The positions of the blocks that are left, in the order of the blocks. -/
def unvisited (visited : List (Approach blocks)) : List (Fin blocks.length) :=
  (List.finRange blocks.length).filter (· ∉ visited.map Approach.position)

theorem mem_unvisited {visited : List (Approach blocks)} {i : Fin blocks.length} :
    i ∈ unvisited visited ↔ i ∉ visited.map Approach.position := by
  simp [unvisited]

theorem pairwise_unvisited (visited : List (Approach blocks)) :
    (unvisited visited).Pairwise (· < ·) :=
  (List.pairwise_lt_finRange _).filter _

theorem eraseIdx_unvisited {visited : List (Approach blocks)} {a : Approach blocks} {i : Nat}
    (hi : i < (unvisited visited).length) (ha : (unvisited visited)[i] = a.position) :
    (unvisited visited).eraseIdx i = unvisited (visited ++ [a]) := by
  have hnodup : (unvisited visited).Nodup := (pairwise_unvisited visited).imp ne_of_lt
  rw [← hnodup.erase_getElem i hi, hnodup.erase_eq_filter, ha]
  simp only [unvisited, List.filter_filter]
  congr 1
  funext j
  grind

/-- A block that waits, with the answer to whether it may be turned round. -/
def waiting (i : Fin blocks.length) : Waiting := ⟨blocks[i], blocks[i].isReversible⟩

/-- The blocks that are left, as the walk has them. -/
def remaining (visited : List (Approach blocks)) : List Waiting := (unvisited visited).map waiting

theorem remaining_nil (blocks : List Block) :
    remaining ([] : List (Approach blocks)) = blocks.map fun b => ⟨b, b.isReversible⟩ := by
  conv_rhs => rw [← List.map_getElem_finRange blocks, List.map_map]
  simp [remaining, unvisited, waiting, Function.comp_def]

theorem remaining_eq_nil_iff {visited : List (Approach blocks)} :
    remaining visited = [] ↔ unvisited visited = [] :=
  List.map_eq_nil_iff

/-- A candidate of the scan stands for an approach. -/
structure Candidate.StandsFor (visited : List (Approach blocks)) (c : Candidate)
    (a : Approach blocks) : Prop where
  position : (unvisited visited)[c.index]? = some a.position
  backwards : c.backwards = a.backwards

namespace Candidate.StandsFor

variable {visited : List (Approach blocks)} {c d : Candidate} {a b : Approach blocks} {pen : Point}

theorem unvisited (h : c.StandsFor visited a) : a.Unvisited visited :=
  mem_unvisited.1 (List.mem_of_getElem? h.position)

theorem eq (h : c.StandsFor visited a) (h' : c.StandsFor visited b) : a = b := by
  obtain ⟨i, v, ha⟩ := a
  obtain ⟨j, w, hb⟩ := b
  obtain rfl : i = j := Option.some.inj (h.position.symm.trans h'.position)
  obtain rfl : v = w := h.backwards.symm.trans h'.backwards
  rfl

theorem precedes (h : c.StandsFor visited a) (h' : d.StandsFor visited b) (hlt : c.Precedes d) :
    a.Precedes b := by
  obtain ⟨hc, hcp⟩ := List.getElem?_eq_some_iff.1 h.position
  obtain ⟨hd, hdp⟩ := List.getElem?_eq_some_iff.1 h'.position
  have hpair := List.pairwise_iff_getElem.1 (pairwise_unvisited visited)
  rcases hlt with hlt | ⟨heq, hcb, hdb⟩
  · exact .inl (hcp ▸ hdp ▸ hpair _ _ hc hd hlt)
  · refine .inr ⟨?_, h.backwards ▸ hcb, h'.backwards ▸ hdb⟩
    rw [← hcp, ← hdp]
    simp only [heq]

theorem eraseIdx (h : c.StandsFor visited a) :
    (LaserPath.unvisited visited).eraseIdx c.index = LaserPath.unvisited (visited ++ [a]) := by
  obtain ⟨hc, hcp⟩ := List.getElem?_eq_some_iff.1 h.position
  exact eraseIdx_unvisited hc hcp

theorem remaining_eraseIdx (h : c.StandsFor visited a) :
    remaining (visited ++ [a]) = (remaining visited).eraseIdx c.index := by
  rw [remaining, remaining, List.eraseIdx_map, h.eraseIdx]

theorem getElem?_remaining (h : c.StandsFor visited a) :
    (remaining visited)[c.index]? = some (waiting a.position) := by
  rw [remaining, List.getElem?_map, h.position]
  rfl

theorem block (h : c.StandsFor visited a) (w : Waiting) :
    c.block ((remaining visited).getD c.index w) = a.placed := by
  rw [List.getD_eq_getElem?_getD, h.getElem?_remaining, Candidate.block, h.backwards,
    Approach.placed]
  split
  · next hb => exact (Option.get_eq_getD _).symm
  · rfl

theorem distance (h : c.StandsFor visited a)
    (hc : c ∈ candidates pen (remaining visited)) :
    c.distance = pen.distance a.anchor := by
  obtain ⟨w, hw, -, hd⟩ := mem_candidates_iff.1 hc
  obtain rfl := Option.some.inj (h.getElem?_remaining.symm.trans hw)
  rw [hd, h.backwards]
  rfl

end Candidate.StandsFor

section Step

variable {pen : Point} {visited : List (Approach blocks)}

/-- Every approach to a block that is left is a candidate of the scan. -/
theorem exists_candidate {a : Approach blocks} (pen : Point) (h : a.Unvisited visited) :
    ∃ c ∈ candidates pen (remaining visited), c.StandsFor visited a := by
  obtain ⟨i, hi⟩ := List.mem_iff_getElem?.1 (mem_unvisited.2 h)
  have hs : Candidate.StandsFor visited ⟨i, a.backwards, pen.distance a.anchor⟩ a := ⟨hi, rfl⟩
  exact ⟨_, mem_candidates_iff.2 ⟨_, hs.getElem?_remaining, a.allowed, rfl⟩, hs⟩

theorem exists_standsFor {c : Candidate} (hc : c.index < (remaining visited).length)
    (hr : c.backwards = true →
      ∃ w, (remaining visited)[c.index]? = some w ∧ w.reversible = true) :
    ∃ a, c.StandsFor visited a := by
  rw [remaining, List.length_map] at hc
  obtain ⟨i, hi⟩ : ∃ i, (unvisited visited)[c.index]? = some i :=
    ⟨_, List.getElem?_eq_getElem hc⟩
  refine ⟨⟨i, c.backwards, fun hb => ?_⟩, hi, rfl⟩
  obtain ⟨w, hw, hrev⟩ := hr hb
  rw [remaining, List.getElem?_map, hi] at hw
  obtain rfl := Option.some.inj hw
  exact hrev

/-- What the scan finds is an approach to a block that is left. -/
theorem exists_approach (pen : Point) (h : remaining visited ≠ []) :
    ∃ a, (nearest pen (remaining visited)).StandsFor visited a :=
  exists_standsFor (nearest_index_lt pen h) reversible_of_nearest

/-- The approach that the scan finds is next. -/
theorem isNext_of_standsFor {a : Approach blocks}
    (h : (nearest pen (remaining visited)).StandsFor visited a) : a.IsNext pen visited := by
  rcases nearest_cases pen (remaining visited) with ⟨he, hn⟩ | ⟨hlt, hf⟩
  · -- no distance is below infinity
    have hn : ∀ c : Approach blocks, c.Unvisited visited →
        ¬ pen.distance c.anchor < farthest := by
      intro c hc
      obtain ⟨cand, hm, hs⟩ := exists_candidate pen hc
      exact hs.distance hm ▸ hn cand hm
    rw [he] at h
    refine ⟨h.unvisited, a.start_placed, ?_, ?_, fun _ => ⟨h.backwards.symm, ?_⟩⟩
    · exact fun c hc hlt => hn c hc (lt_farthest_of_lt hlt)
    · rw [a.start_placed]
      exact fun hfin => absurd (Binary64.lt_infinity_of_isFinite hfin) (hn a h.unvisited)
    · intro c hc
      obtain ⟨cand, -, hs⟩ := exists_candidate pen hc
      rcases Nat.eq_zero_or_pos cand.index with hz | hpos
      · have hp := h.position
        rw [← hz, hs.position] at hp
        exact (Option.some.inj hp).ge
      · exact (h.precedes hs (.inl hpos)).le
  · have ha := h.distance hf.mem
    refine ⟨h.unvisited, a.start_placed, ?_, ?_, ?_⟩
    · intro c hc
      obtain ⟨cand, hm, hs⟩ := exists_candidate pen hc
      rw [a.start_placed, ← ha, ← hs.distance hm]
      exact hf.not_lt cand hm
    · intro _ c hc heq
      obtain ⟨cand, hm, hs⟩ := exists_candidate pen hc
      rw [a.start_placed, ← ha, ← hs.distance hm] at heq
      rcases hf.eq_or_precedes hm heq with rfl | hp
      · exact .inl (hs.eq h)
      · exact .inr (h.precedes hs hp)
    · intro hn
      exact absurd (ha ▸ hlt) (hn a h.unvisited)

end Step

/-- The walk is a greedy route through the blocks that are left. -/
theorem exists_greedy_walk (pen : Point) (visited : List (Approach blocks)) :
    ∃ route : List (Approach blocks), (route.map Approach.position).Perm (unvisited visited) ∧
      walk pen (remaining visited) = route.map Approach.placed ∧ Greedy pen visited route := by
  generalize hleft : remaining visited = left
  fun_induction walk pen left generalizing visited with
  | case1 =>
    rw [remaining_eq_nil_iff.1 hleft]
    exact ⟨[], .refl _, rfl, .nil⟩
  | case2 pen first rest next block ih =>
    obtain ⟨a, ha⟩ := exists_approach pen (hleft ▸ List.cons_ne_nil first rest)
    have hnext := isNext_of_standsFor ha
    have hblock := ha.block first
    have herase := ha.remaining_eraseIdx
    obtain ⟨hi, hpos⟩ := List.getElem?_eq_some_iff.1 ha.position
    have hperm := List.getElem_cons_eraseIdx_perm hi
    rw [hpos, ha.eraseIdx] at hperm
    rw [hleft] at hblock herase
    obtain ⟨route, hp, hw, hg⟩ := ih (visited ++ [a]) herase
    refine ⟨a :: route, (hp.cons _).trans hperm, ?_, .cons hnext ?_⟩
    · rw [List.map_cons, ← hw, ← hblock]
    · rwa [← hblock]

end

/-- The router goes to the nearest anchor in every step: its order is a greedy route from the
start through all blocks, and the travel is the sum of the distances of that route. -/
theorem exists_greedy_optimizeTravel (start : Point) (blocks : List Block) :
    ∃ route : List (Approach blocks),
      (route.map Approach.position).Perm (List.finRange blocks.length) ∧
      optimizeTravel start blocks = route.map Approach.placed ∧
      Greedy start [] route ∧
      travelDistance start (optimizeTravel start blocks) = (legs start route).foldl (· + ·) 0 := by
  obtain ⟨route, hp, hw, hg⟩ := exists_greedy_walk start ([] : List (Approach blocks))
  rw [remaining_nil] at hw
  refine ⟨route, ?_, hw, hg, ?_⟩
  · simpa [unvisited] using hp
  · rw [optimizeTravel, hw, travelDistance, travelFrom_placed]

end LaserPath
