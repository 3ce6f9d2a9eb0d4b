import LaserPath.Proofs.Trace.Outline
import Mathlib.Order.Bounds.Basic

/-!
# The chains of a network

The pen takes up segments in the order of their positions. A chain begins with the lowest position
that no chain has yet, and goes on with the lowest one that is left and starts where the chain has
come to, until there is none. These rules leave no choice, so they describe the chains completely:
no other lists of positions follow them.

## Main definitions

* `Network.Chained` — the rules that chains follow, each said of the whole list of chains.
* `Network.GoesOn`, `Network.Covers` — how one chain goes on and how chains follow each other when
  some positions are taken.

## Main statements

* `Network.covers_cutChains` — cutting links into chains follows the rules step by step.
* `Network.chained_iff` — the chains of a network are the only lists that follow the rules.
-/

namespace LaserPath.Network

variable {segments : List Segment} {taken : List Nat}

/-- The segment at a position starts at a vertex. -/
def StartsAt (segments : List Segment) (vertex index : Nat) : Prop :=
  ∃ s, segments[index]? = some s ∧ s.start = vertex

/-- The segment at the position `j` starts where that at the position `i` ends. -/
def Linked (segments : List Segment) (i j : Nat) : Prop :=
  ∃ s, segments[i]? = some s ∧ StartsAt segments s.finish j

/-- The rules that chains of segments follow, the chains as positions of their segments. -/
structure Chained (segments : List Segment) (chains : List (List Nat)) : Prop where
  /-- Every position stands in one chain, and there once. -/
  once : chains.flatten.Perm (List.range segments.length)
  nonempty : [] ∉ chains
  /-- A segment of a chain starts where the one before it ends. -/
  linked : ∀ chain ∈ chains, chain.IsChain (Linked segments)
  /-- A chain begins with the lowest position that is in no earlier chain, -/
  first : ∀ before first rest after, chains = before ++ (first :: rest) :: after →
    IsLeast {i | i < segments.length ∧ i ∉ before.flatten} first
  /-- so chains begin with ever higher positions. -/
  firsts : (chains.filterMap List.head?).Pairwise (· < ·)
  /-- A chain goes on with the lowest position that starts where it has come to, among those that
  are neither in an earlier chain nor earlier in this one. -/
  next : ∀ before done last s next rest after,
    chains = before ++ (done ++ last :: next :: rest) :: after → segments[last]? = some s →
      IsLeast {i | StartsAt segments s.finish i ∧ i ∉ before.flatten ∧ i ∉ done ++ [last]} next
  /-- Where a chain ends, no segment of a later chain starts. -/
  last : ∀ before done last s after, chains = before ++ (done ++ [last]) :: after →
    segments[last]? = some s → ∀ i ∈ after.flatten, ¬ StartsAt segments s.finish i

/-- The positions with which a chain goes on from a vertex, when some are taken. -/
inductive GoesOn (segments : List Segment) : List Nat → Nat → List Nat → Prop where
  | stop {taken : List Nat} {vertex : Nat}
    (hnone : ∀ i, StartsAt segments vertex i → i ∈ taken) : GoesOn segments taken vertex []
  | step {taken : List Nat} {vertex next : Nat} {s : Segment} {rest : List Nat}
    (hnext : IsLeast {i | StartsAt segments vertex i ∧ i ∉ taken} next)
    (hs : segments[next]? = some s) (hrest : GoesOn segments (taken ++ [next]) s.finish rest) :
    GoesOn segments taken vertex (next :: rest)

/-- Chains that take up all positions when some are taken. -/
inductive Covers (segments : List Segment) : List Nat → List (List Nat) → Prop where
  | nil {taken : List Nat} (hnone : ∀ i < segments.length, i ∈ taken) : Covers segments taken []
  | cons {taken : List Nat} {first : Nat} {s : Segment} {rest : List Nat} {chains : List (List Nat)}
    (hfirst : IsLeast {i | i < segments.length ∧ i ∉ taken} first)
    (hs : segments[first]? = some s) (hrest : GoesOn segments (taken ++ [first]) s.finish rest)
    (hchains : Covers segments (taken ++ first :: rest) chains) :
    Covers segments taken ((first :: rest) :: chains)

/-! ## Following the links that are left -/

/-- The links whose positions are not taken, in order. -/
def untaken (segments : List Segment) (taken : List Nat) : List Link :=
  segments.zipIdx.filter (·.2 ∉ taken)

theorem mem_untaken_iff {link : Link} :
    link ∈ untaken segments taken ↔ segments[link.2]? = some link.1 ∧ link.2 ∉ taken := by
  simp [untaken, List.mem_zipIdx_iff_getElem?]

theorem pairwise_untaken (segments : List Segment) (taken : List Nat) :
    (untaken segments taken).Pairwise fun l m => l.2 < m.2 := by
  refine List.Pairwise.filter _ (List.pairwise_map.1 ?_)
  rw [List.zipIdx_map_snd, ← List.range_eq_range']
  exact List.pairwise_lt_range

theorem untaken_append (segments : List Segment) (taken : List Nat) (index : Nat) :
    untaken segments (taken ++ [index]) = (untaken segments taken).filter (·.2 ≠ index) := by
  simp only [untaken, List.filter_filter, List.mem_append, List.mem_singleton]
  congr 1
  grind

/-- In a list of links in order, one link is set apart by its position. -/
theorem filter_ne_of_pairwise {before behind : List Link} {link : Link}
    (h : (before ++ link :: behind).Pairwise fun l m => l.2 < m.2) :
    (before ++ link :: behind).filter (·.2 ≠ link.2) = before ++ behind := by
  rw [List.pairwise_append, List.pairwise_cons] at h
  obtain ⟨-, ⟨hbehind, -⟩, hbefore⟩ := h
  have hfront : before.filter (·.2 ≠ link.2) = before :=
    List.filter_eq_self.2 fun l hl => by simpa using (hbefore l hl link List.mem_cons_self).ne
  have hback : behind.filter (·.2 ≠ link.2) = behind :=
    List.filter_eq_self.2 fun l hl => by simpa using (hbehind l hl).ne'
  rw [List.filter_append, List.filter_cons_of_neg (by simp), hfront, hback]

section

variable {p : Link → Bool} {link : Link}

/-- The first link with a property has the lowest position among those with the property. -/
theorem isLeast_of_find?_untaken (h : (untaken segments taken).find? p = some link) :
    segments[link.2]? = some link.1 ∧
      IsLeast {i | (∃ s, segments[i]? = some s ∧ p (s, i) = true) ∧ i ∉ taken} link.2 := by
  obtain ⟨hp, before, behind, heq, hbefore⟩ := List.find?_eq_some_iff_append.1 h
  have hsorted := pairwise_untaken segments taken
  rw [heq, List.pairwise_append, List.pairwise_cons] at hsorted
  obtain ⟨hs, hnew⟩ := mem_untaken_iff.1 (List.mem_of_find?_eq_some h)
  refine ⟨hs, ⟨⟨link.1, hs, hp⟩, hnew⟩, ?_⟩
  rintro i ⟨⟨s, hi, hpi⟩, hni⟩
  have hmem : (s, i) ∈ before ++ link :: behind := heq ▸ mem_untaken_iff.2 ⟨hi, hni⟩
  rcases List.mem_append.1 hmem with hm | hm
  · simpa [hpi] using hbefore _ hm
  · rcases List.mem_cons.1 hm with rfl | hm
    · exact Nat.le_refl _
    · exact Nat.le_of_lt (hsorted.2.1.1 _ hm)

/-- Without it the links are those that are left once its position is taken. -/
theorem eraseP_untaken (h : (untaken segments taken).find? p = some link) :
    (untaken segments taken).eraseP p = untaken segments (taken ++ [link.2]) := by
  obtain ⟨hp, before, behind, heq, hbefore⟩ := List.find?_eq_some_iff_append.1 h
  have hsorted := pairwise_untaken segments taken
  rw [heq] at hsorted
  rw [untaken_append, heq, filter_ne_of_pairwise hsorted,
    List.eraseP_append_right _ (by simpa using hbefore), List.eraseP_cons_of_pos hp]

end

/-- Following a chain among the links that are left takes the positions with which it goes on. -/
theorem goesOn_follow (segments : List Segment) (vertex : Nat) (taken : List Nat) :
    GoesOn segments taken vertex ((follow vertex (untaken segments taken)).1.map Prod.snd) ∧
      (follow vertex (untaken segments taken)).2 = untaken segments
        (taken ++ (follow vertex (untaken segments taken)).1.map Prod.snd) := by
  generalize hlinks : untaken segments taken = links
  fun_induction follow vertex links generalizing taken with
  | case1 vertex links hnone =>
    subst hlinks
    refine ⟨.stop ?_, by simp⟩
    rintro i ⟨s, hi, hstart⟩
    by_contra hnew
    simpa [hstart] using List.find?_eq_none.1 hnone (s, i) (mem_untaken_iff.2 ⟨hi, hnew⟩)
  | case2 vertex links link hfind chain left heq ih =>
    subst hlinks
    obtain ⟨hs, hleast⟩ := isLeast_of_find?_untaken hfind
    obtain ⟨hrest, hleft⟩ := ih (taken ++ [link.2]) (eraseP_untaken hfind).symm
    rw [heq] at hrest hleft
    refine ⟨.step ?_ hs hrest, ?_⟩
    · simpa [StartsAt] using hleast
    · simpa using hleft

/-- Cutting the links that are left into chains takes up all positions. -/
theorem covers_cutChains (segments : List Segment) (taken : List Nat) :
    Covers segments taken ((cutChains (untaken segments taken)).map (·.map Prod.snd)) := by
  generalize hlinks : untaken segments taken = links
  fun_induction cutChains links generalizing taken with
  | case1 =>
    refine .nil fun i hi => ?_
    by_contra hnew
    have hm : (segments[i], i) ∈ untaken segments taken :=
      mem_untaken_iff.2 ⟨List.getElem?_eq_getElem hi, hnew⟩
    simp [hlinks] at hm
  | case2 link rest ih =>
    have hfind : (untaken segments taken).find? (fun _ => true) = some link := by simp [hlinks]
    obtain ⟨hs, hleast⟩ := isLeast_of_find?_untaken hfind
    have hrest : rest = untaken segments (taken ++ [link.2]) := by
      simpa [hlinks] using eraseP_untaken hfind
    obtain ⟨hgoes, hleft⟩ := goesOn_follow segments link.1.finish (taken ++ [link.2])
    rw [← hrest] at hgoes hleft
    refine .cons ?_ hs hgoes (ih _ ?_)
    · simpa [List.getElem?_eq_some_iff] using hleast
    · simpa using hleft.symm

theorem covers_chains (segments : List Segment) : Covers segments [] (chains segments) := by
  have h := covers_cutChains segments []
  simpa [untaken, chains, linkChains] using h

/-! ## From step to step -/

/-- Behind any of its positions a chain goes on from where that segment ends. -/
theorem GoesOn.behind {vertex last : Nat} {done rest : List Nat}
    (h : GoesOn segments taken vertex (done ++ last :: rest)) :
    ∃ s, segments[last]? = some s ∧ GoesOn segments (taken ++ (done ++ [last])) s.finish rest := by
  induction done generalizing taken vertex with
  | nil =>
    cases h with
    | step hnext hs hrest => exact ⟨_, hs, hrest⟩
  | cons next done ih =>
    cases h with
    | step hnext hs hrest => simpa using ih hrest

theorem Covers.behind {last : Nat} {done rest : List Nat} {chains : List (List Nat)}
    (h : Covers segments taken ((done ++ last :: rest) :: chains)) :
    ∃ s, segments[last]? = some s ∧ GoesOn segments (taken ++ (done ++ [last])) s.finish rest := by
  cases done with
  | nil =>
    cases h with
    | cons hfirst hs hrest hchains => exact ⟨_, hs, hrest⟩
  | cons first done =>
    cases h with
    | cons hfirst hs hrest hchains => simpa using hrest.behind

/-- Behind some chains the others take up what these have left. -/
theorem Covers.drop {before after : List (List Nat)}
    (h : Covers segments taken (before ++ after)) :
    Covers segments (taken ++ before.flatten) after := by
  induction before generalizing taken with
  | nil => simpa using h
  | cons chain before ih =>
    cases h with
    | cons hfirst hs hrest hchains => simpa using ih hchains

/-- Every segment of a chain starts where the one before it ends. -/
theorem GoesOn.isChain {first : Nat} {s : Segment} {rest : List Nat}
    (h : GoesOn segments taken s.finish rest) (hs : segments[first]? = some s) :
    (first :: rest).IsChain (Linked segments) := by
  induction rest generalizing taken first s with
  | nil => exact .singleton first
  | cons next rest ih =>
    cases h with
    | step hnext hs' hrest => exact .cons_cons ⟨s, hs, hnext.1.1⟩ (ih hrest hs')

theorem Covers.isChain {chains : List (List Nat)} (h : Covers segments taken chains) :
    ∀ chain ∈ chains, chain.IsChain (Linked segments) := by
  induction h with
  | nil => exact nofun
  | cons hfirst hs hrest hchains ih => exact List.forall_mem_cons.2 ⟨hrest.isChain hs, ih⟩

theorem Covers.nil_notMem {chains : List (List Nat)} (h : Covers segments taken chains) :
    [] ∉ chains := by
  induction h with
  | nil => exact List.not_mem_nil
  | cons hfirst hs hrest hchains ih => simpa using ih

/-- The chains begin with positions that are not taken, each higher than those before it. -/
theorem Covers.pairwise_heads {chains : List (List Nat)} (h : Covers segments taken chains) :
    (∀ i ∈ chains.filterMap List.head?, i < segments.length ∧ i ∉ taken) ∧
      (chains.filterMap List.head?).Pairwise (· < ·) := by
  induction h with
  | nil => exact ⟨nofun, .nil⟩
  | @cons taken first s rest chains hfirst hs hrest hchains ih =>
    obtain ⟨hfree, hsorted⟩ := ih
    have hlater : ∀ i ∈ chains.filterMap List.head?,
        (i < segments.length ∧ i ∉ taken) ∧ first < i := by
      intro i hi
      obtain ⟨hlt, hnew⟩ := hfree i hi
      rw [List.mem_append, List.mem_cons, not_or, not_or] at hnew
      exact ⟨⟨hlt, hnew.1⟩, lt_of_le_of_ne (hfirst.2 ⟨hlt, hnew.1⟩) (Ne.symm hnew.2.1)⟩
    rw [List.filterMap_cons_some List.head?_cons, List.forall_mem_cons, List.pairwise_cons]
    exact ⟨⟨hfirst.1, fun i hi => (hlater i hi).1⟩, fun i hi => (hlater i hi).2, hsorted⟩

/-! ## The rules describe the chains -/

theorem perm_flatten_chains (segments : List Segment) :
    (chains segments).flatten.Perm (List.range segments.length) := by
  have h := (perm_flatten_cutChains segments.zipIdx).map Prod.snd
  rwa [List.zipIdx_map_snd, ← List.range_eq_range', List.map_flatten] at h

theorem chained_chains (segments : List Segment) : Chained segments (chains segments) where
  once := perm_flatten_chains segments
  nonempty := (covers_chains segments).nil_notMem
  linked := (covers_chains segments).isChain
  first before first rest after h := by
    have hc := covers_chains segments
    rw [h] at hc
    cases hc.drop with
    | cons hfirst hs hrest hchains => simpa using hfirst
  firsts := (covers_chains segments).pairwise_heads.2
  next before done last s next rest after h hs := by
    have hc := covers_chains segments
    rw [h] at hc
    obtain ⟨s', hs', hgoes⟩ := hc.drop.behind
    obtain rfl : s = s' := Option.some.inj (hs.symm.trans hs')
    cases hgoes with
    | step hnext hs hrest => simpa using hnext
  last before done last s after h hs i hi hstart := by
    have hc := covers_chains segments
    rw [h] at hc
    obtain ⟨s', hs', hgoes⟩ := hc.drop.behind
    obtain rfl : s = s' := Option.some.inj (hs.symm.trans hs')
    have hnodup := (perm_flatten_chains segments).nodup_iff.2 List.nodup_range
    rw [h, List.flatten_append, List.flatten_cons, ← List.append_assoc] at hnodup
    cases hgoes with
    | stop hnone => exact List.disjoint_of_nodup_append hnodup (by simpa using hnone i hstart) hi

/-- The rules, read from a place in the list of chains on, are the steps behind that place. -/
theorem Chained.goesOn {chains : List (List Nat)} (h : Chained segments chains)
    {before after : List (List Nat)} {done : List Nat} {last : Nat} {s : Segment} {rest : List Nat}
    (heq : chains = before ++ (done ++ last :: rest) :: after) (hs : segments[last]? = some s) :
    GoesOn segments (before.flatten ++ (done ++ [last])) s.finish rest := by
  induction rest generalizing done last s with
  | nil =>
    refine .stop fun i hi => ?_
    have ⟨t, ht, _⟩ := hi
    have hmem : i ∈ chains.flatten :=
      h.once.mem_iff.2 (List.mem_range.2 (List.getElem?_eq_some_iff.1 ht).1)
    rw [heq, List.flatten_append, List.flatten_cons, ← List.append_assoc] at hmem
    exact (List.mem_append.1 hmem).resolve_right fun hi' => h.last _ _ _ _ _ heq hs i hi' hi
  | cons next rest ih =>
    have hleast := h.next _ _ _ _ _ _ _ heq hs
    obtain ⟨t, ht, -⟩ := hleast.1.1
    have hstep : chains = before ++ ((done ++ [last]) ++ next :: rest) :: after := by
      simpa using heq
    refine .step (by simpa using hleast) ht ?_
    simpa using ih hstep ht

theorem Chained.covers {chains : List (List Nat)} (h : Chained segments chains)
    {before after : List (List Nat)} (heq : chains = before ++ after) :
    Covers segments before.flatten after := by
  induction after generalizing before with
  | nil =>
    refine .nil fun i hi => ?_
    simpa [heq] using h.once.mem_iff.2 (List.mem_range.2 hi)
  | cons chain after ih =>
    obtain _ | ⟨first, rest⟩ := chain
    · exact absurd (by simp [heq]) h.nonempty
    have hfirst := h.first _ _ _ _ heq
    have hlt : first < segments.length := hfirst.1.1
    have hs : segments[first]? = some segments[first] := List.getElem?_eq_getElem hlt
    have hchain : chains = before ++ ([] ++ first :: rest) :: after := heq
    have hstep : chains = (before ++ [first :: rest]) ++ after := by simpa using heq
    refine .cons hfirst hs (h.goesOn hchain hs) ?_
    simpa using ih hstep

theorem GoesOn.eq {vertex : Nat} {chain other : List Nat} (h : GoesOn segments taken vertex chain)
    (h' : GoesOn segments taken vertex other) : chain = other := by
  induction h generalizing other with
  | stop hnone =>
    cases h' with
    | stop => rfl
    | step hnext => exact absurd (hnone _ hnext.1.1) hnext.1.2
  | step hnext hs hrest ih =>
    cases h' with
    | stop hnone => exact absurd (hnone _ hnext.1.1) hnext.1.2
    | step hnext' hs' hrest' =>
      obtain rfl := hnext.unique hnext'
      obtain rfl := Option.some.inj (hs.symm.trans hs')
      rw [ih hrest']

/-- The steps leave no choice. -/
theorem Covers.eq {chains other : List (List Nat)} (h : Covers segments taken chains)
    (h' : Covers segments taken other) : chains = other := by
  induction h generalizing other with
  | nil hnone =>
    cases h' with
    | nil => rfl
    | cons hfirst => exact absurd (hnone _ hfirst.1.1) hfirst.1.2
  | cons hfirst hs hrest hchains ih =>
    cases h' with
    | nil hnone => exact absurd (hnone _ hfirst.1.1) hfirst.1.2
    | cons hfirst' hs' hrest' hchains' =>
      obtain rfl := hfirst.unique hfirst'
      obtain rfl := Option.some.inj (hs.symm.trans hs')
      obtain rfl := hrest.eq hrest'
      rw [ih hchains']

/-- The chains of segments follow the rules, and they are the only ones that do. -/
theorem chained_iff {segments : List Segment} {order : List (List Nat)} :
    Chained segments order ↔ order = chains segments := by
  constructor
  · intro h
    exact (h.covers (List.nil_append order).symm).eq (covers_chains segments)
  · rintro rfl
    exact chained_chains segments

end LaserPath.Network
