import LaserPath.Proofs.Decimal.Order
import LaserPath.Proofs.GCode.Coordinates
import LaserPath.Proofs.Program.Lines

/-!
# The coordinates of a program

The motions of a program have the coordinates that its parts are compiled to. The router does
not add to them: only a circle is drawn along an arc, a circle is left where it is entered, and
a block that is left where it is entered is not turned round. So it is told from the parts alone
whether every coordinate of a program is written as a number.

## Main definitions

* `Entry.HasCoordinates` — a property of the coordinates of a block.

## Main statements

* `Program.forall_coordinates_iff` — the coordinates of a program are those of its parts.
* `Program.coordinate_words_iff` — exactly when every coordinate is written as a number.
-/

namespace LaserPath

theorem Point.coincides_self {p q : Point} (h : p.coincides q = true) :
    q.coincides q = true := by
  unfold coincides at h ⊢
  rw [Bool.and_eq_true] at h ⊢
  exact ⟨Binary64.beq_self_of_beq h.1, Binary64.beq_self_of_beq h.2⟩

/-- A block that is left where it is entered is not turned round. -/
theorem Block.isReversible_of_closed {b : Block} (h : b.start = b.finish) :
    b.isReversible = false := by
  by_contra hr
  rw [Bool.not_eq_false, isReversible, ← h] at hr
  simp only [Bool.and_eq_true, Bool.not_eq_true', Option.any_eq_true] at hr
  obtain ⟨⟨⟨hopen, p, -, hp⟩, -⟩, -⟩ := hr
  rw [Point.coincides_self hp] at hopen
  exact absurd hopen (by decide)

/-- A part is drawn straight, or its drawing is left where it is entered. -/
theorem Part.isStraight_or_closed {s : LaserSettings} {part : Part} {t : Toolpath}
    (h : part.compile s = .ok t) :
    (∀ c ∈ t, c.IsStraight) ∨
      (part.shape.routeAnchors part.ancestors).1 = (part.shape.routeAnchors part.ancestors).2 := by
  obtain ⟨shape, ancestors, label⟩ := part
  cases shape with
  | container a kind children => exact .inr rfl
  | leaf a figure =>
    obtain ⟨-, ht⟩ := Shape.compile_leaf_eq_ok_iff.1 h
    obtain ⟨motions, rfl, hm | ⟨rfl, -⟩⟩ := Figure.trace_eq_straight ht
    · refine .inl (List.forall_mem_append.2 ⟨?_, fun c hc => (hm c hc).isStraight⟩)
      rw [List.forall_mem_map]
      intro text _ cut hc
      cases hc
    · exact .inr rfl

/-- The coordinates of a block have a property; a note has none. -/
def Entry.HasCoordinates (P : Float → Prop) : Entry → Prop
  | .block b => ∀ x ∈ b.toolpath.coordinates, P x
  | .note _ => True

section

variable {P : Float → Prop}

theorem Toolpath.coordinates_eq_nil {t : Toolpath} (h : t.hasGeometry = false) :
    t.coordinates = [] :=
  List.flatMap_eq_nil_iff.2 fun c hc => Command.coordinates_eq_nil (isMotion_eq_false h c hc)

theorem Toolpath.coordinates_filter (t : Toolpath) :
    coordinates (t.filter Command.isMotion) = t.coordinates := by
  induction t with
  | nil => rfl
  | cons c rest ih =>
    cases hc : c.isMotion with
    | true =>
      rw [List.filter_cons_of_pos hc]
      exact congrArg (c.coordinates ++ ·) ih
    | false =>
      rw [List.filter_cons_of_neg (by simp [hc]), ih]
      exact (congrArg (· ++ coordinates rest) (Command.coordinates_eq_nil hc)).symm

theorem Part.hasCoordinates_entry_iff {s : LaserSettings} {part : Part} {id : Nat} :
    (part.entry id (part.compile s)).HasCoordinates P ↔
      ∀ t, part.compile s = .ok t → ∀ x ∈ t.coordinates, P x := by
  cases h : part.compile s with
  | error error => exact iff_of_true trivial (by simp)
  | ok t =>
    cases hg : t.hasGeometry with
    | true =>
      rw [entry, if_pos hg]
      simp [Entry.HasCoordinates, Block.ofShape]
    | false =>
      rw [entry, if_neg (by simp [hg])]
      refine iff_of_true trivial fun u hu => ?_
      obtain rfl := Except.ok.inj hu
      simp [Toolpath.coordinates_eq_nil hg]

theorem Part.isStraight_or_closed_of_entry {s : LaserSettings} {part : Part} {id : Nat}
    {b : Block} (h : part.entry id (part.compile s) = .block b) :
    (∀ c ∈ b.toolpath, c.IsStraight) ∨ b.start = b.finish := by
  cases hc : part.compile s with
  | error error =>
    rw [hc] at h
    cases h
  | ok t =>
    rw [hc, entry] at h
    split at h
    · obtain rfl := Entry.block.inj h
      exact part.isStraight_or_closed hc
    · cases h

/-- The router leaves the coordinates of a block as they are. -/
theorem Block.Routed.hasCoordinates_iff {b b' : Block} (h : b.Routed b')
    (hb : (∀ c ∈ b.toolpath, c.IsStraight) ∨ b.start = b.finish) :
    (Entry.block b).HasCoordinates P ↔ (Entry.block b').HasCoordinates P := by
  cases h with
  | kept => exact Iff.rfl
  | turned allowed hr =>
    rcases hb with hs | hclosed
    · obtain ⟨u, hu, rfl⟩ := Option.map_eq_some_iff.1 hr
      have hperm := Toolpath.coordinates_reversed? hu hs
      exact forall_congr' fun x => imp_congr_left hperm.mem_iff.symm
    · rw [isReversible_of_closed hclosed] at allowed
      exact absurd allowed Bool.false_ne_true

namespace Program

theorem forall_motions_iff (p : Program) :
    (∀ x ∈ p.motions.coordinates, P x) ↔ ∀ e ∈ p.entries, e.HasCoordinates P := by
  rw [motions, Toolpath.coordinates, List.flatMap_assoc, List.forall_mem_flatMap,
    forall_mem_notes_blocks]
  have hblock (b : Block) : (∀ x ∈ Toolpath.coordinates (b.toolpath.filter Command.isMotion), P x) ↔
      (Entry.block b).HasCoordinates P := by
    rw [Toolpath.coordinates_filter]
    exact Iff.rfl
  constructor
  · intro h
    refine ⟨?_, fun b hb => (hblock b).1 (h b hb)⟩
    rintro (b | t) he
    · simp [Entry.isNote] at he
    · trivial
  · intro h b hb
    exact (hblock b).2 (h.2 b hb)

/-- The coordinates of a program are those that its parts are compiled to. -/
theorem forall_coordinates_iff (config : Config) (selection : List SelectedNode) :
    (∀ x ∈ (assembled config selection).motions.coordinates, P x) ↔
      ∀ part ∈ parts selection, ∀ t, part.compile config.laser = .ok t →
        ∀ x ∈ t.coordinates, P x := by
  have hstraight : ∀ e ∈ plainEntries config selection, ∀ b, e = .block b →
      (∀ c ∈ b.toolpath, c.IsStraight) ∨ b.start = b.finish := by
    rw [forall_plainEntries_iff]
    intro i part _ b hb
    exact part.isStraight_or_closed_of_entry hb
  rw [forall_motions_iff, forall_entries_iff fun b b' hm hr =>
    hr.hasCoordinates_iff (hstraight _ hm b rfl), forall_plainEntries_iff]
  simp only [Part.hasCoordinates_entry_iff]
  constructor
  · intro h part hp
    obtain ⟨i, hi⟩ := List.mem_iff_getElem?.1 hp
    exact h i part hi
  · intro h i part hi
    exact h part (List.mem_of_getElem? hi)

/-- The words of the motion lines are the coordinates of the motions as they are written. -/
theorem forall_coordinateWords_iff (p : Program) {Q : String → Prop} :
    (∀ line ∈ p.motionLines, ∀ word ∈ coordinateWords line, Q word) ↔
      ∀ x ∈ p.motions.coordinates, Q (Measure.coordinate x) := by
  have hmotion : ∀ c ∈ p.motions, c.isMotion = true := by
    intro c hc
    obtain ⟨b, -, hc⟩ := List.mem_flatMap.1 hc
    exact (List.mem_filter.1 hc).2
  rw [motionLines, Toolpath.coordinates, List.forall_mem_flatMap, List.forall_mem_flatMap]
  exact forall₂_congr fun c hc => Command.forall_coordinateWords_iff (hmotion c hc)

theorem motionLines_sublist_machineLines (p : Program) :
    p.motionLines.Sublist p.machineLines := by
  unfold machineLines
  dsimp only
  refine .trans ?_ (List.sublist_append_left _ _)
  refine .trans ?_ (List.sublist_append_left _ _)
  exact List.sublist_append_right _ _

/-- The lines of the motions of a program are executed in their order. Every coordinate in them
is written as a number with three places exactly if every coordinate that a part is compiled to
stays finite when it is multiplied by a thousand; otherwise some are written as a word. -/
theorem coordinate_words_iff {config : Config} {selection : List SelectedNode} {text : String}
    (h : generateProgram config selection = .ok text) :
    ∃ p, ofSelection config selection = .ok p ∧ p.text = text ∧
      p.motionLines.Sublist (executableLines text) ∧
      (∀ line ∈ p.motionLines, ∀ word ∈ coordinateWords line,
        IsCoordinateText word ∨ word ∈ ["inf", "-inf", "NaN"]) ∧
      ((∀ line ∈ p.motionLines, ∀ word ∈ coordinateWords line, IsCoordinateText word) ↔
        ∀ part ∈ parts selection, ∀ t, part.compile config.laser = .ok t →
          ∀ x ∈ t.coordinates, (x * 1000).isFinite = true) := by
  obtain ⟨p, hp, rfl⟩ := exists_of_generateProgram h
  obtain ⟨-, -, -, rfl⟩ := ofSelection_eq_ok_iff.1 hp
  refine ⟨_, hp, rfl, ?_, ?_, ?_⟩
  · have hmachine := machineLines_sublist_executableLines config selection
    exact (motionLines_sublist_machineLines _).trans hmachine
  · rw [forall_coordinateWords_iff]
    intro x _
    cases hx : (x * 1000).isFinite with
    | true => exact .inl (Measure.isCoordinateText_of_isFinite hx)
    | false => exact .inr (Measure.coordinate_of_not_isFinite hx)
  · rw [forall_coordinateWords_iff, ← forall_coordinates_iff]
    exact forall₂_congr fun x _ => Measure.isCoordinateText_coordinate_iff x

/-- The coordinates of a circle and of its centre are written as numbers. -/
theorem coordinate_words_of_circle :
    ∃ (text : String) (p : Program), generateProgram { output := { optimizeTravel := false } }
        [⟨.leaf ⟨"a", 20, 30, 10, 10, none⟩ .ellipse, []⟩] = .ok text ∧
      p.text = text ∧
      ∀ line ∈ p.motionLines, ∀ word ∈ coordinateWords line, IsCoordinateText word := by
  obtain ⟨text, h, -⟩ := exists_ok_of_any (Q := fun _ => True) (x := generateProgram
    { output := { optimizeTravel := false } }
    [⟨.leaf ⟨"a", 20, 30, 10, 10, none⟩ .ellipse, []⟩]) (by decide +kernel)
  obtain ⟨p, -, ht, -, -, hiff⟩ := coordinate_words_iff h
  refine ⟨text, p, h, ht, hiff.2 fun part hp t hc => ?_⟩
  obtain rfl := List.mem_singleton.1 hp
  obtain rfl := Except.ok.inj (Shape.compile_leaf_eq_ok_iff.1 hc).2
  decide +kernel

/-- A rectangle at a finite position is drawn, but not at a coordinate that a machine can read. -/
theorem coordinate_words_of_far_rectangle :
    ∃ p : Program, generateProgram { output := { optimizeTravel := false } }
        [⟨.leaf ⟨"a", 1e306, 0, 10, 5, none⟩ .rectangle, []⟩] = .ok p.text ∧
      ofSelection { output := { optimizeTravel := false } }
        [⟨.leaf ⟨"a", 1e306, 0, 10, 5, none⟩ .rectangle, []⟩] = .ok p ∧
      ∃ line ∈ p.motionLines, ∃ word ∈ coordinateWords line,
        word = "inf" ∧ ¬ IsCoordinateText word := by
  obtain ⟨p, hp, hm⟩ := exists_ok_of_any
    (Q := fun p : Program => "inf" ∈ p.motionLines.flatMap coordinateWords)
    (x := ofSelection { output := { optimizeTravel := false } }
      [⟨.leaf ⟨"a", 1e306, 0, 10, 5, none⟩ .rectangle, []⟩]) (by decide +kernel)
  obtain ⟨line, hl, hw⟩ := List.mem_flatMap.1 hm
  refine ⟨p, generateProgram_eq_ok hp, hp, line, hl, _, hw, rfl, fun h => ?_⟩
  exact absurd h.point_mem (by decide)

end Program

end

end LaserPath
