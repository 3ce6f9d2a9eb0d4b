import LaserPath.Proofs.Shape.Compile

/-!
# What settings emit

Compiling writes three kinds of commands: comments, rapids at the rapid rate of the settings,
and cuts at their feed rate and power. A figure is traced to its captions and the motions
behind them. No tracer writes anything else, so a compiled shape never frames a program and
never chooses a rate of its own.

## Main definitions

* `LaserSettings.Draws`, `LaserSettings.Moves`, `LaserSettings.Emits` — the straight motions,
  the motions and the commands that settings emit.
* `Figure.captions` — the comments in front of the motions of a figure.

## Main statements

* `Figure.trace_eq_captions` — a figure is traced to its captions and motions.
* `Shape.emits_compile` — all that a compiled shape consists of.
-/

namespace LaserPath

/-- The motions along straight lines that settings emit. -/
inductive LaserSettings.Draws (s : LaserSettings) : Command → Prop where
  | rapid (target : Point) : s.Draws (.rapid target (some s.rapidFeedRate))
  | cut (target : Point) : s.Draws (.cut ⟨target, .straight, some s.feedRate, some s.power⟩)

/-- The motions that settings emit, with their rates and power. -/
inductive LaserSettings.Moves (s : LaserSettings) : Command → Prop where
  | rapid (target : Point) : s.Moves (.rapid target (some s.rapidFeedRate))
  | cut (target : Point) (sweep : Sweep) :
    s.Moves (.cut ⟨target, sweep, some s.feedRate, some s.power⟩)

/-- The commands that settings emit: comments and motions. -/
inductive LaserSettings.Emits (s : LaserSettings) : Command → Prop where
  | comment (text : String) : s.Emits (.comment text)
  | motion {c : Command} (h : s.Moves c) : s.Emits c

theorem LaserSettings.Draws.moves {s : LaserSettings} {c : Command} (h : s.Draws c) :
    s.Moves c := by
  cases h with
  | rapid target => exact .rapid target
  | cut target => exact .cut target .straight

theorem LaserSettings.Moves.isMotion {s : LaserSettings} {c : Command} (h : s.Moves c) :
    c.isMotion = true := by
  cases h <;> rfl

/-- What is emitted and does not move the head is a comment. -/
theorem LaserSettings.Emits.exists_text {s : LaserSettings} {c : Command} (h : s.Emits c)
    (hm : c.isMotion = false) : ∃ text, c = .comment text := by
  cases h with
  | comment text => exact ⟨text, rfl⟩
  | motion h => exact absurd h.isMotion (by simp [hm])

namespace LaserSettings

variable {s : LaserSettings}

theorem draws_outline (corner : Point) (width height : Float) :
    ∀ c ∈ s.outline corner width height, s.Draws c := by
  simp only [outline, List.forall_mem_cons]
  exact ⟨.rapid _, .cut _, .cut _, .cut _, .cut _, by simp⟩

theorem draws_traceCubic (curve : Cubic) : ∀ c ∈ s.traceCubic curve, s.Draws c := by
  intro c hc
  unfold traceCubic at hc
  split at hc
  · obtain rfl := List.mem_singleton.1 hc
    exact .cut _
  · obtain ⟨p, -, rfl⟩ := List.mem_map.1 hc
    exact .cut _

/-- A rapid and cuts behind it, as the tracers of ellipses, polygons and stars write them. -/
theorem draws_polyline (start : Point) (vertex : Nat → Point) (steps : List Nat) :
    ∀ c ∈ s.rapidTo start :: steps.map fun i => s.cutTo (vertex i), s.Draws c := by
  intro c hc
  rcases List.mem_cons.1 hc with rfl | hc
  · exact .rapid _
  · obtain ⟨i, -, rfl⟩ := List.mem_map.1 hc
    exact .cut _

theorem draws_traceRadial (centre : Point) (step : Float) (radius : Nat → Float) (count : Nat) :
    ∀ c ∈ s.traceRadial centre step radius count, s.Draws c := by
  unfold traceRadial
  exact draws_polyline _ _ _

theorem draws_tracePolygon (anchor : Point) (width height : Float) (corners : Nat) :
    ∀ c ∈ s.tracePolygon anchor width height corners, s.Draws c := by
  unfold tracePolygon
  exact draws_traceRadial _ _ _ _

theorem draws_traceStar (anchor : Point) (width height : Float) (points : Nat) (ratio : Float) :
    ∀ c ∈ s.traceStar anchor width height points ratio, s.Draws c := by
  unfold traceStar
  exact draws_traceRadial _ _ _ _

/-- A circle is one whole turn, and any other ellipse is drawn straight. -/
theorem moves_traceEllipse (anchor : Point) (width height : Float) :
    ∀ c ∈ s.traceEllipse anchor width height, s.Moves c := by
  unfold traceEllipse
  dsimp only
  split
  · simp only [List.forall_mem_cons]
    exact ⟨.rapid _, .cut _ _, by simp⟩
  · intro c hc
    exact (draws_polyline _ _ _ c hc).moves

end LaserSettings

variable {s : LaserSettings}

namespace Network

theorem draws_traceSegment (n : Network) (anchor : Point) (segment : Segment) :
    ∀ c ∈ n.traceSegment s anchor segment, s.Draws c := by
  unfold traceSegment
  split
  · exact LaserSettings.draws_traceCubic _
  · exact List.forall_mem_singleton.2 (.cut _)

theorem draws_traceChain (n : Network) (anchor : Point) (chain : List Link) :
    ∀ c ∈ n.traceChain s anchor chain, s.Draws c := by
  cases chain with
  | nil => simp [traceChain]
  | cons link rest =>
    intro c hc
    rw [traceChain, List.mem_cons, List.mem_flatMap] at hc
    rcases hc with rfl | ⟨l, -, hc⟩
    · exact .rapid _
    · exact draws_traceSegment n anchor l.1 c hc

theorem draws_trace {n : Network} {anchor : Point} {t : Toolpath} (h : n.trace s anchor = .ok t) :
    ∀ c ∈ t, s.Draws c := by
  unfold trace at h
  split at h
  · simp at h
  · obtain rfl := Except.ok.inj h
    intro c hc
    obtain ⟨chain, -, hc⟩ := List.mem_flatMap.1 hc
    exact draws_traceChain n anchor chain c hc

end Network

namespace PathCommand

theorem draws_traceLines (anchor : Point) (relative : Bool) (current : Point)
    (params : List Float) : ∀ c ∈ (traceLines s anchor relative current params).2, s.Draws c := by
  fun_induction traceLines s anchor relative current params with
  | case1 current x y rest next last cuts heq ih =>
    rw [heq] at ih
    exact List.forall_mem_cons.2 ⟨.cut _, ih⟩
  | case2 => simp

theorem draws_traceCurves (anchor : Point) (relative : Bool) (current : Point)
    (params : List Float) : ∀ c ∈ (traceCurves s anchor relative current params).2, s.Draws c := by
  fun_induction traceCurves s anchor relative current params with
  | case1 current x₁ y₁ x₂ y₂ x y rest next curve last cuts heq ih =>
    rw [heq] at ih
    exact List.forall_mem_append.2 ⟨LaserSettings.draws_traceCubic _, ih⟩
  | case2 => simp

theorem draws_trace (anchor : Point) (state : PathState) (command : PathCommand) :
    ∀ c ∈ (trace s anchor state command).2, s.Draws c := by
  unfold trace
  split
  · exact List.forall_mem_singleton.2 (.rapid _)
  · exact draws_traceLines anchor _ _ _
  · exact List.forall_mem_singleton.2 (.cut _)
  · exact List.forall_mem_singleton.2 (.cut _)
  · exact draws_traceCurves anchor _ _ _
  · exact List.forall_mem_singleton.2 (.cut _)
  · simp

theorem draws_traceAll (anchor : Point) (state : PathState) (commands : List PathCommand) :
    ∀ c ∈ traceAll s anchor state commands, s.Draws c := by
  induction commands generalizing state with
  | nil => simp [traceAll]
  | cons command rest ih =>
    rw [traceAll]
    exact List.forall_mem_append.2 ⟨draws_trace anchor state command, ih _⟩

end PathCommand

theorem draws_tracePathData (anchor : Point) (data : String) :
    ∀ c ∈ tracePathData s anchor data, s.Draws c :=
  PathCommand.draws_traceAll anchor _ _

/-- The text of the comment in front of a shape. -/
def Attributes.caption (a : Attributes) (tag : String) : String :=
  if a.name.isEmpty then tag else tag ++ " - \"" ++ a.name ++ "\""

namespace Figure

/-- The comment on what a freeform outline is traced from. -/
def vectorCaption (network? : Option Network) (paths : List String) : String :=
  if (network?.filter (!·.isEmpty)).isSome then "Vector Network Processing"
  else if paths.isEmpty then "VECTOR (no path data - using bounding box)"
  else "Vector Paths Processing"

/-- The comments in front of the motions of a figure. -/
def captions (a : Attributes) (figure : Figure) : List String :=
  match figure with
  | .rectangle | .ellipse | .polygon _ | .star _ _ | .line => [a.caption figure.tag]
  | .vector network? paths => [a.caption figure.tag, vectorCaption network? paths]
  | .booleanOperation operation => [figure.tag ++ " (" ++ operation.tag ++ ")"]
  | .component | .slice | .text => [figure.tag ++ " (bounding box)"]
  | .unsupported tag => ["Unsupported node type: " ++ tag]

theorem traceVector_eq_caption {a : Attributes} {anchor : Point} {network? : Option Network}
    {paths : List String} {t : Toolpath} (h : traceVector s a anchor network? paths = .ok t) :
    ∃ motions, t = .comment (vectorCaption network? paths) :: motions ∧
      ∀ c ∈ motions, s.Draws c := by
  unfold traceVector at h
  split at h
  · next network hn =>
    obtain ⟨motions, ht, rfl⟩ := exists_ok_of_map_eq_ok h
    refine ⟨motions, ?_, Network.draws_trace ht⟩
    rw [vectorCaption, hn]
    rfl
  · next hn =>
    split at h
    · next hp =>
      obtain rfl := Except.ok.inj h
      refine ⟨_, ?_, LaserSettings.draws_outline anchor a.width a.height⟩
      rw [vectorCaption, hn, hp]
      rfl
    · next hp =>
      obtain rfl := Except.ok.inj h
      refine ⟨paths.flatMap (tracePathData s anchor), ?_, fun c hc => ?_⟩
      · rw [vectorCaption, hn, if_neg (by simp), if_neg hp]
      · obtain ⟨data, -, hc⟩ := List.mem_flatMap.1 hc
        exact draws_tracePathData anchor data c hc

/-- A figure is traced to its captions and the motions behind them, and all figures but
ellipses are drawn straight. -/
theorem trace_eq_straight {a : Attributes} {anchor : Point} {figure : Figure} {t : Toolpath}
    (h : figure.trace s a anchor = .ok t) :
    ∃ motions, t = (figure.captions a).map .comment ++ motions ∧
      ((∀ c ∈ motions, s.Draws c) ∨ figure = .ellipse ∧ ∀ c ∈ motions, s.Moves c) := by
  have hbox := LaserSettings.draws_outline (s := s) anchor a.width a.height
  cases figure with
  | rectangle | booleanOperation | component | slice | text =>
    obtain rfl := Except.ok.inj h
    exact ⟨_, rfl, .inl hbox⟩
  | ellipse =>
    obtain rfl := Except.ok.inj h
    exact ⟨_, rfl, .inr ⟨rfl, LaserSettings.moves_traceEllipse anchor a.width a.height⟩⟩
  | polygon corners =>
    obtain rfl := Except.ok.inj h
    exact ⟨_, rfl, .inl (LaserSettings.draws_tracePolygon anchor a.width a.height corners)⟩
  | star points innerRadius? =>
    obtain ⟨ratio, -, rfl⟩ := exists_ok_of_map_eq_ok h
    have hstar := LaserSettings.draws_traceStar (s := s) anchor a.width a.height points ratio
    exact ⟨_, rfl, .inl hstar⟩
  | line =>
    obtain rfl := Except.ok.inj h
    refine ⟨[s.rapidTo anchor, s.cutTo (anchor.offset a.width a.height)], rfl, .inl ?_⟩
    exact LaserSettings.draws_polyline anchor (fun _ => anchor.offset a.width a.height) [1]
  | vector network? paths =>
    obtain ⟨inner, hv, rfl⟩ := exists_ok_of_map_eq_ok h
    obtain ⟨motions, rfl, hm⟩ := traceVector_eq_caption hv
    exact ⟨motions, rfl, .inl hm⟩
  | unsupported tag =>
    obtain rfl := Except.ok.inj h
    exact ⟨[], rfl, .inl (by simp)⟩

/-- A figure is traced to its captions and the motions behind them. -/
theorem trace_eq_captions {a : Attributes} {anchor : Point} {figure : Figure} {t : Toolpath}
    (h : figure.trace s a anchor = .ok t) :
    ∃ motions, t = (figure.captions a).map .comment ++ motions ∧ ∀ c ∈ motions, s.Moves c := by
  obtain ⟨motions, rfl, hm | ⟨-, hm⟩⟩ := trace_eq_straight h
  · exact ⟨motions, rfl, fun c hc => (hm c hc).moves⟩
  · exact ⟨motions, rfl, hm⟩

theorem emits_trace {a : Attributes} {anchor : Point} {figure : Figure} {t : Toolpath}
    (h : figure.trace s a anchor = .ok t) : ∀ c ∈ t, s.Emits c := by
  obtain ⟨motions, rfl, hm⟩ := trace_eq_captions h
  rw [List.forall_mem_append, List.forall_mem_map]
  exact ⟨fun text _ => .comment text, fun c hc => .motion (hm c hc)⟩

end Figure

namespace Shape

theorem emits_inside {a : Attributes} {kind : ContainerKind} {children : List Shape}
    {ancestors : List Ancestor}
    (h : ∀ child ∈ children, ∀ c ∈ child.contribution s (.of a :: ancestors), s.Emits c) :
    ∀ c ∈ inside s a kind children ancestors, s.Emits c := by
  unfold inside
  split
  · refine List.forall_mem_cons.2 ⟨.comment _, fun c hc => .motion ?_⟩
    exact (LaserSettings.draws_outline _ _ _ c hc).moves
  · intro c hc
    obtain ⟨child, hm, hc⟩ := List.mem_flatMap.1 hc
    exact h child hm c hc

/-- A compiled shape consists of comments and of motions at the rates of the settings. -/
theorem emits_compile (shape : Shape) (ancestors : List Ancestor) {t : Toolpath}
    (h : shape.compile s ancestors = .ok t) : ∀ c ∈ t, s.Emits c := by
  induction shape using Shape.induction generalizing ancestors t with
  | leaf a figure => exact Figure.emits_trace (compile_leaf_eq_ok_iff.1 h).2
  | container a kind children ih =>
    obtain ⟨-, rfl⟩ := compile_container_eq_ok_iff.1 h
    refine List.forall_mem_cons.2 ⟨.comment _, List.forall_mem_append.2 ⟨?_, ?_⟩⟩
    · refine emits_inside fun child hm => ?_
      unfold contribution
      split
      · next t' ht => exact ih child hm _ ht
      · exact List.forall_mem_singleton.2 (.comment _)
    · exact List.forall_mem_singleton.2 (.comment _)

end Shape

end LaserPath
