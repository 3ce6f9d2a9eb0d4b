import LaserPath.Proofs.Toolpath.Emission
import LaserPath.Proofs.Toolpath.Opening
import LaserPath.Proofs.Trace.Network

/-!
# The pen on path data

The commands of path data are traced one after another, and only a state of two points is handed
from one to the next. The first of them is always where the pen is and the second is where the last
rapid went, so a curve begins at the pen, offsets are taken from the pen, and a subpath is closed at
its start.

## Main definitions

* `PathState.InStep` — the state is in step with the motions.
* `PathCommand.absolute` — a command with positions in place of its offsets.
* `PathCommand.EndsAt` — where a command with positions ends.
* `PathCommand.Follows`, `PathCommand.FollowsAll` — what the motions of a command, and of commands
  one behind the other, have to do with the motions in front of them.
* `PathCommand.write` — the tracer as it writes behind other commands.

## Main statements

* `PathCommand.follows_trace` — a command keeps the state in step.
* `PathCommand.followsAll_tracePathData` — so do all commands of path data.
-/

namespace LaserPath

variable (settings : LaserSettings) (anchor : Point)

/-- Where a rapid ends. -/
def Command.rapidTarget? : Command → Option Point
  | .rapid target _ => some target
  | _ => none

/-- Where the last rapid ends. -/
def Toolpath.lastRapid? (t : Toolpath) : Option Point := t.reverse.findSome? Command.rapidTarget?

/-- A point of the state and where motions have put it. As long as there are none it is the
origin. -/
inductive PathState.Marks : Option Point → Point → Prop where
  | unset : Marks none .origin
  | set (p : Point) : Marks (some ⟨anchor.x + p.x, anchor.y + p.y⟩) p

/-- The state is in step with the motions: the pen is at the point reached, and the last rapid went
to the start of the subpath. -/
structure PathState.InStep (front : Toolpath) (state : PathState) : Prop where
  current : Marks anchor front.lastPoint? state.current
  subpathStart : Marks anchor front.lastRapid? state.subpathStart

namespace PathCommand

/-- How many numbers a command takes at least, if it can be traced at all. -/
def needed? (c : PathCommand) : Option Nat :=
  match c.letter.toUpper with
  | 'M' | 'L' => some 2
  | 'H' | 'V' => some 1
  | 'C' => some 6
  | 'Z' => some 0
  | _ => none

/-- The command cannot be traced or is short of numbers. -/
def IsIdle (c : PathCommand) : Prop := ∀ n ∈ c.needed?, c.params.length < n

/-- The curves given by six numbers each. -/
def curvesFrom (relative : Bool) (current : Point) : List Float → List Cubic
  | x₁ :: y₁ :: x₂ :: y₂ :: x :: y :: rest =>
    { start := anchor.shift current
      control₁ := anchor.shift (resolve relative current x₁ y₁)
      control₂ := anchor.shift (resolve relative current x₂ y₂)
      finish := anchor.shift (resolve relative current x y) } ::
        curvesFrom relative (resolve relative current x y) rest
  | _ => []

/-- The curves of a command. -/
def curves (current : Point) (c : PathCommand) : List Cubic :=
  if c.letter.toUpper = 'C' then curvesFrom anchor c.isRelative current c.params else []

/-- The curves of commands from a state on. -/
def curvesAll (state : PathState) : List PathCommand → List Cubic
  | [] => []
  | c :: rest => c.curves anchor state.current ++
    curvesAll (trace settings anchor state c).1 rest

/-- Every curve that is not straight is at its end when its parameter is. -/
def CurvesEnd (curves : List Cubic) : Prop :=
  ∀ curve ∈ curves, curve.isStraight = false → curve.sample 1 = curve.finish

instance (curves : List Cubic) : Decidable (CurvesEnd curves) :=
  inferInstanceAs (Decidable (∀ curve ∈ curves, _))

/-- Pairs of offsets as positions, each from the one before it. -/
def accumulate (current : Point) : List Float → List Float
  | x :: y :: rest =>
    let next := current.offset x y
    next.x :: next.y :: accumulate next rest
  | rest => rest

/-- The offsets of curves as positions. All positions of a curve are taken from its start. -/
def accumulateCurves (current : Point) : List Float → List Float
  | x₁ :: y₁ :: x₂ :: y₂ :: x :: y :: rest =>
    let next := current.offset x y
    let control₁ := current.offset x₁ y₁
    let control₂ := current.offset x₂ y₂
    control₁.x :: control₁.y :: control₂.x :: control₂.y :: next.x :: next.y ::
      accumulateCurves next rest
  | rest => rest

/-- The command with positions in place of its offsets. -/
def absolute (current : Point) (c : PathCommand) : PathCommand where
  letter := c.letter.toUpper
  params := match c.letter.toUpper, c.params with
    | 'M', params | 'L', params => accumulate current params
    | 'H', x :: rest => (current.x + x) :: rest
    | 'V', y :: rest => (current.y + y) :: rest
    | 'C', params => accumulateCurves current params
    | _, params => params

/-- Motions along curves behind `front`, each curve from where the pen is. As long as there is no
motion the pen counts as being at the anchor. -/
inductive Flattens : Toolpath → List Cubic → Toolpath → Prop where
  | nil {front : Toolpath} : Flattens front [] []
  | cons {front t : Toolpath} {curve : Cubic} {rest : List Cubic}
    (hpen : curve.start = front.lastPoint?.getD ⟨anchor.x + 0, anchor.y + 0⟩)
    (hrest : Flattens (front ++ settings.traceCubic curve) rest t) :
    Flattens front (curve :: rest) (settings.traceCubic curve ++ t)

/-- Where a command with positions ends, by its letter and its numbers. Numbers left over are passed
over. -/
inductive EndsAt (current : Point) : Char → List Float → Point → Prop where
  | move (x y : Float) (rest : List Float) : EndsAt current 'M' (x :: y :: rest) ⟨x, y⟩
  | lines {before rest : List Float} (x y : Float) (hbefore : before.length % 2 = 0)
    (hrest : rest.length < 2) : EndsAt current 'L' (before ++ x :: y :: rest) ⟨x, y⟩
  | horizontal (x : Float) (rest : List Float) : EndsAt current 'H' (x :: rest) ⟨x, current.y⟩
  | vertical (y : Float) (rest : List Float) : EndsAt current 'V' (y :: rest) ⟨current.x, y⟩
  | curves {before rest : List Float} (x y : Float) (hbefore : before.length % 6 = 4)
    (hrest : rest.length < 6) : EndsAt current 'C' (before ++ x :: y :: rest) ⟨x, y⟩

/-- The motions of a command behind `front`, from one state to the next. -/
structure Follows (front : Toolpath) (state : PathState) (c : PathCommand) (motions : Toolpath)
    (next : PathState) : Prop where
  own : trace settings anchor state c = (next, motions)
  draws : ∀ m ∈ motions, settings.Draws m
  eq_nil_iff : motions = [] ↔ c.IsIdle
  idle : c.IsIdle → next = state
  relative : c.isRelative = true →
    trace settings anchor state (c.absolute state.current) = (next, motions)
  positions : c.isRelative = false → ¬ c.IsIdle → c.letter.toUpper ≠ 'Z' →
    EndsAt state.current c.letter.toUpper c.params next.current
  flattens : c.letter.toUpper = 'C' →
    Flattens settings anchor front (c.curves anchor state.current) motions
  close : c.letter.toUpper = 'Z' →
    motions = [.cut ⟨front.lastRapid?.getD ⟨anchor.x + 0, anchor.y + 0⟩, .straight,
      some settings.feedRate, some settings.power⟩] ∧
      next = ⟨state.subpathStart, state.subpathStart⟩

/-- The motions of commands behind `front`, one command behind the other. The state is in step in
front of every command and behind it. -/
inductive FollowsAll : Toolpath → PathState → List PathCommand → Toolpath → Prop where
  | nil {front : Toolpath} {state : PathState} (hstep : state.InStep anchor front) :
    FollowsAll front state [] []
  | cons {front motions t : Toolpath} {state next : PathState} {c : PathCommand}
    {rest : List PathCommand} (hstep : state.InStep anchor front)
    (hc : Follows settings anchor front state c motions next)
    (hrest : FollowsAll (front ++ motions) next rest t) :
    FollowsAll front state (c :: rest) (motions ++ t)

/-- Adds the motions of a command to what is written, and goes on to the next state. -/
def writeNext (done : Toolpath × PathState) (c : PathCommand) : Toolpath × PathState :=
  let (next, motions) := trace settings anchor done.2 c
  (done.1 ++ motions, next)

/-- Adds path data to the commands that are written, command by command. -/
def write (written : Toolpath) (data : String) : Toolpath :=
  ((ofData data).foldl (writeNext settings anchor) (written, .initial)).1

end PathCommand

variable {settings anchor}

/-! ## Marks -/

@[simp] theorem Toolpath.lastRapid?_append (s t : Toolpath) :
    lastRapid? (s ++ t) = (lastRapid? t).or (lastRapid? s) := by
  simp [lastRapid?, List.findSome?_append]

theorem PathState.Marks.getD_eq {p? : Option Point} {p : Point} (h : Marks anchor p? p) :
    p?.getD ⟨anchor.x + 0, anchor.y + 0⟩ = ⟨anchor.x + p.x, anchor.y + p.y⟩ := by
  cases h <;> rfl

theorem PathState.inStep_initial : PathState.InStep anchor [] .initial := ⟨.unset, .unset⟩

/-! ## Cuts -/

/-- Cuts that take the pen from a point to another, or no cuts if it stays. -/
structure Reaches (settings : LaserSettings) (anchor current : Point) (cuts : Toolpath)
    (last : Point) : Prop where
  isCut : ∀ c ∈ cuts, ∃ target, c = settings.cutTo target
  pen : cuts = [] ∧ last = current ∨ cuts.lastPoint? = some (anchor.shift last)

namespace Reaches

variable {p q r : Point} {s t : Toolpath}

theorem refl (p : Point) : Reaches settings anchor p [] p := ⟨by simp, .inl ⟨rfl, rfl⟩⟩

theorem cut (p q : Point) : Reaches settings anchor p [settings.cutTo (anchor.shift q)] q :=
  ⟨List.forall_mem_singleton.2 ⟨_, rfl⟩, .inr rfl⟩

theorem trans (hs : Reaches settings anchor p s q) (ht : Reaches settings anchor q t r) :
    Reaches settings anchor p (s ++ t) r := by
  refine ⟨List.forall_mem_append.2 ⟨hs.isCut, ht.isCut⟩, ?_⟩
  rcases ht.pen with ⟨rfl, rfl⟩ | ht
  · simpa using hs.pen
  · exact .inr (by rw [Toolpath.lastPoint?_append, ht, Option.some_or])

theorem lastRapid?_eq (h : Reaches settings anchor p t q) : t.lastRapid? = none := by
  rw [Toolpath.lastRapid?, List.findSome?_eq_none_iff]
  intro c hc
  obtain ⟨target, rfl⟩ := h.isCut c (List.mem_reverse.1 hc)
  rfl

/-- Cuts keep the state in step, and the subpath starts where it did. -/
theorem inStep {front : Toolpath} {state : PathState}
    (h : Reaches settings anchor state.current t q) (hstep : state.InStep anchor front) :
    PathState.InStep anchor (front ++ t) { state with current := q } := by
  constructor
  · rcases h.pen with ⟨rfl, rfl⟩ | hpen
    · simpa using hstep.current
    · rw [Toolpath.lastPoint?_append, hpen]
      exact .set q
  · simpa [h.lastRapid?_eq] using hstep.subpathStart

end Reaches

namespace PathCommand

theorem reaches_traceCubic {curve : Cubic} {p q : Point} (hfinish : curve.finish = anchor.shift q)
    (hend : curve.isStraight = false → curve.sample 1 = curve.finish) :
    Reaches settings anchor p (settings.traceCubic curve) q := by
  constructor
  · intro c hc
    unfold LaserSettings.traceCubic at hc
    grind
  · exact .inr (hfinish ▸ Network.lastPoint?_traceCubic hend)

theorem reaches_traceLines (relative : Bool) (current : Point) (params : List Float) :
    Reaches settings anchor current (traceLines settings anchor relative current params).2
      (traceLines settings anchor relative current params).1 := by
  fun_induction traceLines settings anchor relative current params with
  | case1 current x y rest next last cuts heq ih =>
    rw [heq] at ih
    exact (Reaches.cut current next).trans ih
  | case2 => exact .refl _

/-- Curves are cut one behind the other, each from where the pen is. -/
theorem flattens_traceCurves (relative : Bool) (current : Point) (params : List Float)
    (hends : CurvesEnd (curvesFrom anchor relative current params)) :
    Reaches settings anchor current (traceCurves settings anchor relative current params).2
      (traceCurves settings anchor relative current params).1 ∧
    ∀ front : Toolpath, PathState.Marks anchor front.lastPoint? current →
      Flattens settings anchor front (curvesFrom anchor relative current params)
        (traceCurves settings anchor relative current params).2 := by
  fun_induction traceCurves settings anchor relative current params with
  | case1 current x₁ y₁ x₂ y₂ x y rest next curve last cuts heq ih =>
    rw [curvesFrom, CurvesEnd, List.forall_mem_cons] at hends
    obtain ⟨hend, hends⟩ := hends
    obtain ⟨hreaches, hflattens⟩ := ih hends
    rw [heq] at hreaches hflattens
    have hcurve : Reaches settings anchor current (settings.traceCubic curve) next :=
      reaches_traceCubic rfl hend
    refine ⟨hcurve.trans hreaches, fun front hpen => ?_⟩
    rw [curvesFrom]
    refine .cons hpen.getD_eq.symm (hflattens _ ?_)
    rw [Toolpath.lastPoint?_append, Network.lastPoint?_traceCubic hend]
    exact .set next
  | case2 current params h =>
    rw [curvesFrom]
    · exact ⟨.refl _, fun _ _ => .nil⟩
    · exact h

/-! ## Commands -/

/-- A command is a rapid that starts a subpath, or cuts from the point reached. -/
theorem trace_cases {state : PathState} {c : PathCommand}
    (hends : CurvesEnd (c.curves anchor state.current)) :
    (∃ p, trace settings anchor state c = (⟨p, p⟩, [settings.rapidTo (anchor.shift p)])) ∨
    ∃ last cuts, trace settings anchor state c = ({ state with current := last }, cuts) ∧
      Reaches settings anchor state.current cuts last := by
  unfold trace
  split
  · exact .inl ⟨_, rfl⟩
  · exact .inr ⟨_, _, rfl, reaches_traceLines _ _ _⟩
  · exact .inr ⟨_, _, rfl, .cut _ _⟩
  · exact .inr ⟨_, _, rfl, .cut _ _⟩
  · next params hletter =>
    rw [curves, if_pos hletter] at hends
    exact .inr ⟨_, _, rfl, (flattens_traceCurves _ _ _ hends).1⟩
  · exact .inr ⟨_, _, rfl, .cut _ _⟩
  · exact .inr ⟨_, _, rfl, .refl _⟩

theorem inStep_trace {front : Toolpath} {state : PathState} {c : PathCommand}
    (hstep : state.InStep anchor front) (hends : CurvesEnd (c.curves anchor state.current)) :
    PathState.InStep anchor (front ++ (trace settings anchor state c).2)
      (trace settings anchor state c).1 := by
  rcases trace_cases hends with ⟨p, htrace⟩ | ⟨last, cuts, htrace, hreaches⟩ <;> rw [htrace]
  · constructor
    · rw [Toolpath.lastPoint?_append]
      exact .set p
    · rw [Toolpath.lastRapid?_append]
      exact .set p
  · exact hreaches.inStep hstep

theorem opening?_eq_none_iff {c : PathCommand} : c.opening? = none ↔ c.IsIdle := by
  unfold opening? IsIdle needed?
  split <;> simp [*]

/-- The commands that do nothing are those that cannot be traced or are short of numbers. -/
theorem snd_trace_eq_nil_iff (settings : LaserSettings) (anchor : Point) (state : PathState)
    (c : PathCommand) : (trace settings anchor state c).2 = [] ↔ c.IsIdle := by
  rw [← opening?_eq_none_iff, ← opening?_trace settings anchor state]
  have hdraws := draws_trace (s := settings) anchor state c
  generalize (trace settings anchor state c).2 = motions at hdraws ⊢
  cases motions with
  | nil => exact iff_of_true rfl rfl
  | cons m rest => cases hdraws m List.mem_cons_self <;> exact iff_of_false nofun nofun

theorem traceLines_accumulate (current : Point) (params : List Float) :
    traceLines settings anchor false current (accumulate current params) =
      traceLines settings anchor true current params := by
  match params with
  | x :: y :: rest =>
    have ih := traceLines_accumulate (current.offset x y) rest
    simp [accumulate, traceLines, resolve, ih]
  | [] | [_] => rfl

theorem traceCurves_accumulateCurves (current : Point) (params : List Float) :
    traceCurves settings anchor false current (accumulateCurves current params) =
      traceCurves settings anchor true current params := by
  fun_induction accumulateCurves current params with
  | case1 current x₁ y₁ x₂ y₂ x y rest next control₁ control₂ ih =>
    simp [traceCurves, resolve, ih, next, control₁, control₂]
  | case2 current rest h => rw [traceCurves, traceCurves] <;> exact h

/-- A command with offsets does what it does with the positions they lead to. -/
theorem trace_absolute (state : PathState) {c : PathCommand} (h : c.isRelative = true) :
    trace settings anchor state (c.absolute state.current) = trace settings anchor state c := by
  have habsolute : (c.absolute state.current).isRelative = false := Char.isLower_toUpper_eq_false _
  have hletter : (c.absolute state.current).letter.toUpper = c.letter.toUpper :=
    Char.toUpper_toUpper_eq_toUpper _
  obtain ⟨letter, params⟩ := c
  unfold trace
  rw [habsolute, hletter, h]
  unfold absolute
  dsimp only
  generalize letter.toUpper = upper
  obtain rfl | rfl | rfl | rfl | rfl | rfl | hother := upper_cases upper
  · rcases params with _ | ⟨x, _ | ⟨y, rest⟩⟩ <;> simp [accumulate, resolve]
  · simp only [traceLines_accumulate]
  · cases params <;> simp
  · cases params <;> simp
  · simp only [traceCurves_accumulateCurves]
  · simp
  · simp_all

/-- Positions of `n` numbers each are taken one after another, and the last two numbers of each are
where it ends. -/
theorem exists_last_position (last : Point → List Float → Point) {n : Nat} (hn : 2 ≤ n)
    (hshort : ∀ p params, params.length < n → last p params = p)
    (hstep : ∀ p front x y rest, front.length + 2 = n →
      last p (front ++ x :: y :: rest) = last ⟨x, y⟩ rest)
    (p : Point) {params : List Float} (h : n ≤ params.length) :
    ∃ before x y rest, params = before ++ x :: y :: rest ∧ before.length % n = n - 2 ∧
      rest.length < n ∧ last p params = ⟨x, y⟩ := by
  induction hlength : params.length using Nat.strong_induction_on generalizing p params with
  | _ length ih =>
    subst hlength
    obtain ⟨front, x, y, rest, hfront, rfl⟩ : ∃ front x y rest, front.length + 2 = n ∧
        params = front ++ x :: y :: rest := by
      have hsplit := List.take_append_drop (n - 2) params
      have hdrop : (params.drop (n - 2)).length = params.length - (n - 2) := List.length_drop
      match hbehind : params.drop (n - 2) with
      | [] | [_] =>
        rw [hbehind] at hdrop
        simp at hdrop
        omega
      | x :: y :: rest =>
        exact ⟨params.take (n - 2), x, y, rest, by simp; omega, by rw [← hbehind, hsplit]⟩
    rw [hstep p front x y rest hfront]
    by_cases hrest : n ≤ rest.length
    · obtain ⟨before, x', y', behind, rfl, hbefore, hbehind, hlast⟩ :=
        ih rest.length (by simp; omega) ⟨x, y⟩ hrest rfl
      refine ⟨front ++ x :: y :: before, x', y', behind, by simp, ?_, hbehind, hlast⟩
      have hadd : (front ++ x :: y :: before).length = n + before.length := by
        simp
        omega
      rw [hadd, Nat.add_mod_left, hbefore]
    · refine ⟨front, x, y, rest, rfl, ?_, by omega, hshort _ _ (by omega)⟩
      rw [Nat.mod_eq_of_lt (by omega)]
      omega

theorem endsAt_traceLines (pen current : Point) {params : List Float} (h : 2 ≤ params.length) :
    EndsAt pen 'L' params (traceLines settings anchor false current params).1 := by
  obtain ⟨before, x, y, rest, rfl, hbefore, hrest, hlast⟩ := exists_last_position
    (fun p params => (traceLines settings anchor false p params).1) le_rfl
    (fun _ params h => match params, h with
      | [], _ | [_], _ => rfl)
    (fun _ front _ _ _ h => match front, h with
      | [], _ => rfl) current h
  rw [hlast]
  exact .lines x y hbefore hrest

theorem endsAt_traceCurves (pen current : Point) {params : List Float} (h : 6 ≤ params.length) :
    EndsAt pen 'C' params (traceCurves settings anchor false current params).1 := by
  obtain ⟨before, x, y, rest, rfl, hbefore, hrest, hlast⟩ := exists_last_position
    (fun p params => (traceCurves settings anchor false p params).1) (by decide)
    (fun _ params h => match params, h with
      | [], _ | [_], _ | [_, _], _ | [_, _, _], _ | [_, _, _, _], _ | [_, _, _, _, _], _ => rfl)
    (fun _ front _ _ _ h => match front, h with
      | [_, _, _, _], _ => rfl) current h
  rw [hlast]
  exact .curves x y hbefore hrest

/-- A command with positions ends where its last numbers say. -/
theorem endsAt_trace (settings : LaserSettings) (anchor : Point) (state : PathState)
    {c : PathCommand} (habsolute : c.isRelative = false) (hidle : ¬ c.IsIdle)
    (hclose : c.letter.toUpper ≠ 'Z') :
    EndsAt state.current c.letter.toUpper c.params (trace settings anchor state c).1.current := by
  obtain ⟨n, hn, hlength⟩ : ∃ n ∈ c.needed?, n ≤ c.params.length := by
    simpa [IsIdle] using hidle
  obtain ⟨letter, params⟩ := c
  unfold needed? at hn
  unfold trace
  rw [habsolute]
  dsimp only at hn hlength hclose ⊢
  generalize letter.toUpper = upper at hn hclose ⊢
  obtain rfl | rfl | rfl | rfl | rfl | rfl | hother := upper_cases upper
  · cases hn
    match params, hlength with
    | x :: y :: rest, _ => exact .move x y rest
  · cases hn
    exact endsAt_traceLines _ _ hlength
  · cases hn
    match params, hlength with
    | x :: rest, _ => exact .horizontal x rest
  · cases hn
    match params, hlength with
    | y :: rest, _ => exact .vertical y rest
  · cases hn
    exact endsAt_traceCurves _ _ hlength
  · exact absurd rfl hclose
  · simp_all

/-- The motions of a command keep the state in step and follow what is in front of them. -/
theorem follows_trace {front : Toolpath} {state : PathState} {c : PathCommand}
    (hstep : state.InStep anchor front) (hends : CurvesEnd (c.curves anchor state.current)) :
    Follows settings anchor front state c (trace settings anchor state c).2
      (trace settings anchor state c).1 where
  own := rfl
  draws := draws_trace anchor state c
  eq_nil_iff := snd_trace_eq_nil_iff settings anchor state c
  idle hidle := by
    have hnil := (snd_trace_eq_nil_iff settings anchor state c).2 hidle
    rcases trace_cases hends with ⟨p, htrace⟩ | ⟨last, cuts, htrace, hreaches⟩
    · rw [htrace] at hnil
      exact absurd hnil (List.cons_ne_nil _ _)
    · rw [htrace] at hnil ⊢
      obtain rfl : cuts = [] := hnil
      obtain ⟨-, rfl⟩ := hreaches.pen.resolve_right nofun
      rfl
  relative h := trace_absolute state h
  positions habsolute hidle hclose := endsAt_trace settings anchor state habsolute hidle hclose
  flattens hletter := by
    rw [curves, if_pos hletter] at hends ⊢
    unfold trace
    rw [hletter]
    exact (flattens_traceCurves _ _ _ hends).2 front hstep.current
  close hletter := by
    rw [hstep.subpathStart.getD_eq]
    unfold trace
    rw [hletter]
    exact ⟨rfl, rfl⟩

/-! ## Runs -/

theorem followsAll_traceAll {commands : List PathCommand} {front : Toolpath} {state : PathState}
    (hstep : state.InStep anchor front)
    (hends : CurvesEnd (curvesAll settings anchor state commands)) :
    FollowsAll settings anchor front state commands (traceAll settings anchor state commands) := by
  induction commands generalizing front state with
  | nil => exact .nil hstep
  | cons c rest ih =>
    rw [curvesAll, CurvesEnd, List.forall_mem_append] at hends
    exact .cons hstep (follows_trace hstep hends.1) (ih (inStep_trace hstep hends.1) hends.2)

theorem fst_foldl_writeNext (commands : List PathCommand) (written : Toolpath) (state : PathState) :
    (commands.foldl (writeNext settings anchor) (written, state)).1 =
      written ++ traceAll settings anchor state commands := by
  induction commands generalizing written state with
  | nil => simp [traceAll]
  | cons c rest ih => rw [List.foldl_cons, writeNext, ih, traceAll, List.append_assoc]

/-- Path data adds rapids and straight cuts to what is written, and nothing else. If its curves end
where they should, the state is in step with the motions in front of every command and behind the
last: the pen is at the point reached and the last rapid went to the start of the subpath. -/
theorem followsAll_tracePathData (settings : LaserSettings) (anchor : Point) (data : String) :
    (∀ written, write settings anchor written data =
      written ++ tracePathData settings anchor data) ∧
    (∀ m ∈ tracePathData settings anchor data, settings.Draws m) ∧
    (CurvesEnd (curvesAll settings anchor .initial (ofData data)) →
      FollowsAll settings anchor [] .initial (ofData data)
        (tracePathData settings anchor data)) :=
  ⟨fun written => fst_foldl_writeNext (ofData data) written .initial,
    draws_tracePathData anchor data, followsAll_traceAll PathState.inStep_initial⟩

/-- A wave with a line that is short of a number and a curve that cannot be traced, closed and
followed by a line in a subpath of its own. -/
theorem followsAll_tracePathData_of_wave :
    let wave := "M5 5c0 4 4 4 4 0l1Q1 1 2 2l2,-1zm1 1h3"
    CurvesEnd (curvesAll {} ⟨10, 20⟩ .initial (ofData wave)) ∧
      FollowsAll {} ⟨10, 20⟩ [] .initial (ofData wave) (tracePathData {} ⟨10, 20⟩ wave) ∧
        write {} ⟨10, 20⟩ [.comment "VECTOR"] wave =
          [.comment "VECTOR"] ++ tracePathData {} ⟨10, 20⟩ wave := by
  intro wave
  obtain ⟨hwrite, -, hfollows⟩ := followsAll_tracePathData {} ⟨10, 20⟩ wave
  -- in steps, since the kernel would read the text again for every curve
  have hcommands : ofData wave = [⟨'M', [5, 5]⟩, ⟨'c', [0, 4, 4, 4, 4, 0]⟩, ⟨'l', [1]⟩,
      ⟨'Q', [1, 1, 2, 2]⟩, ⟨'l', [2, -1]⟩, ⟨'z', []⟩, ⟨'m', [1, 1]⟩, ⟨'h', [3]⟩] := by
    decide +kernel
  have hcurves : curvesAll {} ⟨10, 20⟩ .initial (ofData wave) =
      [⟨⟨15, 25⟩, ⟨15, 29⟩, ⟨19, 29⟩, ⟨19, 25⟩⟩] := by
    rw [hcommands]
    decide +kernel
  have hends : CurvesEnd (curvesAll {} ⟨10, 20⟩ .initial (ofData wave)) := by
    rw [hcurves]
    decide +kernel
  exact ⟨hends, hfollows hends, hwrite _⟩

end PathCommand

end LaserPath
