import LaserPath.Json.Printer
import LaserPath.Json.Reader
import LaserPath.Proofs.Decimal.Numeral

/-!
# Numbers and strings in JSON

The machine takes a number or a string that has been written from its first character to its last.
Where a number ends is seen only behind it.

## Main definitions

* `Json.Runs` — a text takes the machine from one state to another.
* `Json.NumberText.run?` — the number that a text is.

## Main statements

* `Json.NumberText.exists_run?_signed` — a numeral is a number with a point or an exponent.
* `Json.runs_escape` — the machine takes a character of a string as it has been escaped.
-/

namespace LaserPath.Json

variable {rules : Rules} {stack : List Frame}

/-! ## Runs -/

/-- The characters of a text, one after the other, lead from a state to another. -/
def Runs (rules : Rules) (s : State) (text : List Char) (t : State) : Prop :=
  text.foldlM (step rules) s = .ok t

section

variable {s t u : State} {a b : List Char} {c : Char}

theorem Runs.nil (s : State) : Runs rules s [] s := rfl

theorem Runs.cons (h : step rules s c = .ok t) (h' : Runs rules t b u) :
    Runs rules s (c :: b) u := by
  rw [Runs, List.foldlM_cons, h]
  exact h'

theorem Runs.exists_of_cons (h : Runs rules s (c :: b) u) :
    ∃ t, step rules s c = .ok t ∧ Runs rules t b u := by
  rw [Runs, List.foldlM_cons] at h
  cases hstep : step rules s c with
  | error error =>
    rw [hstep] at h
    cases h
  | ok t =>
    rw [hstep] at h
    exact ⟨t, rfl, h⟩

theorem Runs.append (h : Runs rules s a t) (h' : Runs rules t b u) :
    Runs rules s (a ++ b) u := by
  rw [Runs, List.foldlM_append, h]
  exact h'

end

/-! ## Numbers -/

namespace NumberText

/-- The number with one more character, if it goes on with it. -/
def extend? (n : NumberText) (c : Char) : Option NumberText :=
  (n.phase.next? c).map fun phase => n.push phase c

/-- The number that the characters of a text are. -/
def run? : List Char → Option NumberText
  | [] => none
  | c :: rest => (start? c).bind (rest.foldlM extend? ·)

variable {n m : NumberText} {text more : List Char}

theorem run?_append (h : run? text = some n) : run? (text ++ more) = more.foldlM extend? n := by
  cases text with
  | nil => cases h
  | cons c rest =>
    obtain ⟨first, hf, hr⟩ := Option.bind_eq_some_iff.1 h
    rw [List.cons_append, run?, hf, Option.bind_some, List.foldlM_append, hr]
    rfl

theorem runs_extend (h : text.foldlM extend? n = some m) :
    Runs rules ⟨stack, .number n⟩ text ⟨stack, .number m⟩ := by
  induction text generalizing n with
  | nil =>
    cases h
    exact .nil _
  | cons c rest ih =>
    rw [List.foldlM_cons] at h
    obtain ⟨next, hnext, hrest⟩ := Option.bind_eq_some_iff.1 h
    obtain ⟨phase, hphase, rfl⟩ := Option.map_eq_some_iff.1 hnext
    refine .cons ?_ (ih hrest)
    unfold step
    simp only [hphase]

/-- A number is taken where a value is due. -/
theorem runs_run? (h : run? text = some n) :
    Runs rules ⟨stack, .value⟩ text ⟨stack, .number n⟩ := by
  cases text with
  | nil => cases h
  | cons c rest =>
    obtain ⟨first, hf, hr⟩ := Option.bind_eq_some_iff.1 h
    refine .cons ?_ (runs_extend hr)
    have hc : c = '-' ∨ c.isDigit = true := by
      unfold start? at hf
      split at hf
      · next hc => exact .inl hc
      split at hf
      · next hc => exact .inr (hc ▸ rfl)
      split at hf
      · next hc => exact .inr hc
      · cases hf
    have hspace : isSpace c = false := by
      by_contra hs
      simp only [isSpace, Bool.not_eq_false, Bool.or_eq_true, beq_iff_eq] at hs
      rcases hs with ((rfl | rfl) | rfl) | rfl <;> revert hc <;> decide
    unfold step
    simp only [hspace, Bool.false_eq_true, if_false]
    unfold State.startValue
    split <;> simp_all

/-- Digits in front of the point are taken one by one. -/
theorem foldlM_extend?_whole {digits : List Char} (hd : ∀ c ∈ digits, c.isDigit = true)
    (hn : n.phase = .whole) :
    digits.foldlM extend? n = some { n with whole := digits.reverse ++ n.whole } := by
  induction digits generalizing n with
  | nil => rfl
  | cons c digits ih =>
    obtain ⟨hc, hd⟩ := List.forall_mem_cons.1 hd
    have hnext : extend? n c = some { n with whole := c :: n.whole } := by
      rw [extend?, hn, NumberPhase.next?, if_pos hc, Option.map_some, push, ← hn]
    rw [List.foldlM_cons, hnext, List.reverse_cons, List.append_assoc]
    exact ih hd hn

/-- Digits behind the point or in the exponent lead back to their place. -/
theorem exists_foldlM_extend?_digits {digits : List Char} (hd : ∀ c ∈ digits, c.isDigit = true)
    {phase : NumberPhase} (hp : phase = .places ∨ phase = .exponent) (hn : n.phase = phase) :
    ∃ m, digits.foldlM extend? n = some m ∧ m.phase = phase ∧ m.isWhole = n.isWhole := by
  induction digits generalizing n with
  | nil => exact ⟨n, rfl, hn, rfl⟩
  | cons c digits ih =>
    obtain ⟨hc, hd⟩ := List.forall_mem_cons.1 hd
    have hnext : extend? n c = some (n.push phase c) := by
      rcases hp with rfl | rfl <;> simp [extend?, hn, NumberPhase.next?, hc]
    have hpush : (n.push phase c).phase = phase ∧ (n.push phase c).isWhole = n.isWhole := by
      rcases hp with rfl | rfl <;> exact ⟨rfl, rfl⟩
    obtain ⟨m, hm, hphase, hwhole⟩ := ih hd hpush.1
    refine ⟨m, ?_, hphase, hwhole.trans hpush.2⟩
    rw [List.foldlM_cons, hnext]
    exact hm

/-- The whole part of a number, with its sign. -/
theorem run?_whole {digits : List Char} (hne : digits ≠ []) (hd : ∀ c ∈ digits, c.isDigit = true)
    (hlead : digits = ['0'] ∨ digits.head? ≠ some '0') (negative : Bool) :
    run? (if negative then '-' :: digits else digits) =
      some ⟨if digits = ['0'] then .zero else .whole, negative, digits.reverse, [], false, 0,
        true⟩ := by
  obtain ⟨c, rest, rfl⟩ := List.exists_cons_of_ne_nil hne
  obtain ⟨hc, hrest⟩ := List.forall_mem_cons.1 hd
  rcases hlead with h | h
  · obtain ⟨rfl, rfl⟩ := List.cons.inj h
    cases negative <;> rfl
  · have h0 : c ≠ '0' := by simpa using h
    have hsign : c ≠ '-' := ne_of_isDigit hc (by decide)
    have hwhole := @foldlM_extend?_whole ⟨.whole, negative, [c], [], false, 0, true⟩ rest hrest rfl
    have hphase : (if c :: rest = ['0'] then .zero else .whole) = NumberPhase.whole :=
      if_neg (by simp [h0])
    rw [hphase, List.reverse_cons]
    cases negative with
    | false =>
      have hfirst : start? c = some ⟨.whole, false, [c], [], false, 0, true⟩ := by
        rw [start?, if_neg hsign, if_neg h0, if_pos hc]
      rw [if_neg Bool.false_ne_true, run?, hfirst]
      exact hwhole
    | true =>
      have hnext : extend? ⟨.sign, true, [], [], false, 0, true⟩ c =
          some ⟨.whole, true, [c], [], false, 0, true⟩ := by
        rw [extend?, NumberPhase.next?, if_neg h0, if_pos hc]
        rfl
      have hfirst : start? '-' = some ⟨.sign, true, [], [], false, 0, true⟩ := rfl
      rw [if_pos rfl, run?, hfirst, Option.bind_some, List.foldlM_cons, hnext]
      exact hwhole

/-- The digits behind the point, if there are any. -/
theorem exists_foldlM_extend?_fraction {numeral : Numeral}
    (hd : ∀ c ∈ numeral.places, c.isDigit = true) (hp : n.phase = .zero ∨ n.phase = .whole) :
    ∃ m, numeral.fraction.foldlM extend? n = some m ∧
      (m.phase = .zero ∨ m.phase = .whole ∨ m.phase = .places) ∧
        (m.isWhole = true → numeral.places = []) := by
  unfold Numeral.fraction
  cases hplaces : numeral.places with
  | nil => exact ⟨n, rfl, hp.imp_right .inl, fun _ => rfl⟩
  | cons c places =>
    rw [hplaces] at hd
    obtain ⟨hc, hrest⟩ := List.forall_mem_cons.1 hd
    have hpoint : extend? n '.' = some (n.push .point '.') := by
      rcases hp with hp | hp <;> rw [extend?, hp] <;> rfl
    have hfirst : extend? (n.push .point '.') c = some ((n.push .point '.').push .places c) := by
      simp [extend?, push, NumberPhase.next?, hc]
    obtain ⟨m, hm, hphase, hwhole⟩ :=
      exists_foldlM_extend?_digits hrest (.inl rfl) (n := (n.push .point '.').push .places c) rfl
    refine ⟨m, ?_, .inr (.inr hphase), fun h => ?_⟩
    · rw [List.isEmpty_cons, if_neg Bool.false_ne_true, List.foldlM_cons, hpoint,
        Option.bind_eq_bind, Option.bind_some, List.foldlM_cons, hfirst]
      exact hm
    · rw [hwhole] at h
      cases h

/-- The exponent, if there is one. -/
theorem exists_foldlM_extend?_power (numeral : Numeral)
    (hp : n.phase = .zero ∨ n.phase = .whole ∨ n.phase = .places) :
    ∃ m, numeral.power.foldlM extend? n = some m ∧ m.phase.isComplete = true ∧
      (m.isWhole = true → numeral.power? = none ∧ n.isWhole = true) := by
  unfold Numeral.power
  cases numeral.power? with
  | none =>
    refine ⟨n, rfl, ?_, fun h => ⟨rfl, h⟩⟩
    rcases hp with hp | hp | hp <;> rw [hp] <;> rfl
  | some p =>
    obtain ⟨c, rest, hdigits⟩ := List.exists_cons_of_ne_nil (digitsOf_ne_nil p.natAbs)
    have hd : ∀ d ∈ c :: rest, d.isDigit = true := hdigits ▸ fun _ => isDigit_of_mem_digitsOf
    obtain ⟨hc, hrest⟩ := List.forall_mem_cons.1 hd
    rw [Option.elim_some, hdigits]
    generalize hsign : (if p < 0 then '-' else '+') = sign
    have hmark : extend? n 'e' = some (n.push .mark 'e') := by
      rcases hp with hp | hp | hp <;> rw [extend?, hp] <;> rfl
    have hnext : extend? (n.push .mark 'e') sign =
        some ((n.push .mark 'e').push .exponentSign sign) := by
      rw [← hsign]
      split <;> rfl
    have hfirst : extend? ((n.push .mark 'e').push .exponentSign sign) c =
        some (((n.push .mark 'e').push .exponentSign sign).push .exponent c) := by
      simp [extend?, push, NumberPhase.next?, hc]
    obtain ⟨m, hm, hphase, hwhole⟩ := exists_foldlM_extend?_digits hrest (.inr rfl)
      (n := ((n.push .mark 'e').push .exponentSign sign).push .exponent c) rfl
    refine ⟨m, ?_, by rw [hphase]; rfl, fun h => ?_⟩
    · simp only [List.foldlM_cons, hmark, hnext, hfirst,
        Option.bind_eq_bind, Option.bind_some, hm]
    · rw [hwhole] at h
      cases h

/-- A numeral with a sign is a number with a point or an exponent. -/
theorem exists_run?_signed {numeral : Numeral} (hw : numeral.WellFormed) (negative : Bool) :
    ∃ m, run? (numeral.signed negative) = some m ∧
      m.phase.isComplete = true ∧ m.isWhole = false := by
  have hwhole := run?_whole hw.whole_ne_nil hw.isDigit_whole hw.lead negative
  generalize hfirst : (⟨if numeral.whole = ['0'] then .zero else .whole, negative,
    numeral.whole.reverse, [], false, 0, true⟩ : NumberText) = first at hwhole
  have hphase : first.phase = .zero ∨ first.phase = .whole := by
    rw [← hfirst]
    dsimp only
    split
    · exact .inl rfl
    · exact .inr rfl
  obtain ⟨point, hpoint, hpp, hpw⟩ := exists_foldlM_extend?_fraction hw.isDigit_places hphase
  obtain ⟨m, hm, hmp, hmw⟩ := exists_foldlM_extend?_power numeral hpp
  have htext : numeral.signed negative =
      (if negative then '-' :: numeral.whole else numeral.whole) ++
        (numeral.fraction ++ numeral.power) := by
    cases negative <;> simp [Numeral.signed, Numeral.chars]
  refine ⟨m, ?_, hmp, ?_⟩
  · rw [htext, run?_append hwhole, List.foldlM_append, hpoint]
    exact hm
  · by_contra h
    obtain ⟨hnone, hwhole⟩ := hmw (by simpa using h)
    have := hw.marked (hpw hwhole)
    rw [hnone] at this
    cases this

end NumberText

/-! ## Strings -/

/-- Two hexadecimal digits behind two zeros are the code of a control character. -/
theorem hexUnit?_control : ∀ n < 0x20,
    StringText.hexUnit? ['0', '0', hexDigit (n / 16), hexDigit (n % 16)] = some n ∧
      (hexDigit (n / 16) ≠ '"' ∧ hexDigit (n % 16) ≠ '"') ∧
        StringText.byteCount ['0', '0', hexDigit (n / 16)] = 3 ∧
          StringText.byteCount ['0', '0', hexDigit (n / 16), hexDigit (n % 16)] = 4 := by
  decide

theorem step_string (role : StringRole) {s t : StringText} {c : Char}
    (he : s.endsAt rules c = false) (h : s.step rules c = .ok t) :
    step rules ⟨stack, .string role s⟩ c = .ok ⟨stack, .string role t⟩ := by
  unfold step
  simp only [he, Bool.false_eq_true, if_false, h]
  rfl

theorem endsAt_of_ne {s : StringText} {c : Char} (h : c ≠ '"') : s.endsAt rules c = false := by
  rw [StringText.endsAt, beq_false_of_ne h, Bool.false_and]

/-- A control character is taken as it has been escaped by its code. -/
theorem runs_control (role : StringRole) {c : Char} (hc : c.toNat < 0x20) (taken : List Char)
    (isBroken : Bool) :
    Runs rules ⟨stack, .string role ⟨.plain, taken, isBroken⟩⟩
      ['\\', 'u', '0', '0', hexDigit (c.toNat / 16), hexDigit (c.toNat % 16)]
      ⟨stack, .string role ⟨.plain, c :: taken, isBroken⟩⟩ := by
  obtain ⟨hunit, ⟨hfirst, hsecond⟩, hthree, hfour⟩ := hexUnit?_control c.toNat hc
  generalize hexDigit (c.toNat / 16) = first at *
  generalize hexDigit (c.toNat % 16) = second at *
  have hzeros : Runs rules ⟨stack, .string role ⟨.plain, taken, isBroken⟩⟩ ['\\', 'u', '0', '0']
      ⟨stack, .string role ⟨.unit ['0', '0'] none, taken, isBroken⟩⟩ := rfl
  have hthird : StringText.step rules ⟨.unit ['0', '0'] none, taken, isBroken⟩ first =
      .ok ⟨.unit ['0', '0', first] none, taken, isBroken⟩ := by
    simp [StringText.step, hthree]
  have hfourth : StringText.step rules ⟨.unit ['0', '0', first] none, taken, isBroken⟩ second =
      .ok ⟨.plain, c :: taken, isBroken⟩ := by
    have hbelow : ¬ (0xd800 ≤ c.toNat ∧ c.toNat < 0xdc00) := by omega
    have hbelow' : ¬ (0xdc00 ≤ c.toNat ∧ c.toNat < 0xe000) := by omega
    simp only [StringText.step, List.cons_append, List.nil_append, hfour, hunit]
    rw [if_neg (Nat.lt_irrefl 4), StringText.pushUnit, if_neg hbelow, if_neg hbelow',
      Char.ofNat_toNat]
    rfl
  exact hzeros.append (.cons (step_string role (endsAt_of_ne hfirst) hthird)
    (.cons (step_string role (endsAt_of_ne hsecond) hfourth) (.nil _)))

/-- A character of a string is taken as it has been escaped. -/
theorem runs_escape (role : StringRole) {s : StringText} (hs : s.phase = .plain) (c : Char) :
    Runs rules ⟨stack, .string role s⟩ (escape c) ⟨stack, .string role (s.push c)⟩ := by
  obtain ⟨phase, taken, isBroken⟩ := s
  obtain rfl : phase = .plain := hs
  unfold escape
  split
  · rfl
  · rfl
  · rfl
  · rfl
  · rfl
  · rfl
  · rfl
  · next hquote hbackslash _ _ _ _ _ =>
    split
    · next hcontrol => exact runs_control role hcontrol taken isBroken
    · next hcontrol =>
      refine .cons (step_string role (endsAt_of_ne hquote) ?_) (.nil _)
      rw [StringText.step, StringText.step.plain, if_neg hbackslash, if_neg hcontrol]

/-- The characters of a string are taken as they have been escaped. -/
theorem runs_escapes (role : StringRole) {s : StringText} (hs : s.phase = .plain)
    (text : List Char) :
    Runs rules ⟨stack, .string role s⟩ (text.flatMap escape)
      ⟨stack, .string role { s with taken := text.reverse ++ s.taken }⟩ := by
  induction text generalizing s with
  | nil => exact .nil _
  | cons c text ih =>
    have hrest := ih (s := s.push c) rfl
    rw [StringText.push, ← hs] at hrest
    rw [List.flatMap_cons, List.reverse_cons, List.append_assoc]
    exact (runs_escape role hs c).append (hs ▸ hrest)

end LaserPath.Json
