import LaserPath.Decimal.Reader
import LaserPath.Decimal.Spelling
import LaserPath.Proofs.Decimal.Characters
import LaserPath.Proofs.Decimal.Shortest

/-!
# Numerals

The text of a decimal is a sign and a numeral: digits, a point with digits behind it, and a power
of ten, of which one of the last two may be missing. The value of the numeral is that of the
decimal, wherever the point stands.

## Main definitions

* `Numeral` — the parts of a numeral; `Numeral.signed` and `Numeral.decimal` are its text and its
  value with a sign.

## Main statements

* `Decimal.exists_numeral` — the text of a decimal is a numeral of the same value.
-/

namespace LaserPath

/-! ## Digits -/

theorem foldl_digits (digits : List Char) (n : Nat) :
    digits.foldl (fun n c => 10 * n + (c.toNat - '0'.toNat)) n =
      n * 10 ^ digits.length + valueOfDigits digits := by
  induction digits generalizing n with
  | nil => simp [valueOfDigits]
  | cons c rest ih =>
    rw [valueOfDigits, List.foldl_cons, List.foldl_cons, ih, ih, List.length_cons]
    ring

/-- Digits in front of others count by the places of the others. -/
theorem valueOfDigits_append (a b : List Char) :
    valueOfDigits (a ++ b) = valueOfDigits a * 10 ^ b.length + valueOfDigits b := by
  rw [valueOfDigits, List.foldl_append, foldl_digits]
  rfl

theorem valueOfDigits_replicate_zero (n : Nat) : valueOfDigits (List.replicate n '0') = 0 := by
  induction n with
  | zero => rfl
  | succ n ih => rwa [List.replicate_succ, valueOfDigits, List.foldl_cons]

/-- Zeros in front of other digits do not count. -/
theorem valueOfDigits_zeros_append (n : Nat) (digits : List Char) :
    valueOfDigits (List.replicate n '0' ++ digits) = valueOfDigits digits := by
  rw [valueOfDigits_append, valueOfDigits_replicate_zero, Nat.zero_mul, Nat.zero_add]

@[simp] theorem valueOfDigits_digitsOf (n : Nat) : valueOfDigits (digitsOf n) = n :=
  Nat.ofDigitChars_toDigits (by decide) (by decide)

theorem ne_of_isDigit {c d : Char} (h : c.isDigit = true) (hd : d.isDigit = false) : c ≠ d := by
  rintro rfl
  rw [h] at hd
  cases hd

theorem isDigit_of_mem_zero : ∀ c ∈ ['0'], c.isDigit = true := by
  rw [List.forall_mem_singleton]
  decide

theorem digitsOf_ne_nil (n : Nat) : digitsOf n ≠ [] :=
  List.ne_nil_of_length_pos Nat.length_toDigits_pos

/-- Only zero begins with a zero. -/
theorem head?_digitsOf {n : Nat} (h : 0 < n) : (digitsOf n).head? ≠ some '0' := by
  induction n using Nat.strongRecOn with
  | ind n ih =>
    rcases Nat.lt_or_ge n 10 with hlt | hge
    · have : ∀ m < 10, 0 < m → (digitsOf m).head? ≠ some '0' := by decide
      exact this n hlt h
    · have hpos : 0 < n / 10 := Nat.div_pos hge (by decide)
      have hsplit := Nat.toDigits_append_toDigits (b := 10) (by decide) hpos
        (Nat.mod_lt n (by decide))
      rw [Nat.div_add_mod] at hsplit
      have hne : Nat.toDigits 10 (n / 10) ≠ [] := digitsOf_ne_nil (n / 10)
      rw [digitsOf, ← hsplit, List.head?_append_of_ne_nil _ hne]
      exact ih (n / 10) (by omega) hpos

theorem digitsOf_lead (n : Nat) : digitsOf n = ['0'] ∨ (digitsOf n).head? ≠ some '0' := by
  rcases Nat.eq_zero_or_pos n with rfl | h
  · exact .inl rfl
  · exact .inr (head?_digitsOf h)

/-! ## Numerals -/

/-- The digits before and behind a point, and a power of ten. -/
structure Numeral where
  whole : List Char
  places : List Char
  power? : Option Int
  deriving DecidableEq

namespace Numeral

/-- The point with the digits behind it, if there are any. -/
def fraction (n : Numeral) : List Char := if n.places.isEmpty then [] else '.' :: n.places

/-- The mark with the exponent, its sign included, if there is one. -/
def power (n : Numeral) : List Char :=
  n.power?.elim [] fun p => 'e' :: (if p < 0 then '-' else '+') :: digitsOf p.natAbs

/-- The text of a numeral. -/
def chars (n : Numeral) : List Char := n.whole ++ n.fraction ++ n.power

/-- The text of a numeral with a sign. -/
def signed (n : Numeral) (negative : Bool) : List Char :=
  if negative then '-' :: n.chars else n.chars

/-- The value of a numeral with a sign. -/
def decimal (n : Numeral) (negative : Bool) : Decimal :=
  Decimal.ofPlaces negative n.whole n.places (n.power?.getD 0)

/-- A numeral with digits in front of its point, no zero in front of other digits, and a point or
a power of ten. -/
structure WellFormed (n : Numeral) : Prop where
  whole_ne_nil : n.whole ≠ []
  isDigit_whole : ∀ c ∈ n.whole, c.isDigit = true
  isDigit_places : ∀ c ∈ n.places, c.isDigit = true
  lead : n.whole = ['0'] ∨ n.whole.head? ≠ some '0'
  marked : n.places = [] → n.power?.isSome = true

variable {n : Numeral}

/-- The first character of a numeral is a digit. -/
theorem exists_digit_of_wellFormed (hw : n.WellFormed) :
    ∃ c rest, n.chars = c :: rest ∧ c.isDigit = true := by
  obtain ⟨c, rest, hc⟩ := List.exists_cons_of_ne_nil hw.whole_ne_nil
  refine ⟨c, rest ++ n.fraction ++ n.power, ?_, hw.isDigit_whole c (by simp [hc])⟩
  rw [chars, hc]
  rfl

theorem chars_ne_cons (hw : n.WellFormed) {c : Char} (hc : c.isDigit = false)
    {rest : List Char} : n.chars ≠ c :: rest := by
  obtain ⟨first, tail, hchars, hd⟩ := exists_digit_of_wellFormed hw
  have hne := ne_of_isDigit hd hc
  simp [hchars, hne]

/-- Only a digit or a minus sign begins a numeral. -/
theorem signed_ne_cons (hw : n.WellFormed) {c : Char} (hc : c.isDigit = false) (hm : c ≠ '-')
    {negative : Bool} {rest : List Char} : n.signed negative ≠ c :: rest := by
  cases negative with
  | true => simp [signed, hm.symm]
  | false => exact chars_ne_cons hw hc

theorem splitSign_signed (hw : n.WellFormed) (negative : Bool) :
    splitSign (n.signed negative) = (negative, n.chars) := by
  obtain ⟨c, rest, hc, hd⟩ := exists_digit_of_wellFormed hw
  cases negative with
  | true => rfl
  | false =>
    have hminus := ne_of_isDigit hd (by decide : '-'.isDigit = false)
    have hplus := ne_of_isDigit hd (by decide : '+'.isDigit = false)
    rw [signed, if_neg Bool.false_ne_true, hc]
    unfold splitSign
    split <;> simp_all

theorem places_ne_nil (hw : n.WellFormed) (hp : n.power? = none) : n.places ≠ [] := by
  intro h
  have hs := hw.marked h
  rw [hp] at hs
  cases hs

/-- Without a power of ten a numeral is digits, a point, and digits. -/
theorem chars_of_power?_eq_none (hw : n.WellFormed) (hp : n.power? = none) :
    n.chars = n.whole ++ '.' :: n.places := by
  simp [chars, fraction, power, hp, places_ne_nil hw hp]

/-- The characters of a numeral are digits and a point. -/
theorem isDigit_or_eq_of_mem_chars (hw : n.WellFormed) (hp : n.power? = none) {c : Char}
    (h : c ∈ n.chars) : c.isDigit = true ∨ c = '.' := by
  rw [chars_of_power?_eq_none hw hp, List.mem_append, List.mem_cons] at h
  rcases h with h | h | h
  · exact .inl (hw.isDigit_whole c h)
  · exact .inr h
  · exact .inl (hw.isDigit_places c h)

theorem not_mem_chars (hw : n.WellFormed) (hp : n.power? = none) {c : Char}
    (hd : c.isDigit = false) (hc : c ≠ '.') : c ∉ n.chars := by
  intro h
  rcases isDigit_or_eq_of_mem_chars hw hp h with h | h
  · rw [hd] at h
    cases h
  · exact hc h

end Numeral

namespace Decimal

variable {d : Decimal}

/-- Digits in place are a numeral without a power of ten. -/
theorem exists_numeral_inPlaceText (d : Decimal) (hz : d.coefficient = 0 → d.exponent = 0) :
    ∃ n : Numeral, n.WellFormed ∧ n.power? = none ∧
      inPlaceText ['.', '0'] (digitsOf d.coefficient) d.exponent = n.chars ∧
        ∀ negative, (n.decimal negative).magnitude = d.magnitude := by
  have hdigits : ∀ c ∈ digitsOf d.coefficient, c.isDigit = true := fun _ => isDigit_of_mem_digitsOf
  have hne := digitsOf_ne_nil d.coefficient
  have hvalue := valueOfDigits_digitsOf d.coefficient
  have hlead : d.coefficient ≠ 0 → (digitsOf d.coefficient).head? ≠ some '0' :=
    fun h => head?_digitsOf (Nat.pos_of_ne_zero h)
  have hzero : d.coefficient = 0 → digitsOf d.coefficient = ['0'] := by
    intro h
    rw [h]
    rfl
  unfold magnitude
  generalize digitsOf d.coefficient = digits at *
  unfold inPlaceText
  split
  · next he =>
    -- the digits and zeros behind them, and a zero behind the point
    obtain ⟨k, hk⟩ := Int.eq_ofNat_of_zero_le he
    refine ⟨⟨digits ++ List.replicate k '0', ['0'], none⟩, ⟨?_, ?_, ?_, ?_, nofun⟩, rfl, ?_, ?_⟩
    · exact List.append_ne_nil_of_left_ne_nil hne _
    · exact List.forall_mem_append.2 ⟨hdigits, fun _ => isDigit_of_mem_zeros⟩
    · exact isDigit_of_mem_zero
    · by_cases hc : d.coefficient = 0
      · obtain rfl : k = 0 := by
          have := hz hc
          omega
        exact .inl (by simp [hzero hc])
      · exact .inr (by simpa [List.head?_append_of_ne_nil _ hne] using hlead hc)
    · rw [hk]
      simp [Numeral.chars, Numeral.fraction, Numeral.power]
    · intro negative
      have h0 : valueOfDigits ['0'] = 0 := rfl
      simp only [Numeral.decimal, ofPlaces]
      rw [valueOfDigits_append, valueOfDigits_append, valueOfDigits_replicate_zero, hvalue, h0,
        List.length_replicate, hk]
      push_cast
      rw [Option.getD_none, zpow_natCast]
      norm_num
      ring
  · next he =>
    have hc : d.coefficient ≠ 0 := fun h => he (hz h).ge
    obtain ⟨k, hk⟩ := Int.eq_ofNat_of_zero_le (by omega : 0 ≤ -d.exponent)
    have hexponent : d.exponent = -k := by omega
    rw [hk, Int.toNat_natCast]
    dsimp only
    split
    · next hp =>
      -- the point among the digits
      have hsplit := List.take_append_drop (digits.length - k) digits
      have htake : digits.take (digits.length - k) ≠ [] := by
        refine List.ne_nil_of_length_pos ?_
        rw [List.length_take]
        omega
      have hdrop : digits.drop (digits.length - k) ≠ [] := by
        refine List.ne_nil_of_length_pos ?_
        rw [List.length_drop]
        omega
      refine ⟨⟨digits.take (digits.length - k), digits.drop (digits.length - k), none⟩,
        ⟨htake, ?_, ?_, .inr ?_, fun h => absurd h hdrop⟩, rfl, ?_, ?_⟩
      · exact fun c h => hdigits c (List.mem_of_mem_take h)
      · exact fun c h => hdigits c (List.mem_of_mem_drop h)
      · have hhead := hlead hc
        rwa [← hsplit, List.head?_append_of_ne_nil _ htake] at hhead
      · simp [Numeral.chars, Numeral.fraction, Numeral.power, hdrop]
      · intro negative
        have hlength : (digits.drop (digits.length - k)).length = k := by
          rw [List.length_drop]
          omega
        simp only [Numeral.decimal, ofPlaces]
        rw [hsplit, hvalue, hlength, hexponent, Option.getD_none, zero_sub]
    · next hp =>
      -- zeros behind the point, and the digits behind them
      refine ⟨⟨['0'], List.replicate (k - digits.length) '0' ++ digits, none⟩,
        ⟨by simp, isDigit_of_mem_zero, ?_, .inl rfl, fun h => absurd h ?_⟩, rfl, ?_, ?_⟩
      · exact List.forall_mem_append.2 ⟨fun _ => isDigit_of_mem_zeros, hdigits⟩
      · exact List.append_ne_nil_of_right_ne_nil _ hne
      · simp [Numeral.chars, Numeral.fraction, Numeral.power, hne]
      · intro negative
        have hlength : (List.replicate (k - digits.length) '0' ++ digits).length = k := by
          rw [List.length_append, List.length_replicate]
          omega
        have h0 : valueOfDigits ['0'] = 0 := rfl
        simp only [Numeral.decimal, ofPlaces]
        rw [valueOfDigits_append, valueOfDigits_append, valueOfDigits_replicate_zero, hvalue, h0,
          hlength, hexponent, Option.getD_none, zero_sub]
        simp

/-- Digits behind one digit and a power of ten are a numeral. -/
theorem exists_numeral_scientificText (d : Decimal) :
    ∃ n : Numeral, n.WellFormed ∧
      scientificText (digitsOf d.coefficient)
        (d.exponent + (digitsOf d.coefficient).length - 1) = n.chars ∧
        ∀ negative, (n.decimal negative).magnitude = d.magnitude := by
  have hdigits : ∀ c ∈ digitsOf d.coefficient, c.isDigit = true := fun _ => isDigit_of_mem_digitsOf
  have hvalue := valueOfDigits_digitsOf d.coefficient
  have hlead := digitsOf_lead d.coefficient
  have hne := digitsOf_ne_nil d.coefficient
  unfold magnitude
  generalize digitsOf d.coefficient = digits at *
  obtain - | ⟨first, rest⟩ := digits
  · exact absurd rfl hne
  rw [List.forall_mem_cons] at hdigits
  generalize hpower : d.exponent + ((first :: rest).length : ℤ) - 1 = power
  refine ⟨⟨[first], rest, some power⟩, ⟨by simp, ?_, hdigits.2, ?_, fun _ => rfl⟩, ?_, ?_⟩
  · rw [List.forall_mem_singleton]
    exact hdigits.1
  · rcases hlead with h | h
    · exact .inl (by rw [(List.cons.inj h).1])
    · exact .inr h
  · cases rest <;> simp [scientificText, Numeral.chars, Numeral.fraction, Numeral.power]
  · intro negative
    simp only [Numeral.decimal, ofPlaces, List.singleton_append]
    rw [hvalue, Option.getD_some, ← hpower, List.length_cons]
    congr 2
    push_cast
    ring

/-- The text of a decimal is its sign and a numeral of the same value. If all digits are written in
place, there is no power of ten. -/
theorem exists_numeral {s : Spelling} (hs : s.wholeEnd = ".0") (d : Decimal)
    (hz : d.coefficient = 0 → d.exponent = 0) :
    ∃ n : Numeral, n.WellFormed ∧ (s.inPlace = none → n.power? = none) ∧
      d.spell s = n.signed d.negative ∧
        ∀ negative, (n.decimal negative).magnitude = d.magnitude := by
  have hend : s.wholeEnd.toList = ['.', '0'] := by
    rw [hs]
    rfl
  obtain ⟨n, hw, hp, ht, hm⟩ := exists_numeral_inPlaceText d hz
  obtain ⟨n', hw', ht', hm'⟩ := exists_numeral_scientificText d
  unfold spell
  dsimp only
  rw [hend, ht, ht']
  cases s.inPlace with
  | none => exact ⟨n, hw, fun _ => hp, rfl, hm⟩
  | some range =>
    obtain ⟨least, greatest⟩ := range
    dsimp only
    generalize d.exponent + ((digitsOf d.coefficient).length : ℤ) - 1 = lead
    by_cases hr : least ≤ lead ∧ lead ≤ greatest
    · rw [if_pos hr]
      exact ⟨n, hw, nofun, rfl, hm⟩
    · rw [if_neg hr]
      exact ⟨n', hw', nofun, rfl, hm'⟩

end Decimal

end LaserPath
