import LaserPath.Proofs.Calendar
import LaserPath.Proofs.Decimal.Numeral

/-!
# The order of stamps

Numbers that are written with the same number of digits are ordered as their texts are. A stamp is
written in fields of two digits behind a year of four, the greatest unit first. So the stamps of
later seconds are greater as texts, for as long as years have four digits.

## Main definitions

* `Date.chars`, `clockChars` — the two halves of a stamp.
* `Timestamp.InFourDigits` — a moment whose year has four digits and no sign.

## Main statements

* `lt_of_valueOfDigits_lt` — digits in one width are ordered as their values.
* `Timestamp.stamp_lt_stamp` — later seconds have greater stamps.
-/

namespace LaserPath

/-! ## Digits in one width -/

theorem valueOfDigits_cons (c : Char) (digits : List Char) : valueOfDigits (c :: digits) =
    (c.toNat - '0'.toNat) * 10 ^ digits.length + valueOfDigits digits := by
  have h : valueOfDigits [c] = c.toNat - '0'.toNat := by simp [valueOfDigits]
  rw [← h, ← valueOfDigits_append, List.singleton_append]

theorem valueOfDigits_lt {digits : List Char} (h : ∀ c ∈ digits, c.isDigit = true) :
    valueOfDigits digits < 10 ^ digits.length := by
  induction digits with
  | nil => decide
  | cons c digits ih =>
    rw [List.forall_mem_cons, Char.isDigit_iff_toNat] at h
    have hc : c.toNat - '0'.toNat ≤ 9 := by
      have : '9'.toNat = '0'.toNat + 9 := rfl
      omega
    have := Nat.mul_le_mul_right (10 ^ digits.length) hc
    have := ih h.2
    rw [valueOfDigits_cons, List.length_cons, Nat.pow_succ]
    omega

/-- Of two texts of equally many digits the one of the smaller value comes first. -/
theorem lt_of_valueOfDigits_lt {a b : List Char} (hlength : a.length = b.length)
    (ha : ∀ c ∈ a, c.isDigit = true) (hb : ∀ c ∈ b, c.isDigit = true)
    (h : valueOfDigits a < valueOfDigits b) : a < b := by
  induction a generalizing b with
  | nil =>
    rw [List.eq_nil_of_length_eq_zero hlength.symm] at h
    exact absurd h (lt_irrefl _)
  | cons c a ih =>
    obtain - | ⟨d, b⟩ := b
    · cases hlength
    rw [List.length_cons, List.length_cons, Nat.succ_inj] at hlength
    rw [List.forall_mem_cons] at ha hb
    rw [valueOfDigits_cons, valueOfDigits_cons, hlength] at h
    rw [List.cons_lt_cons_iff]
    rcases Nat.lt_trichotomy c.toNat d.toNat with hlt | heq | hgt
    · exact .inl hlt
    · rw [heq] at h
      exact .inr ⟨Char.toNat_inj.1 heq, ih hlength ha.2 hb.2 (by omega)⟩
    · -- the digits behind a greater first digit cannot make up for it
      have hd := Char.isDigit_iff_toNat.1 hb.1
      have hfirst : d.toNat - '0'.toNat + 1 ≤ c.toNat - '0'.toNat := by omega
      have := Nat.mul_le_mul_right (10 ^ b.length) hfirst
      have := valueOfDigits_lt hb.2
      rw [Nat.succ_mul] at *
      omega

section

variable {width m n : Nat} {s t : List Char}

theorem toList_paddedDigits (width n : Nat) : (paddedDigits width n).toList =
    List.replicate (width - (digitsOf n).length) '0' ++ digitsOf n :=
  String.toList_ofList

theorem isDigit_of_mem_paddedDigits {c : Char} (h : c ∈ (paddedDigits width n).toList) :
    c.isDigit = true := by
  rw [toList_paddedDigits, List.mem_append] at h
  exact h.elim isDigit_of_mem_zeros isDigit_of_mem_digitsOf

theorem valueOfDigits_paddedDigits (width n : Nat) :
    valueOfDigits (paddedDigits width n).toList = n := by
  rw [toList_paddedDigits, valueOfDigits_zeros_append, valueOfDigits_digitsOf]

theorem length_paddedDigits (hw : 0 < width) (h : n < 10 ^ width) :
    (paddedDigits width n).toList.length = width := by
  have hle : (digitsOf n).length ≤ width :=
    (Nat.length_toDigits_le_iff (by decide) hw).2 h
  rw [toList_paddedDigits, List.length_append, List.length_replicate]
  omega

/-- Texts of one length decide the order, and only if they are the same what follows them does. -/
theorem append_lt_append {a b : List Char} (hlength : a.length = b.length)
    (h : a < b ∨ a = b ∧ s < t) : a ++ s < b ++ t := by
  induction a generalizing b with
  | nil =>
    obtain rfl := List.eq_nil_of_length_eq_zero hlength.symm
    simpa using h
  | cons c a ih =>
    obtain - | ⟨d, b⟩ := b
    · cases hlength
    simp only [List.length_cons, Nat.succ_inj] at hlength
    simp only [List.cons_append, List.cons_lt_cons_iff, List.cons.injEq] at h ⊢
    grind

/-- Numbers in one width decide the order, and only if they are the same what follows them does. -/
theorem paddedDigits_append_lt (hw : 0 < width) (hm : m < 10 ^ width) (hn : n < 10 ^ width)
    (h : m < n ∨ m = n ∧ s < t) :
    (paddedDigits width m).toList ++ s < (paddedDigits width n).toList ++ t := by
  have hlength : (paddedDigits width m).toList.length = (paddedDigits width n).toList.length := by
    rw [length_paddedDigits hw hm, length_paddedDigits hw hn]
  refine append_lt_append hlength (h.imp (fun hlt => ?_) fun ⟨heq, hlt⟩ => ⟨by rw [heq], hlt⟩)
  refine lt_of_valueOfDigits_lt hlength (fun _ => isDigit_of_mem_paddedDigits)
    (fun _ => isDigit_of_mem_paddedDigits) ?_
  rwa [valueOfDigits_paddedDigits, valueOfDigits_paddedDigits]

/-- A separator between fields does not change their order. -/
theorem separator_lt (c : Char) (h : s < t) : c :: s < c :: t :=
  List.cons_lt_cons_iff.2 (.inr ⟨rfl, h⟩)

end

/-! ## Stamps -/

/-- A date in a stamp. -/
def Date.chars (d : Date) : List Char :=
  (yearText d.year).toList ++ '-' :: ((paddedDigits 2 d.month).toList ++
    '-' :: (paddedDigits 2 d.day).toList)

/-- A time of the day in a stamp. -/
def clockChars (second : Nat) : List Char :=
  (paddedDigits 2 (second / 3600)).toList ++ '-' :: ((paddedDigits 2 (second / 60 % 60)).toList ++
    '-' :: (paddedDigits 2 (second % 60)).toList)

theorem yearText_eq {year : Int} (h : year ∈ Set.Icc 0 9999) :
    yearText year = paddedDigits 4 year.toNat := by
  obtain ⟨hlow, hhigh⟩ := h
  have hnat : year.natAbs = year.toNat := by omega
  unfold yearText
  rw [if_neg (by omega), if_neg (by omega), hnat]

/-- Dates decide the order, and only if they are the same what follows them does. -/
theorem Date.chars_append_lt {d e : Date} {s t : List Char}
    (hd : d.year ∈ Set.Icc 0 9999) (he : e.year ∈ Set.Icc 0 9999)
    (hd' : d.month < 100 ∧ d.day < 100) (he' : e.month < 100 ∧ e.day < 100)
    (h : d.key < e.key ∨ d = e ∧ s < t) : d.chars ++ s < e.chars ++ t := by
  obtain ⟨hd0, hd1⟩ := hd
  obtain ⟨he0, he1⟩ := he
  unfold chars
  rw [yearText_eq ⟨hd0, hd1⟩, yearText_eq ⟨he0, he1⟩]
  simp only [List.append_assoc, List.cons_append]
  have hlexicographic : d.year < e.year ∨ d.year = e.year ∧
      (d.month < e.month ∨ d.month = e.month ∧ (d.day < e.day ∨ d.day = e.day ∧ s < t)) := by
    rcases h with h | ⟨rfl, h⟩
    · have := key_lt_key_iff.1 h
      grind
    · exact .inr ⟨rfl, .inr ⟨rfl, .inr ⟨rfl, h⟩⟩⟩
  refine paddedDigits_append_lt (by decide) (by omega) (by omega) ?_
  refine hlexicographic.imp (fun hyear => by omega) fun ⟨hyear, h⟩ => ⟨by rw [hyear], ?_⟩
  refine separator_lt '-' (paddedDigits_append_lt (by decide) hd'.1 he'.1 ?_)
  refine h.imp_right fun ⟨hmonth, h⟩ => ⟨hmonth, ?_⟩
  exact separator_lt '-' (paddedDigits_append_lt (by decide) hd'.2 he'.2 h)

/-- Later seconds of a day have greater texts. -/
theorem clockChars_lt {a b : Nat} (h : a < b) (hb : b < 86400) : clockChars a < clockChars b := by
  have hlexicographic : a / 3600 < b / 3600 ∨ a / 3600 = b / 3600 ∧
      (a / 60 % 60 < b / 60 % 60 ∨ a / 60 % 60 = b / 60 % 60 ∧ a % 60 < b % 60) := by
    omega
  refine paddedDigits_append_lt (by decide) (by omega) (by omega) ?_
  refine hlexicographic.imp_right fun ⟨hhour, h⟩ => ⟨hhour, ?_⟩
  refine separator_lt '-' (paddedDigits_append_lt (by decide) (by omega) (by omega) ?_)
  refine h.imp_right fun ⟨hminute, h⟩ => ⟨hminute, ?_⟩
  have hsecond : (paddedDigits 2 (a % 60)).toList ++ [] < (paddedDigits 2 (b % 60)).toList ++ [] :=
    paddedDigits_append_lt (by decide) (by omega) (by omega) (.inl h)
  simpa using separator_lt '-' hsecond

namespace Timestamp

/-- The year of the moment has four digits and no sign. -/
def InFourDigits (t : Timestamp) : Prop := t.date.year ∈ Set.Icc 0 9999

variable {t u : Timestamp}

theorem toList_stamp (t : Timestamp) :
    t.stamp.toList = t.date.chars ++ 'T' :: clockChars t.secondOfDay := by
  simp [stamp, Date.chars, clockChars]

/-- Later seconds have greater stamps. -/
theorem stamp_lt_stamp (h : t.seconds < u.seconds) (ht : t.InFourDigits) (hu : u.InFourDigits) :
    t.stamp < u.stamp := by
  rw [String.lt_iff_toList_lt, toList_stamp, toList_stamp]
  refine Date.chars_append_lt ht hu (Date.ofDays_lt_hundred _) (Date.ofDays_lt_hundred _) ?_
  exact (date_lt_or_secondOfDay_lt h).imp_right fun ⟨hdate, hsecond⟩ =>
    ⟨hdate, separator_lt 'T' (clockChars_lt hsecond u.secondOfDay_lt)⟩

end Timestamp

end LaserPath
