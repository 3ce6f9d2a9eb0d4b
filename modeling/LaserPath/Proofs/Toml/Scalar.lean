import LaserPath.Proofs.Decimal.Order
import LaserPath.Proofs.Decimal.Words
import LaserPath.Toml.Reader
import Mathlib.Data.List.TakeWhile

/-!
# Words in TOML

A numeral with a point is read as the number that it spells, and a word that ends a line is read as
its value.

## Main statements

* `Toml.decimal?_signed` — a numeral with a sign is read as its value.
* `Toml.isWordOf_signed` — it is not taken for anything else.
* `Toml.value?_word` — a word at the end of a line.
-/

namespace LaserPath.Toml

open Numeral

/-! ## Numbers -/

/-- Digits have no underscores between them. -/
theorem ungroup?_digits {digits : List Char} (h : ∀ c ∈ digits, c.isDigit = true)
    (hne : digits ≠ []) : ungroup? Char.isDigit digits = some digits := by
  have hunderscore : '_' ∉ digits := fun hm => absurd (h '_' hm) (by decide)
  fun_induction ungroup? Char.isDigit digits <;> grind

theorem wholeDigits?_digits {digits : List Char} (h : ∀ c ∈ digits, c.isDigit = true)
    (hne : digits ≠ []) (hlead : digits = ['0'] ∨ digits.head? ≠ some '0') :
    wholeDigits? digits = some digits := by
  rw [wholeDigits?, if_neg (by grind), ungroup?_digits h hne]

section

variable {n : Numeral}

/-- A numeral with a sign is read as its value. -/
theorem decimal?_signed (hw : n.WellFormed) (hp : n.power? = none) (negative : Bool) :
    decimal? (n.signed negative) = some (n.decimal negative) := by
  have hne := places_ne_nil hw hp
  have hchars := chars_of_power?_eq_none hw hp
  have hmark : ∀ c ∈ n.chars, (!isMark c) = true := by
    rw [hchars, List.forall_mem_append, List.forall_mem_cons]
    have hdigit {c : Char} (hc : c.isDigit = true) : (!isMark c) = true := by
      have := ne_of_isDigit hc (by decide : 'e'.isDigit = false)
      have := ne_of_isDigit hc (by decide : 'E'.isDigit = false)
      simp_all [isMark]
    exact ⟨fun c hc => hdigit (hw.isDigit_whole c hc), by decide,
      fun c hc => hdigit (hw.isDigit_places c hc)⟩
  have hpoint : ∀ c ∈ n.whole, (c != '.') = true := fun c hc =>
    bne_iff_ne.2 (ne_of_isDigit (hw.isDigit_whole c hc) (by decide))
  have hbody : n.chars.takeWhile (!isMark ·) = n.chars := List.takeWhile_eq_self_iff.2 hmark
  have hrest : n.chars.dropWhile (!isMark ·) = [] := List.dropWhile_eq_nil_iff.2 hmark
  have hwhole : n.chars.takeWhile (· != '.') = n.whole := by
    rw [hchars]
    exact takeWhile_append_cons hpoint (by decide)
  have hplaces : n.chars.dropWhile (· != '.') = '.' :: n.places := by
    rw [hchars]
    exact dropWhile_append_cons hpoint (by decide)
  unfold decimal?
  rw [splitSign_signed hw]
  dsimp only
  rw [hrest, hbody, hwhole, hplaces, wholeDigits?_digits hw.isDigit_whole hw.whole_ne_nil hw.lead]
  simp only [ungroup?_digits hw.isDigit_places hne, Option.map_some, Option.bind_eq_bind,
    Option.bind_some]
  rw [Numeral.decimal, hp]
  rfl

end

/-! ## What a number is not -/

theorem eq_cons_of_twoDigits?_eq {least greatest : Nat} {text rest : List Char} {v : Nat}
    (h : twoDigits? least greatest text = some (v, rest)) :
    ∃ a b, text = a :: b :: rest ∧ a.isDigit = true := by
  unfold twoDigits? at h
  split at h
  · next a b behind =>
    dsimp only at h
    split at h
    · next hd =>
      cases h
      exact ⟨a, b, rfl, by simp_all⟩
    · cases h
  · cases h

theorem eq_cons_of_behind?_eq {c : Char} {text rest : List Char} (h : behind? c text = some rest) :
    text = c :: rest := by
  unfold behind? at h
  split at h
  · split at h
    · next hc =>
      cases h
      rw [hc]
    · cases h
  · cases h

/-- A time has a colon. -/
theorem behindTime?_eq_none {text : List Char} (h : ':' ∉ text) : behindTime? text = none := by
  rw [← Option.not_isSome_iff_eq_none]
  intro hs
  obtain ⟨rest, hr⟩ := Option.isSome_iff_exists.1 hs
  simp only [behindTime?, Option.bind_eq_bind, Option.bind_eq_some_iff, Prod.exists] at hr
  obtain ⟨_, behind, hhour, _, hcolon, -⟩ := hr
  obtain ⟨a, b, rfl, -⟩ := eq_cons_of_twoDigits?_eq hhour
  obtain rfl := eq_cons_of_behind?_eq hcolon
  simp at h

/-- A date has a hyphen behind four digits. -/
theorem behindDate?_eq_none {text : List Char} (h : '-' ∉ text.tail) : behindDate? text = none := by
  rw [← Option.not_isSome_iff_eq_none]
  intro hs
  obtain ⟨rest, hr⟩ := Option.isSome_iff_exists.1 hs
  simp only [behindDate?, Option.bind_eq_bind, Option.bind_eq_some_iff, Prod.exists] at hr
  obtain ⟨_, behind, hcentury, _, behind', hyear, _, hhyphen, -⟩ := hr
  obtain ⟨a, b, rfl, -⟩ := eq_cons_of_twoDigits?_eq hcentury
  obtain ⟨a', b', rfl, -⟩ := eq_cons_of_twoDigits?_eq hyear
  obtain rfl := eq_cons_of_behind?_eq hhyphen
  simp at h

/-! ## Words -/

/-- A word that stands for a value. -/
structure IsWordOf (value : Toml) (word : List Char) : Prop where
  ne_nil : word ≠ []
  isWord : ∀ c ∈ word, isWord c = true
  wordValue? : wordValue? word = some value

theorem isWordOf_bool (b : Bool) : IsWordOf (.bool b) (if b then "true" else "false").toList := by
  cases b <;> exact ⟨by simp, by simp [Toml.isWord, isBareKey], rfl⟩

section

variable {n : Numeral} {negative : Bool}

/-- A numeral is neither a time nor a date. -/
theorem isDateTime_signed (hw : n.WellFormed) (hp : n.power? = none) (negative : Bool) :
    isDateTime (n.signed negative) = false := by
  have hcolon := not_mem_chars hw hp (by decide : ':'.isDigit = false) (by decide)
  have hhyphen := not_mem_chars hw hp (by decide : '-'.isDigit = false) (by decide)
  have htime : ':' ∉ (n.signed negative) := by
    cases negative <;> simp [Numeral.signed, hcolon]
  have hdate : '-' ∉ (n.signed negative).tail := by
    cases negative with
    | true => exact hhyphen
    | false => exact fun h => hhyphen (List.mem_of_mem_tail h)
  unfold isDateTime
  rw [behindTime?_eq_none htime, behindDate?_eq_none hdate]
  rfl

/-- A numeral is read as its value, unless that is infinite. -/
theorem float?_signed (hw : n.WellFormed) (hp : n.power? = none)
    (hx : (n.decimal negative).toFloat.isFinite = true) :
    float? (n.signed negative) = some (n.decimal negative).toFloat := by
  have hinf : n.chars ≠ ['i', 'n', 'f'] := chars_ne_cons hw (by decide)
  have hnan : n.chars ≠ ['n', 'a', 'n'] := chars_ne_cons hw (by decide)
  have hgreat := Binary64.beq_eq_false_of_lt (Binary64.lt_infinity_of_isFinite hx)
  unfold float?
  rw [splitSign_signed hw]
  dsimp only
  rw [if_neg hinf, if_neg hnan, decimal?_signed hw hp, Option.bind_eq_bind, Option.bind_some,
    hgreat, if_neg Bool.false_ne_true]

theorem isWord_of_isDigit {c : Char} (h : c.isDigit = true) : isWord c = true := by
  simp [isWord, isBareKey, Char.isAlphanum, h]

/-- A numeral with a sign is a word for its value, unless that is infinite. -/
theorem isWordOf_signed (hw : n.WellFormed) (hp : n.power? = none)
    (hx : (n.decimal negative).toFloat.isFinite = true) :
    IsWordOf (.float (n.decimal negative).toFloat)
      (n.signed negative) := by
  refine ⟨?_, ?_, ?_⟩
  · obtain ⟨c, rest, hc, -⟩ := exists_digit_of_wellFormed hw
    cases negative <;> simp [Numeral.signed, hc]
  · have hbody : ∀ c ∈ n.chars, isWord c = true := by
      intro c h
      rcases isDigit_or_eq_of_mem_chars hw hp h with h | rfl
      · exact isWord_of_isDigit h
      · rfl
    cases negative with
    | true => exact List.forall_mem_cons.2 ⟨rfl, hbody⟩
    | false => exact hbody
  · have htrue : n.signed negative ≠ ['t', 'r', 'u', 'e'] :=
      signed_ne_cons hw (by decide) (by decide)
    have hfalse : n.signed negative ≠ ['f', 'a', 'l', 's', 'e'] :=
      signed_ne_cons hw (by decide) (by decide)
    unfold Toml.wordValue?
    rw [if_neg htrue, if_neg hfalse, isDateTime_signed hw hp, if_neg Bool.false_ne_true,
      float?_signed hw hp hx]

end

/-- A finite double is written as a word that stands for it. -/
theorem isWordOf_spellShortest {x : Float} (h : x.isFinite = true) :
    IsWordOf (.float x) (spellShortest .pointed x).toList := by
  obtain ⟨n, negative, hw, hp, htext, rfl⟩ := exists_numeral_spellShortest h
  rw [htext]
  exact isWordOf_signed hw hp h

/-- A word at the end of a line is read as the value that it stands for. -/
theorem value?_word {value : Toml} {word : List Char} (h : IsWordOf value word)
    (fuel depth : Nat) (rest : List Char) :
    value? (fuel + 1) depth (word ++ '\n' :: rest) = some (value, '\n' :: rest) := by
  have hscalar : scalar? (word ++ '\n' :: rest) = some (value, '\n' :: rest) := by
    have hblank : ((some '\n' : Option Char) == some ' ') = false := rfl
    unfold scalar?
    rw [takeWhile_append_cons h.isWord (by decide), dropWhile_append_cons h.isWord (by decide)]
    dsimp only
    rw [List.head?_cons, hblank, Bool.and_false, Bool.false_and, if_neg Bool.false_ne_true,
      h.wordValue?, Option.map_some]
  obtain ⟨c, tail, rfl⟩ := List.exists_cons_of_ne_nil h.ne_nil
  have hopens : ∀ a ∈ ['"', '\'', '[', '{'], c ≠ a := by
    intro a ha hca
    have hnot : ∀ a ∈ ['"', '\'', '[', '{'], isWord a = false := by
      simp [Toml.isWord, isBareKey]
    have hc := h.isWord c (List.mem_cons_self ..)
    rw [hca, hnot a ha] at hc
    cases hc
  rw [← hscalar]
  unfold value?
  split <;> simp_all

end LaserPath.Toml
