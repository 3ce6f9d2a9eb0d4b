import LaserPath.Decimal.Binary64
import Mathlib.Algebra.Order.Ring.Int
import Mathlib.Data.Prod.Lex

/-!
# The order of doubles

Doubles are compared by their places on the number line. Zeros of either sign share a place, and
what is not a number has none and compares to nothing. So comparisons of doubles are comparisons
of places, and places are ordered linearly.

## Main definitions

* `Place` — a place on the number line.
* `place?` — the place of a double.

## Main statements

* `lt_iff_place`, `le_iff_place`, `beq_iff_place` — comparisons of doubles by places.
-/

namespace LaserPath

open Float.Model Float.Model.UnpackedFloat

/-- The infinities, the two signs and zero are five levels. Within a level numbers are ordered by
their exponents first and their mantissas second. -/
def Place := ℤ ×ₗ ℤ ×ₗ ℤ

namespace Place

instance : LinearOrder Place := inferInstanceAs (LinearOrder (ℤ ×ₗ ℤ ×ₗ ℤ))

def mk (level exponent mantissa : ℤ) : Place := toLex (level, toLex (exponent, mantissa))

def top : Place := mk 2 0 0

theorem compare_mk (l₁ e₁ m₁ l₂ e₂ m₂ : ℤ) : compare (mk l₁ e₁ m₁) (mk l₂ e₂ m₂) =
    (compare l₁ l₂).then ((compare e₁ e₂).then (compare m₁ m₂)) :=
  rfl

theorem mk_lt_top {l : ℤ} (h : l < 2) (e m : ℤ) : mk l e m < top := by
  rw [← compare_lt_iff_lt, top, compare_mk, compare_lt_iff_lt.2 h]
  rfl

/-- The place of a double that is taken apart. -/
def ofUnpacked? : UnpackedFloat → Option Place
  | .notANumber => none
  | .infinity .negative => some (mk (-2) 0 0)
  | .finite .negative mantissa exponent _ => some (mk (-1) (-exponent) (-mantissa))
  | .zero _ => some (mk 0 0 0)
  | .finite .positive mantissa exponent _ => some (mk 1 exponent mantissa)
  | .infinity .positive => some top

theorem compare_neg (m n : ℤ) : compare (-m) (-n) = (compare m n).swap := by
  rw [← cmp_eq_compare, ← cmp_eq_compare, cmp_swap]
  exact StrictAnti.cmp_map_eq (f := Neg.neg) (fun _ _ => neg_lt_neg) m n

theorem compare_natCast (m n : ℕ) : compare (m : ℤ) n = compare m n := by
  rw [← cmp_eq_compare, ← cmp_eq_compare]
  exact Int.natCast_strictMono.cmp_map_eq m n

theorem compare_eq (a b : UnpackedFloat) : a.compare b =
    (ofUnpacked? a).bind fun p => (ofUnpacked? b).map fun q => compare p q := by
  rcases a with (_ | _) | _ | _ | ⟨_ | _, m₁, e₁, _⟩ <;>
    rcases b with (_ | _) | _ | _ | ⟨_ | _, m₂, e₂, _⟩
  -- numbers of one sign are compared by exponent and mantissa, all others by their levels
  case finite.negative.finite.negative =>
    dsimp only [UnpackedFloat.compare, ofUnpacked?]
    simp [compare_mk, compare_neg, compare_natCast, Ordering.swap_then]
  case finite.positive.finite.positive =>
    dsimp only [UnpackedFloat.compare, ofUnpacked?]
    simp [compare_mk, compare_natCast]
  all_goals rfl

theorem lt_top_of_isFinite {a : UnpackedFloat} (h : a.isFinite = true) :
    ∃ p, ofUnpacked? a = some p ∧ p < top := by
  rcases a with _ | _ | _ | ⟨_ | _, m, e, _⟩
  case infinity | notANumber => cases h
  all_goals exact ⟨_, rfl, mk_lt_top (by decide) _ _⟩

theorem le_top_of_ofUnpacked? {a : UnpackedFloat} {p : Place} (h : ofUnpacked? a = some p) :
    p ≤ top := by
  by_cases hf : a.isFinite = true
  · obtain ⟨q, hq, hlt⟩ := lt_top_of_isFinite hf
    obtain rfl := Option.some.inj (hq.symm.trans h)
    exact hlt.le
  · cases a with
    | notANumber => cases h
    | zero | finite => exact absurd rfl hf
    | infinity sign =>
      cases sign with
      | positive => exact (Option.some.inj h).ge
      | negative => exact Option.some.inj h ▸ (mk_lt_top (by decide) 0 0).le

end Place

/-- The place of a double, unless it is not a number. -/
def place? (x : Float) : Option Place := Place.ofUnpacked? x.toModel.unpack

section

variable {x y z : Float}

theorem compare_eq_place (x y : Float) : x.toModel.unpack.compare y.toModel.unpack =
    (place? x).bind fun p => (place? y).map fun q => compare p q :=
  Place.compare_eq _ _

theorem lt_iff_place : x < y ↔ ∃ p q, place? x = some p ∧ place? y = some q ∧ p < q := by
  have h : x < y ↔ (x.toModel.unpack.compare y.toModel.unpack == some .lt) = true := by
    change decide _ = true ↔ _
    rw [decide_eq_true_iff]
    rfl
  rw [h, beq_iff_eq, compare_eq_place]
  simp [Option.bind_eq_some_iff, compare_lt_iff_lt]

theorem le_iff_place : x ≤ y ↔ ∃ p q, place? x = some p ∧ place? y = some q ∧ p ≤ q := by
  have h : x ≤ y ↔ (x.toModel.unpack.compare y.toModel.unpack).any (·.isLE) = true := by
    change decide _ = true ↔ _
    rw [decide_eq_true_iff]
    rfl
  rw [h, compare_eq_place]
  cases place? x <;> cases place? y <;> simp [Ordering.isLE_iff_ne_gt, compare_le_iff_le]

theorem beq_iff_place : (x == y) = true ↔ ∃ p, place? x = some p ∧ place? y = some p := by
  have h : (x == y) = (x.toModel.unpack.compare y.toModel.unpack == some .eq) := rfl
  rw [h, beq_iff_eq, compare_eq_place]
  simp [Option.bind_eq_some_iff]

namespace Binary64

theorem lt_irrefl (x : Float) : ¬ x < x := by
  grind [lt_iff_place]

theorem lt_trans (h : x < y) (h' : y < z) : x < z := by
  grind [lt_iff_place]

theorem lt_of_le_of_lt (h : x ≤ y) (h' : y < z) : x < z := by
  grind [lt_iff_place, le_iff_place]

theorem le_of_lt (h : x < y) : x ≤ y := by
  grind [lt_iff_place, le_iff_place]

theorem not_le_of_lt (h : x < y) : ¬ y ≤ x := by
  grind [lt_iff_place, le_iff_place]

theorem le_of_beq (h : (x == y) = true) : x ≤ y := by
  grind [beq_iff_place, le_iff_place]

theorem beq_self_of_beq (h : (x == y) = true) : (y == y) = true := by
  grind [beq_iff_place]

/-- A finite double is below infinity. -/
theorem lt_infinity_of_isFinite (h : x.isFinite = true) : x < signed false infinityWord := by
  obtain ⟨p, hp, hlt⟩ := Place.lt_top_of_isFinite (a := x.toModel.unpack) h
  exact lt_iff_place.2 ⟨p, Place.top, hp, rfl, hlt⟩

theorem beq_eq_false_of_lt (h : x < y) : (x == y) = false := by
  rw [← Bool.not_eq_true]
  grind [beq_iff_place, lt_iff_place]

end Binary64

end

end LaserPath
