import LaserPath.Proofs.Decimal.Readback
import LaserPath.Proofs.Json.Reading
import Mathlib.Data.List.Forall2

/-!
# Numbers in JSON, written and read

The digits of a double stand for no other double, so it is read back if its digits are read with
correct rounding. Whole numbers are always read back. In a list and behind an option every number
is read for itself.

## Main definitions

* `Json.ReadsNearest` — the digits of a double are read with correct rounding.
* `Json.RereadAs` — a double and what it is read as when it has been written.

## Main statements

* `Json.reread_real_iff` — a double is read back if its digits are read with correct rounding.
* `Json.list?_reread_iff`, `Json.orNull?_reread_iff` — lists and optional values item by item.
-/

namespace LaserPath.Json

variable {x : Float}

/-- The digits that are written for a double are read as the double nearest to them. -/
def ReadsNearest (x : Float) : Prop :=
  ∀ d, Decimal.ofFloat? .toEven x = some d →
    read .record (String.ofList (d.spell .scientific)) = .ok (.real d.toFloat)

/-- A double is read back if its digits are read with correct rounding. -/
theorem reread_real_iff (h : x.isFinite = true) :
    reread (.real x) = .real x ↔ ReadsNearest x := by
  obtain ⟨d, hd⟩ := Decimal.exists_ofFloat?_eq .toEven h
  have hx : d.toFloat = x := Decimal.toFloat_eq_of_ofFloat?_eq hd rfl rfl
  have hread := (reads_realText x).read_eq
  rw [realText_eq hd] at hread
  have hreread : reread (.real x) = rereadText (d.spell .scientific) := by
    rw [← realText_eq hd]
    rfl
  constructor
  · intro hr e he
    obtain rfl := Option.some.inj (hd.symm.trans he)
    rw [hread, ← hreread, hr, hx]
  · intro hn
    have h' := hread.symm.trans (hn d hd)
    rw [hreread, Except.ok.inj h', hx]

/-- A number that has been written is read back as a double if it is read back. -/
theorem float?_reread_iff (h : x.isFinite = true) :
    (reread (ofFloat x)).float? = some x ↔ ReadsNearest x := by
  obtain ⟨d, hd⟩ := Decimal.exists_ofFloat?_eq .toEven h
  rw [ofFloat, if_pos h, ← reread_real_iff h]
  rcases reread_real hd with ⟨y, hy⟩ | hb
  · rw [hy]
    simp [float?]
  · rw [hb]
    simp [float?]

/-- Not all digits are read with correct rounding. -/
example : ¬ ReadsNearest 0.000009999999999999999 := by
  rw [← float?_reread_iff (by decide +kernel)]
  decide +kernel

/-- A double, and the double as which it is read when it has been written. -/
def RereadAs (x y : Float) : Prop := (reread (ofFloat x)).float? = some y

theorem rereadAs_self_iff (h : x.isFinite = true) : RereadAs x x ↔ ReadsNearest x :=
  float?_reread_iff h

/-- A natural of at most 64 bits is read back. -/
theorem natBelow?_reread {n limit : Nat} (hn : n < limit) (hlimit : limit ≤ twoTo 64) :
    (reread (.integer n)).natBelow? limit = some n := by
  have hfits : fitsWord n = true := by
    simp only [fitsWord, Bool.and_eq_true, decide_eq_true_eq]
    omega
  rw [reread_integer hfits]
  simp [natBelow?, hn]

section

variable {α β : Type} {write : α → Json} {value? : Json → Option β} {R : α → β → Prop}

/-- A list that has been written is read item by item. -/
theorem list?_reread_iff {l : List α} {r : List β}
    (h : ∀ a ∈ l, ∀ b, value? (reread (write a)) = some b ↔ R a b) :
    (reread (.array (l.map write))).list? value? = some r ↔ List.Forall₂ R l r := by
  change (rereadItems (l.map write)).mapM value? = some r ↔ _
  induction l generalizing r with
  | nil => simp [rereadItems, eq_comm]
  | cons a l ih =>
    rw [List.forall_mem_cons] at h
    rw [List.map_cons, rereadItems, List.mapM_cons, List.forall₂_cons_left_iff]
    simp only [Option.bind_eq_bind, Option.bind_eq_some_iff, Option.pure_def, ih h.2, h.1]
    grind

/-- An optional value that has been written is read as none if there is none. -/
theorem orNull?_reread_iff {a? : Option α} {b? : Option β}
    (hnull : ∀ a, reread (write a) ≠ .null)
    (h : ∀ a b, value? (reread (write a)) = some b ↔ R a b) :
    (reread (a?.elim .null write)).orNull? value? = some b? ↔ Option.Rel R a? b? := by
  cases a? with
  | none => cases b? <;> simp [reread, orNull?]
  | some a =>
    have hvalue : (reread (write a)).orNull? value? = (value? (reread (write a))).map some :=
      orNull?.eq_2 _ _ (hnull a)
    rw [Option.elim_some, hvalue]
    cases b? <;> simp [← h]

end

end LaserPath.Json
