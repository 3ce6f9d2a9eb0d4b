/-!
# Rounding a quotient

A quotient of two naturals is rounded to one of the two naturals around it.
Reading a decimal, choosing the digits of a number and writing a fixed number
of places all round in this one way and differ only in what happens to a
quotient exactly in the middle.

## Main definitions

* `Tie` — the neighbour that a quotient in the middle goes to.
* `roundDiv` — the natural nearest to a quotient.

## Main statements

* `roundDiv_le`, `le_roundDiv` — the result is within half a unit.
* `roundDiv_mul` — an exact quotient is kept.
-/

namespace LaserPath

/-- The neighbour that a quotient exactly between two naturals goes to. -/
inductive Tie where
  /-- The even neighbour. -/
  | toEven
  /-- The greater neighbour. -/
  | up
  deriving DecidableEq, Repr

/-- The natural nearest to `num / den`; a quotient in the middle goes as `tie` says. -/
def roundDiv (tie : Tie) (num den : Nat) : Nat :=
  let below := num / den
  let twice := 2 * (num % den)
  if twice < den then below
  else if den < twice then below + 1
  else match tie with
    | .up => below + 1
    | .toEven => if below % 2 = 0 then below else below + 1

theorem roundDiv_eq_or (tie : Tie) (num den : Nat) :
    (roundDiv tie num den = num / den ∧ 2 * (num % den) ≤ den) ∨
      (roundDiv tie num den = num / den + 1 ∧ den ≤ 2 * (num % den)) := by
  simp only [roundDiv]
  split
  · left; omega
  · split
    · right; omega
    · cases tie with
      | toEven =>
        simp only
        split
        · left; omega
        · right; omega
      | up => right; exact ⟨rfl, by omega⟩

/-- A rounded quotient exceeds the quotient by half a unit at most. -/
theorem roundDiv_le (tie : Tie) (num den : Nat) :
    2 * (roundDiv tie num den * den) ≤ 2 * num + den := by
  have h := Nat.div_add_mod num den
  rw [Nat.mul_comm] at h
  rcases roundDiv_eq_or tie num den with ⟨hr, hm⟩ | ⟨hr, hm⟩ <;> rw [hr]
  · omega
  · rw [Nat.add_mul]
    omega

/-- A rounded quotient falls short of the quotient by half a unit at most. -/
theorem le_roundDiv (tie : Tie) (num : Nat) {den : Nat} (hd : 0 < den) :
    2 * num ≤ 2 * (roundDiv tie num den * den) + den := by
  have h := Nat.div_add_mod num den
  have := Nat.mod_lt num hd
  rw [Nat.mul_comm] at h
  rcases roundDiv_eq_or tie num den with ⟨hr, hm⟩ | ⟨hr, hm⟩ <;> rw [hr]
  · omega
  · rw [Nat.add_mul]
    omega

/-- An exact quotient is its own rounding. -/
@[simp] theorem roundDiv_mul (tie : Tie) (n den : Nat) (h : 0 < den) :
    roundDiv tie (n * den) den = n := by
  simp [roundDiv, Nat.mul_div_cancel n h, h]

end LaserPath
