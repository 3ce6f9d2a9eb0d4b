/-!
# Powers of two and ten

Binary numbers are scaled by powers of two and decimals by powers of ten.

## Main definitions

* `twoTo`, `tenTo` — the powers.

## Main statements

* `twoTo_pos`, `tenTo_pos` — a power may be a denominator.
* `twoTo_add` — exponents add up.
-/

namespace LaserPath

/-- A power of two. -/
def twoTo (n : Nat) : Nat := Nat.pow 2 n

/-- A power of ten. -/
def tenTo (n : Nat) : Nat := Nat.pow 10 n

theorem twoTo_pos (n : Nat) : 0 < twoTo n := Nat.pow_pos (by decide)

theorem tenTo_pos (n : Nat) : 0 < tenTo n := Nat.pow_pos (by decide)

theorem twoTo_add (m n : Nat) : twoTo (m + n) = twoTo m * twoTo n := Nat.pow_add 2 m n

end LaserPath
