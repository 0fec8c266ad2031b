import Mathlib.Algebra.Group.Nat.Defs
import Mathlib.Data.Nat.Log

/-!
# `Ququmatz.Lib.Round`: rounding up

To the next power of two (`ceilPow`, the least power of two that is not below) and to the next
multiple (`alignUp`). A power of two bounds a number exactly when it bounds its rounding
(`ceilPow_le_pow`, `pow_lt_ceilPow`), so a limit on the one is a limit on the other.
-/

set_option autoImplicit false

namespace Ququmatz.Lib

/-- The least power of two that is not below `n`. -/
def ceilPow (n : Nat) : Nat := 2 ^ Nat.clog 2 n

theorem ceilPow_pos (n : Nat) : 0 < ceilPow n := Nat.two_pow_pos _

theorem ceilPow_le_pow {n k : Nat} : ceilPow n ≤ 2 ^ k ↔ n ≤ 2 ^ k := by
  rw [ceilPow, Nat.pow_le_pow_iff_right (by omega), Nat.clog_le_iff_le_pow (by omega)]

/-- Between two neighbouring powers there is no other. -/
theorem ceilPow_lt_pow {n k : Nat} : ceilPow n < 2 ^ (k + 1) ↔ n ≤ 2 ^ k := by
  rw [← ceilPow_le_pow (n := n), ceilPow, Nat.pow_lt_pow_iff_right (by omega),
    Nat.pow_le_pow_iff_right (by omega), Nat.lt_succ_iff]

/-- The bit length of the predecessor is the exponent. -/
theorem ceilPow_eq_log2 {n : Nat} (h : 1 < n) : ceilPow n = 2 ^ (Nat.log2 (n - 1) + 1) := by
  have hlow : 2 ^ Nat.log2 (n - 1) ≤ n - 1 := Nat.log2_self_le (by omega)
  have hhigh : n - 1 < 2 ^ (Nat.log2 (n - 1) + 1) := Nat.lt_log2_self
  refine Nat.le_antisymm (ceilPow_le_pow.mpr (by omega)) ?_
  refine Nat.pow_le_pow_right (by omega) ?_
  exact (Nat.lt_clog_iff_pow_lt (by omega)).mpr (by omega)

/-- The least multiple of `a` that is not below `n`. -/
def alignUp (a n : Nat) : Nat := (n + (a - 1)) / a * a

theorem le_alignUp {a : Nat} (ha : 0 < a) (n : Nat) : n ≤ alignUp a n := by
  have hmod := Nat.mod_lt (n + (a - 1)) ha
  have hdiv := Nat.div_add_mod (n + (a - 1)) a
  rw [Nat.mul_comm] at hdiv
  rw [alignUp]
  omega

theorem alignUp_lt {a : Nat} (ha : 0 < a) (n : Nat) : alignUp a n < n + a := by
  have hle := Nat.div_mul_le_self (n + (a - 1)) a
  rw [alignUp]
  omega

/-- Rounding as adding what is missing. -/
theorem alignUp_eq {a : Nat} (ha : 0 < a) (n : Nat) :
    alignUp a n = if n % a = 0 then n else n + (a - n % a) := by
  have hlt := Nat.mod_lt n ha
  have hdiv := Nat.div_add_mod n a
  have hsum : n + (a - 1) = (n % a + (a - 1)) + n / a * a := by
    rw [Nat.mul_comm (n / a)]
    omega
  rw [alignUp, hsum, Nat.add_mul_div_right _ _ ha]
  split
  case isTrue h =>
    rw [h, Nat.zero_add, Nat.div_eq_of_lt (by omega), Nat.zero_add, Nat.mul_comm]
    omega
  case isFalse h =>
    have hone : (n % a + (a - 1)) / a = 1 := by
      rw [Nat.div_eq_iff ha]
      omega
    rw [hone, Nat.add_mul, Nat.mul_comm (n / a)]
    omega

end Ququmatz.Lib
