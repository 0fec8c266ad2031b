import Mathlib.Data.Nat.Bitwise
import Mathlib.Logic.Function.Basic

/-!
# `Ququmatz.Lib.Bitmap`: a set of numbers as the bits of a byte array

Number `n` is bit `n % 8` of byte `n / 8`. `test` reads a bit, `assign` writes one, both
with the byte masks that code uses; `test_assign` says that a write changes its own bit
only.
-/

set_option autoImplicit false

namespace Ququmatz.Lib.Bitmap

/-- The mask of bit `k` of a byte. -/
def mask (k : Nat) : UInt8 := (1 : UInt8) <<< UInt8.ofNat k

/-- A byte with the bits of `m` set or cleared. -/
def put (byte m : UInt8) (value : Bool) : UInt8 :=
  if value then byte ||| m else byte &&& ~~~m

/-- Read bit `n`. -/
def test (bytes : Nat → UInt8) (n : Nat) : Bool := bytes (n / 8) &&& mask (n % 8) != 0

/-- Write bit `n`. -/
def assign (bytes : Nat → UInt8) (n : Nat) (value : Bool) : Nat → UInt8 :=
  Function.update bytes (n / 8) (put (bytes (n / 8)) (mask (n % 8)) value)

theorem mask_toNat : ∀ k < 8, (mask k).toNat = 2 ^ k := by decide

theorem not_mask_testBit :
    ∀ k < 8, ∀ j < 8, (~~~mask k).toNat.testBit j = !decide (k = j) := by decide

/-- Masking one bit out of a byte is testing it. -/
theorem and_mask_ne_zero (byte : UInt8) (k : Nat) (hk : k < 8) :
    (byte &&& mask k != 0) = byte.toNat.testBit k := by
  rw [Bool.eq_iff_iff, bne_iff_ne, Ne, ← UInt8.toNat_inj, UInt8.toNat_and, mask_toNat k hk,
    Nat.and_two_pow]
  cases byte.toNat.testBit k with
  | false => simp
  | true => simp

/-- Writing a bit of a byte leaves the other bits. -/
theorem put_testBit (byte : UInt8) (value : Bool) (k j : Nat) (hk : k < 8) (hj : j < 8) :
    (put byte (mask k) value).toNat.testBit j
      = if k = j then value else byte.toNat.testBit j := by
  cases value with
  | true =>
      show (byte ||| mask k).toNat.testBit j = _
      rw [UInt8.toNat_or, Nat.testBit_or, mask_toNat k hk, Nat.testBit_two_pow]
      by_cases h : k = j
      · simp [h]
      · simp [h]
  | false =>
      show (byte &&& ~~~mask k).toNat.testBit j = _
      rw [UInt8.toNat_and, Nat.testBit_and, not_mask_testBit k hk j hj]
      by_cases h : k = j
      · simp [h]
      · simp [h]

theorem test_eq_testBit (bytes : Nat → UInt8) (n : Nat) :
    test bytes n = (bytes (n / 8)).toNat.testBit (n % 8) :=
  and_mask_ne_zero _ _ (Nat.mod_lt _ (by decide))

/-- A write changes its own bit and no other. -/
theorem test_assign (bytes : Nat → UInt8) (n m : Nat) (value : Bool) :
    test (assign bytes n value) m = if n = m then value else test bytes m := by
  rw [test_eq_testBit, test_eq_testBit, assign]
  have hn : n % 8 < 8 := Nat.mod_lt _ (by decide)
  have hm : m % 8 < 8 := Nat.mod_lt _ (by decide)
  by_cases hbyte : m / 8 = n / 8
  · rw [hbyte, Function.update_self, put_testBit _ _ _ _ hn hm]
    -- within one byte, equal bit numbers are equal numbers
    have hiff : n % 8 = m % 8 ↔ n = m := by omega
    simp only [hiff]
  · rw [Function.update_of_ne hbyte, if_neg (by rintro rfl; exact hbyte rfl)]

end Ququmatz.Lib.Bitmap
