import Mathlib.Algebra.Group.Nat.Defs
import Mathlib.Data.Nat.Basic

/-!
# `Ququmatz.Lib.Wrap`: unbounded positions behind wrapping 32-bit indices

A ring queue counts its entries with a `u32` index that wraps. Behind the index stands an
unbounded position: the index is the position modulo `2 ^ 32`, and the slot is the
position modulo the ring's size. The lemmas here move between the two levels:

* `ofNat_sub_ofNat`: the wrapping difference of two indices is the difference of the
  positions, as long as these are less than `2 ^ 32` apart;
* `ofNat_inj_window`: two positions that are close have equal indices only if they are equal;
* `and_mask_toNat`: masking an index is taking the position modulo the ring's size, which
  is where a size that divides `2 ^ 32` is needed;
* `mod_ne_of_window`: two positions less than one ring apart have different slots.

`mod_succ_eq_min_iff` is about a number that is cut to a word for good.
-/

set_option autoImplicit false

namespace Ququmatz.Lib

/-- A ring size: a power of two that a `u32` holds. -/
structure RingSize where
  val : UInt32
  log : Nat
  log_lt : log < 32
  val_eq : val.toNat = 2 ^ log
deriving DecidableEq

namespace RingSize

/-- The number of slots, as a natural number. -/
def size (n : RingSize) : Nat := n.val.toNat

theorem size_eq (n : RingSize) : n.size = 2 ^ n.log := n.val_eq

theorem size_pos (n : RingSize) : 0 < n.size := by
  rw [size_eq]
  exact Nat.two_pow_pos _

theorem size_lt (n : RingSize) : n.size < 2 ^ 32 := n.val.toNat_lt

theorem size_le (n : RingSize) : n.size ≤ 2 ^ 31 := by
  rw [size_eq]
  exact Nat.pow_le_pow_right (by decide) (Nat.le_of_lt_succ n.log_lt)

/-- The index mask of the ring, `size - 1`. -/
def mask (n : RingSize) : UInt32 := n.val - 1

theorem mask_toNat (n : RingSize) : n.mask.toNat = n.size - 1 := by
  have hpos := n.size_pos
  have hlt := n.size_lt
  unfold mask size at *
  rw [UInt32.toNat_sub_of_le]
  · rfl
  · rw [UInt32.le_iff_toNat_le]
    exact hpos

/-- A position under the mask is one of the slots. -/
theorem and_mask_lt (n : RingSize) (pos : UInt32) : (pos &&& n.mask).toNat < n.size := by
  have hle : (pos &&& n.mask).toNat ≤ n.mask.toNat := by
    rw [UInt32.toNat_and]
    exact Nat.and_le_right
  have hmask := n.mask_toNat
  have hpos := n.size_pos
  omega

/-- The mask plus one does not overflow: it is the size again. -/
theorem mask_add_one (n : RingSize) : n.mask + 1 = n.val := by
  unfold mask
  exact UInt32.sub_add_cancel _ _

/-- A `u32` that is a power of two is a ring size. -/
theorem exists_of_isPowerOfTwo {x : UInt32} (h : x.toNat.isPowerOfTwo) :
    ∃ n : RingSize, n.val = x := by
  obtain ⟨k, hk⟩ := h
  have hlt := x.toNat_lt
  rw [hk] at hlt
  exact ⟨⟨x, k, (Nat.pow_lt_pow_iff_right (by decide)).mp hlt, hk⟩, rfl⟩

/-- The size `2 ^ log`. -/
def ofLog (log : Nat) (h : log < 32) : RingSize where
  val := UInt32.ofNat (2 ^ log)
  log := log
  log_lt := h
  val_eq := by
    have : 2 ^ log < 2 ^ 32 := Nat.pow_lt_pow_right (by decide) h
    simp only [UInt32.toNat_ofNat']
    exact Nat.mod_eq_of_lt this

end RingSize

theorem ofNat_succ (n : Nat) : UInt32.ofNat (n + 1) = UInt32.ofNat n + 1 := by
  rw [UInt32.ofNat_add]
  rfl

/-- The wrapping difference of two indices is the difference of their positions. -/
theorem ofNat_sub_ofNat {h t : Nat} (hle : h ≤ t) (hlt : t - h < 2 ^ 32) :
    (UInt32.ofNat t - UInt32.ofNat h).toNat = t - h := by
  rw [UInt32.toNat_sub, UInt32.toNat_ofNat', UInt32.toNat_ofNat']
  omega

/-- Two positions that are close have equal indices only if they are equal. -/
theorem ofNat_inj_window {h t : Nat} (hle : h ≤ t) (hlt : t - h < 2 ^ 32) :
    UInt32.ofNat h = UInt32.ofNat t ↔ h = t := by
  constructor
  · intro heq
    -- Equal indices have difference zero, and the difference is that of the positions.
    have hsub := ofNat_sub_ofNat hle hlt
    rw [heq, UInt32.sub_self] at hsub
    have : t - h = 0 := by
      rw [← hsub]
      rfl
    omega
  · rintro rfl
    rfl

/-- Masking an index takes the position modulo the ring's size. -/
theorem and_mask_toNat (n : RingSize) (p : Nat) :
    (UInt32.ofNat p &&& n.mask).toNat = p % n.size := by
  rw [UInt32.toNat_and, n.mask_toNat, UInt32.toNat_ofNat', n.size_eq,
    Nat.and_two_pow_sub_one_eq_mod]
  -- The size divides `2 ^ 32`, so taking the index modulo that first changes nothing.
  exact Nat.mod_mod_of_dvd p (Nat.pow_dvd_pow 2 (Nat.le_of_lt n.log_lt))

/-! ### 16-bit indices -/

/-- The wrapping difference of two 16-bit indices is the difference of their positions. -/
theorem ofNat16_sub_ofNat16 {h t : Nat} (hle : h ≤ t) (hlt : t - h < 2 ^ 16) :
    (UInt16.ofNat t - UInt16.ofNat h).toNat = t - h := by
  rw [UInt16.toNat_sub, UInt16.toNat_ofNat', UInt16.toNat_ofNat']
  omega

/-- Two positions that are close have equal 16-bit indices only if they are equal. -/
theorem ofNat16_inj_window {h t : Nat} (hle : h ≤ t) (hlt : t - h < 2 ^ 16) :
    UInt16.ofNat h = UInt16.ofNat t ↔ h = t := by
  rw [← UInt16.toNat_inj, UInt16.toNat_ofNat', UInt16.toNat_ofNat']
  omega

/-- Masking a 16-bit index of a ring that is no larger than `2 ^ 16`. -/
theorem and_mask16_toNat (n : RingSize) (hlog : n.log ≤ 16) (p : Nat) :
    ((UInt16.ofNat p).toUInt32 &&& n.mask).toNat = p % n.size := by
  rw [UInt32.toNat_and, n.mask_toNat, UInt16.toNat_toUInt32, UInt16.toNat_ofNat', n.size_eq,
    Nat.and_two_pow_sub_one_eq_mod]
  exact Nat.mod_mod_of_dvd p (Nat.pow_dvd_pow 2 hlog)

/-- Two positions less than one ring apart have different slots. -/
theorem mod_ne_of_window {n i j : Nat} (hij : i < j) (hj : j < i + n) : i % n ≠ j % n := by
  intro h
  have hd : n ∣ j - i := Nat.dvd_of_mod_eq_zero (Nat.sub_mod_eq_zero_of_mod_eq h.symm)
  have := Nat.le_of_dvd (by omega) hd
  omega

/-- Cutting a number to its low digits is clamping it for the numbers that fit, and for those
whose low digits are the greatest there are. -/
theorem mod_succ_eq_min_iff (n m : Nat) :
    n % (m + 1) = min n m ↔ n ≤ m ∨ n % (m + 1) = m := by
  by_cases hle : n ≤ m
  · have hmod : n % (m + 1) = n := Nat.mod_eq_of_lt (Nat.lt_succ_of_le hle)
    rw [hmod, Nat.min_eq_left hle]
    exact iff_of_true rfl (Or.inl hle)
  · rw [Nat.min_eq_right (by omega)]
    simp [hle]

end Ququmatz.Lib
