import Mathlib.Algebra.Group.Nat.Defs

/-!
# `Ququmatz.Lib.Words`: numbers as bytes

The bytes of a number in either byte order, and the number of some bytes. Both ways back are
identities: on the numbers that fit the width (`value_bytes`), and on all bytes
(`bytes_value`), so that two words differ exactly when their bytes do.
-/

set_option autoImplicit false

namespace Ququmatz.Lib

/-- The order of the bytes of a word. -/
inductive Endian
  | little
  | big
deriving DecidableEq, Repr

namespace Words

/-- The low `n` bytes of `w`, the lowest first. -/
def leBytes : Nat → Nat → List UInt8
  | 0, _ => []
  | n + 1, w => UInt8.ofNat w :: leBytes n (w / 256)

/-- The number whose lowest byte comes first. -/
def leValue : List UInt8 → Nat
  | [] => 0
  | b :: bs => b.toNat + 256 * leValue bs

@[simp] theorem length_leBytes (n w : Nat) : (leBytes n w).length = n := by
  induction n generalizing w with
  | zero => rfl
  | succ n ih => rw [leBytes, List.length_cons, ih]

theorem leValue_leBytes {n w : Nat} (h : w < 256 ^ n) : leValue (leBytes n w) = w := by
  induction n generalizing w with
  | zero =>
      rw [Nat.pow_zero] at h
      have hzero : w = 0 := by omega
      rw [hzero]
      rfl
  | succ n ih =>
      have hdiv : w / 256 < 256 ^ n := by
        rw [Nat.pow_succ] at h
        exact Nat.div_lt_of_lt_mul (by omega)
      rw [leBytes, leValue, ih hdiv, UInt8.toNat_ofNat']
      omega

theorem leBytes_leValue (bs : List UInt8) : leBytes bs.length (leValue bs) = bs := by
  induction bs with
  | nil => rfl
  | cons b bs ih =>
      have hb := b.toNat_lt
      have hdiv : leValue (b :: bs) / 256 = leValue bs := by
        rw [leValue]
        omega
      have hlow : UInt8.ofNat (leValue (b :: bs)) = b := by
        rw [← UInt8.toNat_inj, UInt8.toNat_ofNat', leValue]
        omega
      rw [List.length_cons, leBytes, hdiv, hlow, ih]

theorem leValue_lt (bs : List UInt8) : leValue bs < 256 ^ bs.length := by
  induction bs with
  | nil => decide
  | cons b bs ih =>
      have hb := b.toNat_lt
      rw [leValue, List.length_cons, Nat.pow_succ]
      omega

/-- The low `n` bytes of `w`. -/
def bytes (e : Endian) (n w : Nat) : List UInt8 :=
  match e with
  | .little => leBytes n w
  | .big => (leBytes n w).reverse

/-- The number that the bytes stand for. -/
def value (e : Endian) (bs : List UInt8) : Nat :=
  match e with
  | .little => leValue bs
  | .big => leValue bs.reverse

@[simp] theorem length_bytes (e : Endian) (n w : Nat) : (bytes e n w).length = n := by
  cases e with
  | little => exact length_leBytes n w
  | big => rw [bytes, List.length_reverse, length_leBytes]

theorem leBytes_zero (n : Nat) : leBytes n 0 = List.replicate n 0 := by
  induction n with
  | zero => rfl
  | succ n ih =>
      rw [leBytes, Nat.zero_div, ih]
      rfl

@[simp] theorem bytes_zero (e : Endian) (n : Nat) : bytes e n 0 = List.replicate n 0 := by
  cases e with
  | little => exact leBytes_zero n
  | big => rw [bytes, leBytes_zero, List.reverse_replicate]

theorem value_bytes (e : Endian) {n w : Nat} (h : w < 256 ^ n) : value e (bytes e n w) = w := by
  cases e with
  | little => exact leValue_leBytes h
  | big => rw [value, bytes, List.reverse_reverse, leValue_leBytes h]

theorem bytes_value (e : Endian) {n : Nat} {bs : List UInt8} (h : bs.length = n) :
    bytes e n (value e bs) = bs := by
  subst h
  cases e with
  | little => exact leBytes_leValue bs
  | big =>
      have hrev := leBytes_leValue bs.reverse
      rw [List.length_reverse] at hrev
      rw [value, bytes, hrev, List.reverse_reverse]

theorem value_lt (e : Endian) {n : Nat} {bs : List UInt8} (h : bs.length = n) :
    value e bs < 256 ^ n := by
  subst h
  cases e with
  | little => exact leValue_lt bs
  | big =>
      have hlt := leValue_lt bs.reverse
      rwa [List.length_reverse] at hlt

end Words

end Ququmatz.Lib
