import Ququmatz.Lib.Wrap
import Ququmatz.Proofs.Owned.Footprint
import Ququmatz.Ring.Transfer

/-!
# `Ququmatz.Proofs.Ring.Transfer`: two ways to narrow a length

The borrowed helpers cut a length to its low 32 bits, the owned requests clamp it. `Clamped` is
what both would give. A helper gives it for the lengths that fit, and without debug assertions
also for those whose low 32 bits are all set (`clamped_iff`); for a slice of `2 ^ 32` bytes it
panics or transfers nothing.
-/

set_option autoImplicit false

namespace Ququmatz

open Lib

/-- Without debug assertions the helpers are those of `Ququmatz.Ring.Ops`. -/
theorem Transfer.run_release (fuel : Nat) (ring : IoUring) (buf : Slice) (call : Transfer) :
    call.run ⟨false⟩ fuel ring buf = some (match call with
      | .doRead fd offset => ring.doRead fuel fd buf offset
      | .doWrite fd offset => ring.doWrite fuel fd buf offset
      | .doSend fd flags => ring.doSend fuel fd buf flags
      | .doRecv fd flags => ring.doRecv fuel fd buf flags) := by
  cases call with
  | doRead fd offset => rfl
  | doWrite fd offset => rfl
  | doSend fd flags => rfl
  | doRecv fd flags => rfl

/-- The length in an SQE, for a buffer of `len` bytes. -/
structure EncodesLen (sqe : Sqe) (len : Nat) : Prop where
  clamped : sqe.len.toNat = min len 4294967295
  /-- An owned read of a buffer of the same size has the same length. -/
  ownedRead : ∀ {B : Type} [StableBufferMut B] (buf : B) (fd : RawFd) (offset : UInt64)
    (ring : RingId) (id : RequestId), StableBuffer.stableLen buf = len →
    ((Prepared.read fd buf offset).intoPending ring id).1.len = sqe.len
  ownedWrite : ∀ {B : Type} [StableBuffer B] (buf : B) (fd : RawFd) (offset : UInt64)
    (ring : RingId) (id : RequestId), StableBuffer.stableLen buf = len →
    ((Prepared.write fd buf offset).intoPending ring id).1.len = sqe.len
  /-- Something is transferred when there is something to transfer. -/
  nonempty : 0 < len → sqe.len ≠ 0

/-- The clamped length is all that there is to prove. -/
theorem EncodesLen.of_clamped {sqe : Sqe} {len : Nat}
    (h : sqe.len.toNat = min len 4294967295) : EncodesLen sqe len where
  clamped := h
  ownedRead := by
    intro B _ buf fd offset ring id hlen
    have hsqe : ((Prepared.read fd buf offset).intoPending ring id).1.len
        = clampLen (StableBuffer.stableLen buf) := rfl
    rw [hsqe, ← UInt32.toNat_inj, clampLen_toNat, hlen, h, Nat.min_comm]
  ownedWrite := by
    intro B _ buf fd offset ring id hlen
    have hsqe : ((Prepared.write fd buf offset).intoPending ring id).1.len
        = clampLen (StableBuffer.stableLen buf) := rfl
    rw [hsqe, ← UInt32.toNat_inj, clampLen_toNat, hlen, h, Nat.min_comm]
  nonempty := by
    intro hpos hzero
    rw [hzero] at h
    have hmin : (0 : UInt32).toNat = 0 := rfl
    omega

namespace Transfer

variable {p : Profile} {buf : Slice} {call : Transfer}

/-- The helper goes through, and runs an SQE with the length of the slice. -/
def Clamped (p : Profile) (buf : Slice) (call : Transfer) : Prop :=
  ∃ sqe, call.sqe p buf = some sqe ∧ EncodesLen sqe buf.len
    ∧ ∀ fuel ring, call.run p fuel ring buf = some (ring.runOne fuel sqe)

/-- The four helpers differ in the other fields of the SQE. -/
theorem sqe_len (p : Profile) (buf : Slice) (call : Transfer) :
    (call.sqe p buf).map Sqe.len = p.lenOf buf := by
  cases call with
  | doRead fd offset => simp [sqe, Profile.read, Sqe.readPtr, Function.comp_def]
  | doWrite fd offset => simp [sqe, Profile.write, Sqe.writePtr, Function.comp_def]
  | doSend fd flags => simp [sqe, Profile.send, Sqe.sendPtr, Function.comp_def]
  | doRecv fd flags => simp [sqe, Profile.recv, Sqe.recvPtr, Function.comp_def]

/-- A helper encodes the length exactly when narrowing gives the clamped length. -/
theorem clamped_iff_lenOf :
    call.Clamped p buf ↔ ∃ len, p.lenOf buf = some len ∧ len.toNat = min buf.len 4294967295 := by
  have hlen := call.sqe_len p buf
  constructor
  · rintro ⟨sqe, hsqe, hencodes, -⟩
    rw [hsqe] at hlen
    exact ⟨sqe.len, hlen.symm, hencodes.clamped⟩
  · rintro ⟨len, hsome, hclamped⟩
    rw [hsome] at hlen
    obtain ⟨sqe, hsqe, rfl⟩ := Option.map_eq_some_iff.mp hlen
    refine ⟨sqe, hsqe, EncodesLen.of_clamped hclamped, fun fuel ring => ?_⟩
    rw [run, hsqe]
    rfl

/-- Narrowing gives the clamped length for the lengths that fit and, when nothing asserts this,
for those that end in all ones. -/
theorem lenOf_clamped_iff :
    (∃ len, p.lenOf buf = some len ∧ len.toNat = min buf.len 4294967295) ↔
      buf.len ≤ 4294967295
        ∨ (p.debugAssertions = false ∧ buf.len % 4294967296 = 4294967295) := by
  -- `as u32` keeps the length modulo `2^32`
  have hcut : (UInt32.ofNat buf.len).toNat = buf.len % 4294967296 := UInt32.toNat_ofNat'
  have hagree := mod_succ_eq_min_iff buf.len 4294967295
  cases hdebug : p.debugAssertions with
  | false =>
      have hlen : p.lenOf buf = some (UInt32.ofNat buf.len) := by simp [Profile.lenOf, hdebug]
      simp [hlen, hcut, hagree]
  | true =>
      by_cases hle : buf.len ≤ 4294967295
      · have hlen : p.lenOf buf = some (UInt32.ofNat buf.len) := by
          simp [Profile.lenOf, hle]
        have hclamped := hcut.trans (hagree.mpr (Or.inl hle))
        exact iff_of_true ⟨_, hlen, hclamped⟩ (Or.inl hle)
      · have hlen : p.lenOf buf = none := by
          simp only [Profile.lenOf, hdebug, Bool.true_and, decide_eq_true_eq]
          exact if_pos (by omega)
        simp [hlen, hle]

/-- Which transfers have the length of their slice: on every profile, for every slice and each of
the four helpers. -/
theorem clamped_iff (p : Profile) (buf : Slice) (call : Transfer) :
    call.Clamped p buf ↔ buf.len ≤ 4294967295
      ∨ (p.debugAssertions = false ∧ buf.len % 4294967296 = 4294967295) :=
  clamped_iff_lenOf.trans lenOf_clamped_iff

/-- Four gibibytes are encoded as no bytes, or stop the program. -/
theorem not_clamped_fourGiB :
    (∀ fd offset, ((doRead fd offset).sqe ⟨false⟩ ⟨0, 4294967296⟩).map Sqe.len = some 0) ∧
      (∀ fd offset, (doRead fd offset).sqe ⟨true⟩ ⟨0, 4294967296⟩ = none) ∧
      ¬ ∀ (p : Profile) (buf : Slice) (call : Transfer), buf.len < 2 ^ 64 →
        call.Clamped p buf := by
  refine ⟨fun fd offset => rfl, fun fd offset => rfl, fun hall => ?_⟩
  have hclamped := hall ⟨false⟩ ⟨0, 4294967296⟩ (doRead ⟨3⟩ 0) (by decide)
  obtain ⟨sqe, hsqe, hencodes, -⟩ := hclamped
  have hlen : sqe.len = 0 := by
    rw [← Option.some.inj hsqe]
    rfl
  exact hencodes.nonempty (by decide) hlen

end Transfer

end Ququmatz
