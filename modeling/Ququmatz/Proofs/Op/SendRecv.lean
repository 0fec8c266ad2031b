import Ququmatz.Lib.FlagWord
import Ququmatz.Op.SendRecv

/-!
# `Ququmatz.Proofs.Op.SendRecv`: what `opcode` and `ioprio` tell

Every modifier sets the bit of its kind in `ioprio`, and the kinds have different bits. A
multishot constructor sets one bit itself, and that bit is the one of `FixedBuf`. So the
encoding is unambiguous exactly where neither the constructor nor a `FixedBuf` has set it in a
receive (`saysWhatItIs_iff`).
-/

set_option autoImplicit false

namespace Ququmatz

open Lib

/-- The bit of `ioprio` that a modifier of the kind sets. -/
def SendRecvKind.bit : SendRecvKind → Nat
  | .pollFirst => 0
  | .fixedBuf => 1
  | .reportUsage => 3
  | .bundle => 4
  | .vectorized => 5

theorem SendRecvKind.bit_injective : Function.Injective SendRecvKind.bit := by
  intro k k' h
  cases k <;> cases k' <;> first | rfl | cases h

/-! ### What the modifiers do to the fields -/

namespace Sqe

@[simp] theorem withFlag_opcode (s : Sqe) (f : SendRecvFlag) :
    (s.withFlag f).opcode = s.opcode := by
  cases f <;> rfl

theorem withFlag_ioprio (s : Sqe) (f : SendRecvFlag) :
    (s.withFlag f).ioprio.toNat = s.ioprio.toNat ||| 2 ^ f.kind.bit := by
  cases f <;> exact UInt16.toNat_or _ _

@[simp] theorem withFlags_cons (s : Sqe) (f : SendRecvFlag) (fs : List SendRecvFlag) :
    s.withFlags (f :: fs) = (s.withFlag f).withFlags fs := rfl

@[simp] theorem withFlags_opcode (s : Sqe) (fs : List SendRecvFlag) :
    (s.withFlags fs).opcode = s.opcode := by
  induction fs generalizing s with
  | nil => rfl
  | cons f fs ih => rw [withFlags_cons, ih, withFlag_opcode]

theorem withFlags_ioprio (s : Sqe) (fs : List SendRecvFlag) :
    (s.withFlags fs).ioprio.toNat =
      FlagWord.mark SendRecvKind.bit s.ioprio.toNat (kinds fs) := by
  induction fs generalizing s with
  | nil => rfl
  | cons f fs ih =>
      rw [withFlags_cons, ih, withFlag_ioprio]
      rfl

theorem withFlags_bufIndex (s : Sqe) (fs : List SendRecvFlag) :
    (s.withFlags fs).bufIndex = (lastFixedBuf fs).getD s.bufIndex := by
  induction fs generalizing s with
  | nil => rfl
  | cons f fs ih =>
      rw [withFlags_cons, ih]
      cases f <;> rfl

/-- `IORING_RECV_MULTISHOT` is the bit of `FixedBuf`. -/
theorem and_recvMultishot_ne_zero (w : UInt16) :
    (w &&& IORING_RECV_MULTISHOT != 0) = true ↔
      w.toNat.testBit SendRecvKind.fixedBuf.bit = true := by
  rw [bne_iff_ne, ne_eq, ← UInt16.toNat_inj, UInt16.toNat_and]
  exact FlagWord.and_two_pow_ne_zero w.toNat SendRecvKind.fixedBuf.bit

end Sqe

/-! ### The constructors -/

namespace SendRecvOp

variable (op : SendRecvOp) (fs : List SendRecvFlag)

@[simp] theorem build_opcode : (op.build fs).opcode = op.sqe.opcode := Sqe.withFlags_opcode _ _

/-- Before the modifiers, `ioprio` has the bit of a multishot constructor or none. -/
theorem sqe_ioprio :
    op.sqe.ioprio.toNat = if op.isMultishot then 2 ^ SendRecvKind.fixedBuf.bit else 0 := by
  cases op <;> rfl

theorem sqe_bufIndex : op.sqe.bufIndex = 0 := by
  cases op <;> rfl

theorem isReceive_of_isMultishot (h : op.isMultishot = true) : op.isReceive = true := by
  cases op <;> first | rfl | cases h

theorem isReceive_eq :
    op.isReceive = (op.sqe.opcode == Opcode.recv.toU8 || op.sqe.opcode == Opcode.recvMsg.toU8) := by
  cases op <;> rfl

/-- Each multishot constructor has a single-shot one of the same opcode. -/
theorem exists_singleShot (h : op.isMultishot = true) :
    ∃ op' : SendRecvOp, op'.isMultishot = false ∧ op'.sqe.opcode = op.sqe.opcode := by
  cases op with
  | recvMultishot fd flags => exact ⟨.recv fd 0 0 flags, rfl, rfl⟩
  | recvmsgMultishot fd msg flags => exact ⟨.recvmsg fd msg flags, rfl, rfl⟩
  | _ => cases h

theorem build_ioprio :
    (op.build fs).ioprio.toNat =
      FlagWord.mark SendRecvKind.bit
        (if op.isMultishot then 2 ^ SendRecvKind.fixedBuf.bit else 0) (kinds fs) := by
  rw [build, Sqe.withFlags_ioprio, sqe_ioprio]

/-- The bit of `IORING_RECV_MULTISHOT` is set by the constructor, or by a `FixedBuf`. -/
theorem build_multishot_bit :
    (op.build fs).ioprio.toNat.testBit SendRecvKind.fixedBuf.bit = true ↔
      op.isMultishot = true ∨ .fixedBuf ∈ kinds fs := by
  rw [build_ioprio]
  by_cases hm : op.isMultishot = true
  · rw [if_pos hm, FlagWord.testBit_mark, Nat.testBit_two_pow]
    simp [hm]
  · rw [if_neg hm, FlagWord.testBit_mark_bit SendRecvKind.bit_injective _ (Nat.zero_testBit _)]
    simp [hm]

theorem armsMultishot_build :
    (op.build fs).armsMultishot = true ↔
      op.isReceive = true ∧ (op.isMultishot = true ∨ .fixedBuf ∈ kinds fs) := by
  rw [Sqe.armsMultishot, build_opcode, ← isReceive_eq, Bool.and_eq_true,
    ← build_multishot_bit, Sqe.and_recvMultishot_ne_zero]

end SendRecvOp

/-! ### When the encoding is unambiguous -/

variable {op op' : SendRecvOp} {fs fs' : List SendRecvFlag}

/-- Between single-shot calls `ioprio` tells the modifiers. -/
theorem kinds_of_ioprio_eq (hm : op.isMultishot = false) (hm' : op'.isMultishot = false)
    (h : (op'.build fs').ioprio = (op.build fs).ioprio) (k : SendRecvKind) :
    k ∈ kinds fs' ↔ k ∈ kinds fs := by
  have hmark : FlagWord.mark SendRecvKind.bit 0 (kinds fs') =
      FlagWord.mark SendRecvKind.bit 0 (kinds fs) := by
    have hnat := congrArg UInt16.toNat h
    rwa [SendRecvOp.build_ioprio, SendRecvOp.build_ioprio, hm, hm'] at hnat
  exact FlagWord.mem_of_mark_eq SendRecvKind.bit_injective (fun _ => Nat.zero_testBit _)
    (fun _ => Nat.zero_testBit _) hmark k

theorem isReceive_of_opcode_eq (h : (op'.build fs').opcode = (op.build fs).opcode) :
    op'.isReceive = op.isReceive := by
  rw [SendRecvOp.build_opcode, SendRecvOp.build_opcode] at h
  rw [SendRecvOp.isReceive_eq, SendRecvOp.isReceive_eq, h]

/-- A multishot call and a single-shot one with a `FixedBuf` have the same encoding. -/
theorem exists_collision (hm : op.isMultishot = true) (fs : List SendRecvFlag) :
    ∃ (op' : SendRecvOp) (fs' : List SendRecvFlag), op'.isMultishot = false ∧
      (op'.build fs').opcode = (op.build fs).opcode ∧
      (op'.build fs').ioprio = (op.build fs).ioprio := by
  obtain ⟨op', hm', hop⟩ := op.exists_singleShot hm
  refine ⟨op', .fixedBuf 0 :: fs, hm', ?_, ?_⟩
  · rw [SendRecvOp.build_opcode, SendRecvOp.build_opcode, hop]
  · rw [← UInt16.toNat_inj, SendRecvOp.build_ioprio, SendRecvOp.build_ioprio, hm, hm']
    show FlagWord.mark SendRecvKind.bit (0 ||| 2 ^ SendRecvKind.fixedBuf.bit) (kinds fs) = _
    rw [Nat.zero_or]
    rfl

/-- The encoding says what was asked for exactly when the operation does not receive, or is a
single-shot receive without a `FixedBuf`: `IORING_RECVSEND_FIXED_BUF` has the value of
`IORING_RECV_MULTISHOT`. -/
theorem saysWhatItIs_iff (op : SendRecvOp) (fs : List SendRecvFlag) :
    SaysWhatItIs op fs ↔
      op.isReceive = false ∨ (op.isMultishot = false ∧ .fixedBuf ∉ kinds fs) := by
  constructor
  · intro h
    by_cases hr : op.isReceive = true
    · have hm : op.isMultishot = false := by
        refine Bool.eq_false_iff.mpr fun hm => ?_
        obtain ⟨op', fs', hm', hop, hio⟩ := exists_collision hm fs
        have hsame := (h.determined op' fs' hop hio).2
        rw [hm, hm'] at hsame
        cases hsame
      refine Or.inr ⟨hm, fun hfixed => ?_⟩
      have harms := h.multishot
      rw [(op.armsMultishot_build fs).mpr ⟨hr, Or.inr hfixed⟩, hm] at harms
      cases harms
    · exact Or.inl (Bool.eq_false_iff.mpr hr)
  · intro h
    -- Nothing that reads the same is multishot, on either side of the condition.
    have hquiet : op.isMultishot = false ∧ ∀ (op' : SendRecvOp) (fs' : List SendRecvFlag),
        (op'.build fs').opcode = (op.build fs).opcode →
        (op'.build fs').ioprio = (op.build fs).ioprio → op'.isMultishot = false := by
      cases h with
      | inl hr =>
          refine ⟨Bool.eq_false_iff.mpr fun hm => ?_, fun op' fs' hop _ => ?_⟩
          · rw [op.isReceive_of_isMultishot hm] at hr
            cases hr
          · refine Bool.eq_false_iff.mpr fun hm => ?_
            rw [← isReceive_of_opcode_eq hop, op'.isReceive_of_isMultishot hm] at hr
            cases hr
      | inr h =>
          refine ⟨h.1, fun op' fs' _ hio => Bool.eq_false_iff.mpr fun hm => ?_⟩
          have hbit := (op'.build_multishot_bit fs').mpr (Or.inl hm)
          rw [hio, op.build_multishot_bit, h.1] at hbit
          exact hbit.elim nofun h.2
    refine ⟨fun op' fs' hop hio => ?_, ?_, ?_⟩
    · have hm' := hquiet.2 op' fs' hop hio
      exact ⟨kinds_of_ioprio_eq hquiet.1 hm' hio, hm'.trans hquiet.1.symm⟩
    · rw [SendRecvOp.build, Sqe.withFlags_bufIndex, SendRecvOp.sqe_bufIndex]
    · rw [hquiet.1, Bool.eq_false_iff, ne_eq, op.armsMultishot_build]
      rintro ⟨hr, hm | hfixed⟩
      · rw [hquiet.1] at hm
        cases hm
      · cases h with
        | inl hr' =>
            rw [hr] at hr'
            cases hr'
        | inr h => exact h.2 hfixed

/-- A single-shot `recv` with a registered buffer arms a multishot receive. -/
theorem recv_fixedBuf_armsMultishot :
    ¬ SaysWhatItIs (.recv ⟨3⟩ 4096 64 .empty) [.fixedBuf 0] := by
  intro h
  have harms := h.multishot
  revert harms
  decide

end Ququmatz
