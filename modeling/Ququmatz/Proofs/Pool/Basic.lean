import Ququmatz.Lib.Bitmap
import Ququmatz.Pool.Ledger

/-!
# `Ququmatz.Proofs.Pool.Basic`: what the operations of a pool do

One equation for each operation: on a ledger bit (`ledgerGet_eq`, `ledgerSet_eq`, with the
bits of `Lib.Bitmap`), on the producer ring (`recycle_eq`), and for the calls built from
them. `Registered.facts` is what every registered pool starts with.
-/

set_option autoImplicit false

namespace Ququmatz

open Lib

namespace ProvidedBufferRing

/-- The ledger bit of `bufId`. -/
def bit (p : ProvidedBufferRing) (bufId : UInt16) : Bool :=
  Bitmap.test p.delivered bufId.toNat

/-- The id names a slot of the pool. -/
def HasSlot (p : ProvidedBufferRing) (bufId : UInt16) : Prop := bufId.toUInt32 < p.entries

instance (p : ProvidedBufferRing) (bufId : UInt16) : Decidable (p.HasSlot bufId) :=
  inferInstanceAs (Decidable (_ < _))

/-- The pool with one ledger bit written. -/
def withBit (p : ProvidedBufferRing) (bufId : UInt16) (value : Bool) : ProvidedBufferRing :=
  { p with delivered := Bitmap.assign p.delivered bufId.toNat value }

theorem bit_withBit (p : ProvidedBufferRing) (a b : UInt16) (value : Bool) :
    (p.withBit a value).bit b = if a = b then value else p.bit b := by
  show Bitmap.test (Bitmap.assign _ _ _) _ = _
  rw [Bitmap.test_assign]
  simp only [UInt16.toNat_inj]
  rfl

/-- An id below the largest ring size has its byte in the ledger. -/
theorem byte_lt {p : ProvidedBufferRing} {bufId : UInt16} (hmax : p.entries ≤ MAX_PBUF_RING_ENTRIES)
    (h : p.HasSlot bufId) : bufId.toNat / 8 < LEDGER_BYTES := by
  have h1 : bufId.toNat < p.entries.toNat := by
    have := UInt32.lt_iff_toNat_lt.mp h
    rwa [UInt16.toNat_toUInt32] at this
  have h2 : p.entries.toNat ≤ 32768 := UInt32.le_iff_toNat_le.mp hmax
  show _ < 4096
  omega

theorem ledgerGet_eq {p : ProvidedBufferRing} {bufId : UInt16}
    (h : bufId.toNat / 8 < LEDGER_BYTES) : p.ledgerGet bufId = .ok (p.bit bufId) := by
  show (if _ then _ else _) = _
  rw [if_pos h]
  rfl

theorem ledgerSet_eq {p : ProvidedBufferRing} {bufId : UInt16} (value : Bool)
    (h : bufId.toNat / 8 < LEDGER_BYTES) :
    p.ledgerSet bufId value = .ok (p.withBit bufId value) := by
  show (if _ then _ else _) = _
  rw [if_pos h]
  rfl

/-- The pool after slot `bufId` went to the producer ring. -/
def recycled (p : ProvidedBufferRing) (bufId : UInt16) : ProvidedBufferRing :=
  p.recycleRaw (p.slotAddr bufId.toNat) p.bufSize bufId

theorem recycle_eq {p : ProvidedBufferRing} {bufId : UInt16} (h : p.HasSlot bufId) :
    p.recycle bufId = .ok (p.recycled bufId) := if_pos h

theorem recycle_panics {p : ProvidedBufferRing} {bufId : UInt16} (h : ¬ p.HasSlot bufId) :
    p.recycle bufId = .error .bufIdOutOfRange := if_neg h

/-! ### The acknowledged path -/

theorem acknowledge_eq {p : ProvidedBufferRing} (bufId : UInt16) (len : UInt32)
    (hmax : p.entries ≤ MAX_PBUF_RING_ENTRIES) :
    p.acknowledge bufId len =
      if bufId.toUInt32 ≥ p.entries ∨ len > p.bufSize then
        .ok (.error (.outOfRange bufId len), p)
      else if p.bit bufId then .ok (.error (.alreadyAcknowledged bufId), p)
      else .ok (.ok ⟨bufId, len⟩, p.withBit bufId true) := by
  unfold acknowledge
  by_cases hr : bufId.toUInt32 ≥ p.entries ∨ len > p.bufSize
  · rw [if_pos hr, if_pos hr]
    rfl
  · have hslot : p.HasSlot bufId := UInt32.not_le.mp fun h => hr (Or.inl h)
    have hbyte := byte_lt hmax hslot
    rw [if_neg hr, if_neg hr, ledgerGet_eq hbyte]
    cases hb : p.bit bufId with
    | true => rfl
    | false =>
        -- the bit is clear: the remaining steps are the write and the token
        show (p.ledgerSet bufId true >>= _) = _
        rw [ledgerSet_eq true hbyte]
        rfl

/-- `p'` is `p` after slot `bufId` was returned and its ledger bit cleared. -/
structure GaveBack (p p' : ProvidedBufferRing) (bufId : UInt16) : Prop where
  entries_eq : p'.entries = p.entries
  bufSize_eq : p'.bufSize = p.bufSize
  bit_eq : ∀ b, p'.bit b = if bufId = b then false else p.bit b
  produced_eq : ∃ e : IoUringBuf, e.bid = bufId ∧ p'.produced = p.produced ++ [e]

theorem gaveBack_recycled (p : ProvidedBufferRing) (bufId : UInt16) :
    p.GaveBack ((p.withBit bufId false).recycled bufId) bufId where
  entries_eq := rfl
  bufSize_eq := rfl
  bit_eq := fun b => bit_withBit p bufId b false
  produced_eq := ⟨_, rfl, rfl⟩

theorem gaveBack_committed (p : ProvidedBufferRing) (bufId : UInt16) :
    p.GaveBack ((p.withBit bufId false).recycled bufId).commit bufId where
  entries_eq := rfl
  bufSize_eq := rfl
  bit_eq := fun b => bit_withBit p bufId b false
  produced_eq := ⟨_, rfl, rfl⟩

/-- `recycle_acknowledged` of a token whose id has a ledger byte. -/
theorem recycleAcknowledged_eq {p : ProvidedBufferRing} {token : AcknowledgedBuffer}
    (h : token.bufId.toNat / 8 < LEDGER_BYTES) :
    p.recycleAcknowledged token = (p.withBit token.bufId false).recycle token.bufId := by
  unfold recycleAcknowledged
  rw [ledgerSet_eq false h]
  rfl

/-- What either way of giving a token back does: on a slot of the pool it returns the slot,
on any other id it panics. -/
structure TakesBack (p : ProvidedBufferRing)
    (call : AcknowledgedBuffer → Except Panic ProvidedBufferRing) : Prop where
  ok : ∀ token, token.bufId.toNat / 8 < LEDGER_BYTES → p.HasSlot token.bufId →
    ∃ p', call token = .ok p' ∧ p.GaveBack p' token.bufId
  panics : ∀ token, token.bufId.toNat / 8 < LEDGER_BYTES → ¬ p.HasSlot token.bufId →
    call token = .error .bufIdOutOfRange

theorem takesBack_recycleAcknowledged (p : ProvidedBufferRing) :
    p.TakesBack p.recycleAcknowledged where
  ok := by
    intro token hbyte hslot
    rw [recycleAcknowledged_eq hbyte]
    exact ⟨_, recycle_eq hslot, gaveBack_recycled p token.bufId⟩
  panics := by
    intro token hbyte hslot
    rw [recycleAcknowledged_eq hbyte]
    exact recycle_panics hslot

theorem takesBack_recycleAcknowledgedAndCommit (p : ProvidedBufferRing) :
    p.TakesBack p.recycleAcknowledgedAndCommit where
  ok := by
    intro token hbyte hslot
    have hslot' : (p.withBit token.bufId false).HasSlot token.bufId := hslot
    unfold recycleAcknowledgedAndCommit
    rw [recycleAcknowledged_eq hbyte, recycle_eq hslot']
    exact ⟨_, rfl, gaveBack_committed p token.bufId⟩
  panics := by
    intro token hbyte hslot
    have hslot' : ¬ (p.withBit token.bufId false).HasSlot token.bufId := hslot
    unfold recycleAcknowledgedAndCommit
    rw [recycleAcknowledged_eq hbyte, recycle_panics hslot']
    rfl

/-! ### Registration -/

/-- What populating a pool leaves alone, and how many descriptors it writes. -/
theorem populate_facts (p : ProvidedBufferRing) (n : Nat) :
    (p.populate n).entries = p.entries ∧ (p.populate n).bufSize = p.bufSize ∧
      (p.populate n).delivered = p.delivered ∧ (p.populate n).bufs = p.bufs ∧
      (p.populate n).produced.length = p.produced.length + n := by
  unfold populate
  induction n with
  | zero => exact ⟨rfl, rfl, rfl, rfl, rfl⟩
  | succ n ih =>
      rw [List.range_succ, List.foldl_append]
      obtain ⟨h1, h2, h3, h4, h5⟩ := ih
      refine ⟨h1, h2, h3, h4, ?_⟩
      show (_ ++ [_]).length = _
      rw [List.length_append, h5]
      rfl

end ProvidedBufferRing

/-- What every registered pool starts with. -/
structure ProvidedBufferRing.Fresh (p : ProvidedBufferRing) : Prop where
  entries_le : p.entries ≤ MAX_PBUF_RING_ENTRIES
  bufSize_ne : p.bufSize ≠ 0
  delivered_eq : p.delivered = fun _ => 0
  bufs_eq : p.bufs = fun _ => 0
  length_produced : p.produced.length = p.entries.toNat

/-- A program that cannot return a pool, whatever the kernel answers. -/
def Fails (prog : Prog poolSig (Except Error ProvidedBufferRing)) : Prop :=
  ∀ rs calls calls' p, prog.run answerMachine rs calls ≠ some (.ok p, calls')

theorem fails_ret (e : Error) : Fails (Prog.ret (.error e)) := by
  intro rs calls calls' p h
  obtain ⟨-, h, -⟩ := Prog.run_ret.mp h
  cases h

theorem fails_op {c : PoolCall} {k : c.Ans → Prog poolSig (Except Error ProvidedBufferRing)}
    (h : ∀ x, Fails (k x)) : Fails (Prog.op (S := poolSig) c k) := by
  intro rs calls calls' p hrun
  obtain ⟨_, rs', _, x, calls1, -, -, -, hrun⟩ := Prog.run_op.mp hrun
  exact h x rs' calls1 calls' p hrun

/-- What a registration checks before the kernel takes the ring. -/
structure PoolChecks (usizeBits : Nat) (count bufSize : UInt32) (bufsBytes : Nat) : Prop where
  bufSize_ne : bufSize ≠ 0
  powerOfTwo : isPowerOfTwo count = true
  count_le : count ≤ MAX_PBUF_RING_ENTRIES
  bufs : checkedRingBytes usizeBits count bufSize.toNat = .ok bufsBytes

/-- A registration that succeeds has passed the checks, and returns a populated pool. -/
theorem registered_eq {usizeBits : Nat} {fd : RawFd} {bgid : UInt16} {count bufSize : UInt32}
    {flags : PbufRingFlags} {rs : List (Round answerMachine)} {calls : List PoolCall}
    {p : ProvidedBufferRing}
    (hrun : (registerProvidedBuffersOn usizeBits fd bgid count bufSize flags).run answerMachine rs
      [] = some (.ok p, calls)) :
    ∃ ringAddr ringBytes bufsAddr bufsBytes, PoolChecks usizeBits count bufSize bufsBytes ∧
      p = ((ProvidedBufferRing.mapped fd bgid count bufSize ringAddr ringBytes bufsAddr
        bufsBytes).populate count.toNat).commit := by
  unfold registerProvidedBuffersOn at hrun
  -- the argument checks
  by_cases h0 : count = 0
  · rw [if_pos h0] at hrun
    exact absurd hrun (fails_ret _ _ _ _ _)
  by_cases hsize : bufSize = 0
  · rw [if_neg h0, if_pos hsize] at hrun
    exact absurd hrun (fails_ret _ _ _ _ _)
  by_cases hpow : isPowerOfTwo count = true
  swap
  · rw [if_neg h0, if_neg hsize, if_pos (by simpa using hpow)] at hrun
    exact absurd hrun (fails_ret _ _ _ _ _)
  by_cases hmax : count > MAX_PBUF_RING_ENTRIES
  · rw [if_neg h0, if_neg hsize, if_neg (by simpa using hpow), if_pos hmax] at hrun
    exact absurd hrun (fails_ret _ _ _ _ _)
  rw [if_neg h0, if_neg hsize, if_neg (by simpa using hpow), if_neg hmax] at hrun
  -- the two mappings and the registration, each of which may fail
  cases hring : checkedRingBytes usizeBits count sizeofIoUringBuf with
  | error kind =>
      rw [hring] at hrun
      exact absurd hrun (fails_ret _ _ _ _ _)
  | ok ringBytes =>
      rw [hring] at hrun
      obtain ⟨_, rs1, _, (ringAddr : Except Errno Nat), calls1, -, -, -, hrun⟩ :=
        Prog.run_op.mp hrun
      cases ringAddr with
      | error e => exact absurd hrun (fails_ret _ _ _ _ _)
      | ok ringAddr =>
          cases hbufs : checkedRingBytes usizeBits count bufSize.toNat with
          | error kind =>
              simp only [hbufs] at hrun
              exact absurd hrun (fails_op (fun _ => fails_ret _) _ _ _ _)
          | ok bufsBytes =>
              simp only [hbufs] at hrun
              obtain ⟨_, rs2, _, (bufsAddr : Except Errno Nat), calls2, -, -, -, hrun⟩ :=
                Prog.run_op.mp hrun
              cases bufsAddr with
              | error e => exact absurd hrun (fails_op (fun _ => fails_ret _) _ _ _ _)
              | ok bufsAddr =>
                  obtain ⟨_, rs3, _, (r : Except Errno Nat), calls3, -, -, -, hrun⟩ :=
                    Prog.run_op.mp hrun
                  cases r with
                  | error e =>
                      exact absurd hrun (fails_op (fun _ => fails_op fun _ => fails_ret _) _ _ _ _)
                  | ok r =>
                      obtain ⟨_, rs4, _, _, calls4, -, -, -, hrun⟩ := Prog.run_op.mp hrun
                      obtain ⟨-, hp, -⟩ := Prog.run_ret.mp hrun
                      exact ⟨ringAddr, ringBytes, bufsAddr, bufsBytes,
                        ⟨hsize, hpow, UInt32.not_lt.mp hmax, hbufs⟩, Except.ok.inj hp⟩

theorem Registered.eq_populate {flags : PbufRingFlags} {p : ProvidedBufferRing}
    (h : Registered flags p) :
    ∃ fd bgid count bufSize ringAddr ringBytes bufsAddr bufsBytes,
      bufSize ≠ 0 ∧ isPowerOfTwo count = true ∧ count ≤ MAX_PBUF_RING_ENTRIES ∧
      p = ((ProvidedBufferRing.mapped fd bgid count bufSize ringAddr ringBytes bufsAddr
        bufsBytes).populate count.toNat).commit := by
  obtain ⟨usizeBits, fd, bgid, count, bufSize, rs, calls, hrun⟩ := h
  obtain ⟨ringAddr, ringBytes, bufsAddr, bufsBytes, hchecks, hp⟩ := registered_eq hrun
  exact ⟨fd, bgid, count, bufSize, ringAddr, ringBytes, bufsAddr, bufsBytes, hchecks.bufSize_ne,
    hchecks.powerOfTwo, hchecks.count_le, hp⟩

theorem Registered.fresh {flags : PbufRingFlags} {p : ProvidedBufferRing}
    (h : Registered flags p) : p.Fresh := by
  obtain ⟨fd, bgid, count, bufSize, ringAddr, ringBytes, bufsAddr, bufsBytes, hsize, _, hmax,
    rfl⟩ := h.eq_populate
  obtain ⟨h1, h2, h3, h4, h5⟩ := ProvidedBufferRing.populate_facts
    (ProvidedBufferRing.mapped fd bgid count bufSize ringAddr ringBytes bufsAddr bufsBytes)
    count.toNat
  exact
    { entries_le := by
        show (ProvidedBufferRing.populate _ _).entries ≤ _
        rw [h1]
        exact hmax
      bufSize_ne := by
        show (ProvidedBufferRing.populate _ _).bufSize ≠ _
        rw [h2]
        exact hsize
      delivered_eq := h3
      bufs_eq := h4
      length_produced := by
        show (ProvidedBufferRing.populate _ _).produced.length
          = (ProvidedBufferRing.populate _ _).entries.toNat
        rw [h5, h1]
        exact Nat.zero_add _ }

end Ququmatz
