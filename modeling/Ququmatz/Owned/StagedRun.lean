import Ququmatz.Owned.FutexWaitv
import Ququmatz.Owned.Openat2
import Ququmatz.Owned.Staged

/-!
# `Ququmatz.Owned.StagedRun`: a staged request from its construction to its completion

A `StagedKind` is a kind of request that owns storage, with its states and the functions between
them. In a run of such a request its owner pushes it, gets it back from a queue that is full, and
pushes it again; then receipts are redeemed, those of other requests among them. At any time
somebody else writes to memory that is not the request's. `Sqe.parameter` is where the kernel
reads the parameters that an SQE names, and a `Parameter` is what it is to find there, field by
field as the kernel's interface has them.
-/

set_option autoImplicit false

namespace Ququmatz

open Lib

variable {w : Width}

/-- A kind of staged request, the functions between its states, and what they keep. -/
structure StagedKind (w : Width) where
  Prepared : Type
  Pending : Type
  Done : Type
  intoPending : Prepared → RingId → RequestId → Sqe × Pending
  reclaim : Pending → Prepared
  redeem : Pending → Receipt → Except (Pending × Receipt) Done
  store : Prepared → Storage w
  doneStore : Done → Storage w
  userData_intoPending : ∀ q ring id, (intoPending q ring id).1.userData = id.raw
  reclaim_intoPending : ∀ q ring id, reclaim (intoPending q ring id).2 = q
  redeem_own : ∀ q ring id receipt, receipt.belongsTo ring id = true →
    ∃ d, redeem (intoPending q ring id).2 receipt = .ok d ∧ doneStore d = store q
  redeem_other : ∀ q ring id receipt, receipt.belongsTo ring id = false →
    redeem (intoPending q ring id).2 receipt = .error ((intoPending q ring id).2, receipt)

/-- The requests of `staged_value.rs`. -/
def ValuePrepared.kind (w : Width) (Op : ValueOp) : StagedKind w where
  Prepared := ValuePrepared w Op
  Pending := ValuePending w Op
  Done := ValueDone w Op
  intoPending := ValuePrepared.intoPending
  reclaim := ValuePending.reclaimUnsubmitted
  redeem := ValuePending.redeem
  store := ValuePrepared.store
  doneStore := ValueDone.store
  userData_intoPending := fun _ _ _ => rfl
  reclaim_intoPending := fun _ _ _ => rfl
  redeem_own := fun _ _ _ _ h =>
    ⟨_, if_neg (ne_true_of_eq_false ((Bool.not_eq_false' _).mpr h)), rfl⟩
  redeem_other := fun _ _ _ _ h => if_pos ((Bool.not_eq_true' _).mpr h)

/-- The requests of `staged_addr.rs`. -/
def StagedPrepared.kind (w : Width) (Op : AddrOp) : StagedKind w where
  Prepared := StagedPrepared w Op
  Pending := StagedPending w Op
  Done := StagedDone w Op
  intoPending := StagedPrepared.intoPending
  reclaim := StagedPending.reclaimUnsubmitted
  redeem := StagedPending.redeem
  store := StagedPrepared.store
  doneStore := StagedDone.store
  userData_intoPending := fun _ _ _ => rfl
  reclaim_intoPending := fun _ _ _ => rfl
  redeem_own := fun _ _ _ _ h =>
    ⟨_, if_neg (ne_true_of_eq_false ((Bool.not_eq_false' _).mpr h)), rfl⟩
  redeem_other := fun _ _ _ _ h => if_pos ((Bool.not_eq_true' _).mpr h)

/-- The storage of the `open_how`; the path has storage of its own. -/
def PreparedOpenat2.kind [Native] (w : Width) : StagedKind w where
  Prepared := PreparedOpenat2 w
  Pending := PendingOpenat2 w
  Done := Opened2 w
  intoPending := PreparedOpenat2.intoPending
  reclaim := PendingOpenat2.reclaimUnsubmitted
  redeem := PendingOpenat2.redeem
  store := PreparedOpenat2.howStore
  doneStore := Opened2.howStore
  userData_intoPending := fun _ _ _ => rfl
  reclaim_intoPending := fun _ _ _ => rfl
  redeem_own := fun _ _ _ _ h =>
    ⟨_, if_neg (ne_true_of_eq_false ((Bool.not_eq_false' _).mpr h)), rfl⟩
  redeem_other := fun _ _ _ _ h => if_pos ((Bool.not_eq_true' _).mpr h)

def PreparedFutexWaitv.kind (w : Width) : StagedKind w where
  Prepared := PreparedFutexWaitv w
  Pending := PendingFutexWaitv w
  Done := FutexWaitvDone w
  intoPending := PreparedFutexWaitv.intoPending
  reclaim := PendingFutexWaitv.reclaimUnsubmitted
  redeem := PendingFutexWaitv.redeem
  store := PreparedFutexWaitv.array
  doneStore := FutexWaitvDone.array
  userData_intoPending := fun _ _ _ => rfl
  reclaim_intoPending := fun _ _ _ => rfl
  redeem_own := fun _ _ _ _ h =>
    ⟨_, if_neg (ne_true_of_eq_false ((Bool.not_eq_false' _).mpr h)), rfl⟩
  redeem_other := fun _ _ _ _ h => if_pos ((Bool.not_eq_true' _).mpr h)

/-- The states of a request. Beside a ticket is the SQE that the queue took. -/
inductive StagedPhase (K : StagedKind w)
  | prepared (q : K.Prepared)
  | pending (sqe : Sqe) (t : K.Pending)
  | done (d : K.Done)

inductive StagedAction
  /-- Push the request through a submitter, with the ring's memory and the kernel's moves. -/
  | push (submitter : OwnedSubmitter) (rs : List KRound) (world : World)
  | redeem (receipt : Receipt)
  /-- A store to memory that the request does not own. -/
  | elsewhere (addr : Nat) (data : List UInt8)

namespace StagedKind

variable (K : StagedKind w)

/-- The effect of an action on a request that owns `owned`. -/
def step (owned : Range) :
    StagedPhase K × Memory → StagedAction → Option (StagedPhase K × Memory)
  | (.prepared q, m), .push submitter rs world =>
      ((submitter.pushWith (K.intoPending q) K.reclaim).run ringMachine rs world).map fun x =>
        match x.1.1 with
        | .ok t =>
            let slot := (submitter.inner.sqTailLocal &&& submitter.inner.sqMask).toNat
            (.pending (x.2.sqes slot) t, m)
        | .error (q, _) => (.prepared q, m)
  | (.pending sqe t, m), .redeem receipt =>
      match K.redeem t receipt with
      | .ok d => some (.done d, m)
      | .error (t, _) => some (.pending sqe t, m)
  | (phase, m), .elsewhere addr data =>
      if addr + data.length ≤ owned.start ∨ owned.start + owned.len ≤ addr then
        some (phase, m.write addr data)
      else none
  | _, _ => none

theorem step_redeem (owned : Range) (sqe : Sqe) (t : K.Pending) (m : Memory) (receipt : Receipt) :
    K.step owned (.pending sqe t, m) (.redeem receipt) =
      match K.redeem t receipt with
      | .ok d => some (.done d, m)
      | .error (t, _) => some (.pending sqe t, m) := rfl

theorem step_elsewhere (owned : Range) (phase : StagedPhase K) (m : Memory) (addr : Nat)
    (data : List UInt8) :
    K.step owned (phase, m) (.elsewhere addr data) =
      if addr + data.length ≤ owned.start ∨ owned.start + owned.len ≤ addr then
        some (phase, m.write addr data)
      else none := by
  cases phase <;> rfl

/-- A run of a request. -/
def run (owned : Range) :
    List StagedAction → StagedPhase K × Memory → Option (StagedPhase K × Memory)
  | [], s => some s
  | a :: as, s => (K.step owned s a).bind (run owned as)

end StagedKind

/-! ### What the kernel reads -/

/-- The bytes that the kernel reads for the parameters of an SQE. A timeout names a number of
timespecs, and `epoll_ctl` one event. -/
def Sqe.parameter (packed : Bool) (self : Sqe) : Option Range :=
  if self.opcode = Opcode.timeout.toU8 then
    some ⟨self.addr.toNat, 16 * self.len.toNat⟩
  else if self.opcode = Opcode.epollCtl.toU8 then
    some ⟨self.addr.toNat, if packed then 12 else 16⟩
  else if self.opcode = Opcode.bind.toU8 ∨ self.opcode = Opcode.connect.toU8 then
    some ⟨self.addr.toNat, self.off.toNat⟩
  else if self.opcode = Opcode.openat2.toU8 then some ⟨self.off.toNat, self.len.toNat⟩
  else if self.opcode = Opcode.futexWaitv.toU8 then
    some ⟨self.addr.toNat, 24 * self.len.toNat⟩
  else none

/-- A structure of the kernel's interface that is filled in: its size, its alignment, and its
fields, each at its offset. -/
structure Parameter where
  size : Nat
  align : Nat
  fields : List (Nat × List UInt8)
  inside : ∀ f ∈ fields, f.1 + f.2.length ≤ size

namespace Parameter

variable [Native]

theorem timespec_inside (duration : Timespec) :
    ∀ f ∈ [(0, u64Bytes duration.tvSec.toUInt64), (8, u64Bytes duration.tvNsec.toUInt64)],
      f.1 + f.2.length ≤ 16 := by
  simp

/-- `struct __kernel_timespec`: the seconds and the nanoseconds. -/
def timespec (duration : Timespec) : Parameter where
  size := 16
  align := 8
  fields := [(0, u64Bytes duration.tvSec.toUInt64), (8, u64Bytes duration.tvNsec.toUInt64)]
  inside := timespec_inside duration

/-- `struct epoll_event`, which is packed on `x86_64`: the events and the data of the change. A
target that is taken out of the set has neither. -/
def epollEvent (packed : Bool) (change : EpollChange) : Parameter where
  size := if packed then 12 else 16
  align := if packed then 1 else 8
  fields :=
    match change with
    | .add events data => [(0, u32Bytes events.bits), (if packed then 4 else 8, u64Bytes data)]
    | .mod events data => [(0, u32Bytes events.bits), (if packed then 4 else 8, u64Bytes data)]
    | .del => [(0, u32Bytes 0), (if packed then 4 else 8, u64Bytes 0)]
  inside := by cases packed <;> cases change <;> simp

/-- `struct sockaddr_in`: the family, the port, the address, and eight zeros. -/
def sockAddrIn (addr : SockAddrIn) : Parameter where
  size := 16
  align := 1
  fields := [(0, u16Bytes addr.sinFamily), (2, u16Bytes addr.sinPort), (4, u32Bytes addr.sinAddr),
    (8, List.replicate 8 0)]
  inside := by simp

/-- `struct open_how`: the flags with those of the mode, the permission bits if there is a file
to create, and the resolve flags. -/
def openHow (flags : OpenFlags) (mode : Openat2Mode) (resolve : ResolveFlags) : Parameter where
  size := 24
  align := 8
  fields :=
    let (creates, permissions) : UInt32 × UInt32 :=
      match mode with
      | .existing => (0, 0)
      | .create mode => (OpenFlags.CREAT.bits, mode.bits)
      | .createNew mode => (OpenFlags.CREAT.bits ||| OpenFlags.EXCL.bits, mode.bits)
      | .tmpfile mode => (OpenFlags.TMPFILE.bits, mode.bits)
    [(0, u64Bytes (flags.bits ||| creates).toUInt64), (8, u64Bytes permissions.toUInt64),
      (16, u64Bytes resolve.bits)]
  inside := by simp

/-- An array of `struct futex_waitv`: for each waiter the value, the address, the flags and a
reserved word. -/
def futexWaitv (waiters : List FutexWaitv) : Parameter where
  size := 24 * waiters.length
  align := 8
  fields := waiters.zipIdx.flatMap fun (waiter, i) =>
    [(24 * i, u64Bytes waiter.val), (24 * i + 8, u64Bytes waiter.uaddr),
      (24 * i + 16, u32Bytes waiter.flags), (24 * i + 20, u32Bytes waiter.reserved)]
  inside := fun f hf => by
    obtain ⟨⟨waiter, i⟩, hmem, hf⟩ := List.mem_flatMap.mp hf
    have hlt : i < waiters.length :=
      (List.getElem?_eq_some_iff.mp (List.mem_zipIdx_iff_getElem?.mp hmem)).1
    simp only [List.mem_cons, List.not_mem_nil, or_false] at hf
    rcases hf with rfl | rfl | rfl | rfl <;>
      simp only [length_u64Bytes, length_u32Bytes] <;> omega

end Parameter

end Ququmatz
