import Ququmatz.Owned.Vectored

/-!
# `Ququmatz.Owned.Footprint`: what an owned request lets the kernel touch

The five request types under one roof: `Request` before the push, `Ticket` after it, and
`Build` and `RequestOp` for every safe operation in between. `Ticket.named` follows the
addresses of an SQE the way the kernel does; `Ticket.memory` is the memory the ticket owns.

`Footprint` is the abstract side. It knows nothing of cached addresses: it keeps the memory
that was captured, when the request was made or its lengths were last set, and the buffers
that are in place.
-/

set_option autoImplicit false

namespace Ququmatz

open Lib

/-- A request that has not been queued. -/
inductive Request (B R : Type) (N : Nat)
  | single (request : Prepared B)
  | zc (request : PreparedZc B)
  | vectored (request : PreparedVectored B R N)
  | sendmsg (request : PreparedSendmsg B R N)
  | sendmsgZc (request : PreparedSendmsgZc B R N)

/-- A request that the queue accepted. -/
inductive Ticket (B R : Type) (N : Nat)
  | single (pending : Pending B)
  | zc (pending : PendingZc B)
  | vectored (pending : PendingVectored B R N)
  | sendmsg (pending : PendingSendmsg B R N)
  | sendmsgZc (pending : PendingSendmsgZc B R N)

/-- The constructors, with their arguments. -/
inductive Build (B R : Type) (N : Nat)
  | read (fd : RawFd) (buf : B) (offset : UInt64)
  | write (fd : RawFd) (buf : B) (offset : UInt64)
  | send (fd : RawFd) (buf : B) (flags : MsgFlags)
  | readv (fd : RawFd) (bufs : Fin N → B) (vecs : R) (offset : UInt64)
  | writev (fd : RawFd) (bufs : Fin N → B) (vecs : R) (offset : UInt64)
  | sendmsg (fd : RawFd) (bufs : Fin N → B) (region : R) (target : SendTarget) (flags : MsgFlags)
  | sendmsgZc (fd : RawFd) (bufs : Fin N → B) (region : R) (target : SendTarget)
      (flags : MsgFlags)

/-- What safe code can do with a request before it is accepted. A method that a request does
not have leaves it as it is. -/
inductive RequestOp (B : Type) (N : Nat)
  | withLen (len : UInt32)
  | withLens (lens : Fin N → Nat)
  /-- Any use of the `&mut B`. -/
  | bufferMut (use : B → B)
  /-- Any use of the `&mut [B; N]`. -/
  | buffersMut (use : (Fin N → B) → (Fin N → B))
  /-- A push into a full queue, which hands the request back. -/
  | refusedPush (ring : RingId) (id : RequestId)

section

variable {B R : Type} {N : Nat}

/-- Run a constructor; `none` when it refuses its arguments. -/
def Build.run [StableBufferMut B] [StableBufferMut R] : Build B R N → Option (Request B R N)
  | .read fd buf offset => some (.single (Prepared.read fd buf offset))
  | .write fd buf offset => some (.single (Prepared.write fd buf offset))
  | .send fd buf flags => some (.zc (PreparedZc.send fd buf flags))
  | .readv fd bufs vecs offset =>
      (PreparedVectored.readv fd bufs vecs offset).toOption.map .vectored
  | .writev fd bufs vecs offset =>
      (PreparedVectored.writev fd bufs vecs offset).toOption.map .vectored
  | .sendmsg fd bufs region target flags =>
      (PreparedSendmsg.new fd bufs region target flags).toOption.map .sendmsg
  | .sendmsgZc fd bufs region target flags =>
      (PreparedSendmsgZc.new fd bufs region target flags).toOption.map .sendmsgZc

namespace Request

/-- `into_pending` of the request. -/
def intoPending (self : Request B R N) (ring : RingId) (id : RequestId) : Sqe × Ticket B R N :=
  match self with
  | .single r =>
      let (sqe, pending) := r.intoPending ring id
      (sqe, .single pending)
  | .zc r =>
      let (sqe, pending) := r.intoPending ring id
      (sqe, .zc pending)
  | .vectored r =>
      let (sqe, pending) := r.intoPending ring id
      (sqe, .vectored pending)
  | .sendmsg r =>
      let (sqe, pending) := PreparedSendmsg.intoPending r ring id
      (sqe, .sendmsg pending)
  | .sendmsgZc r =>
      let (sqe, pending) := PreparedSendmsgZc.intoPending r ring id
      (sqe, .sendmsgZc pending)

end Request

/-- `reclaim_unsubmitted` of the ticket. -/
def Ticket.reclaimUnsubmitted : Ticket B R N → Request B R N
  | .single pending => .single pending.reclaimUnsubmitted
  | .zc pending => .zc pending.reclaimUnsubmitted
  | .vectored pending => .vectored pending.reclaimUnsubmitted
  | .sendmsg pending => .sendmsg pending.reclaimUnsubmitted
  | .sendmsgZc pending => .sendmsgZc pending.reclaimUnsubmitted

/-- One operation on a request. -/
def Request.apply [StableBuffer B] (self : Request B R N) (op : RequestOp B N) :
    Request B R N :=
  match op, self with
  | .withLen len, .single r => .single (r.withLen len)
  | .withLen len, .zc r => .zc (r.withLen len)
  | .withLens lens, .vectored r => .vectored (r.withLens lens)
  | .withLens lens, .sendmsg r => .sendmsg (r.withLens lens)
  | .withLens lens, .sendmsgZc r => .sendmsgZc (r.withLens lens)
  | .bufferMut use, .single r => .single (r.bufferMut use)
  | .bufferMut use, .zc r => .zc (r.bufferMut use)
  | .buffersMut use, .vectored r => .vectored (r.buffersMut use)
  | .buffersMut use, .sendmsg r => .sendmsg (r.buffersMut use)
  | .buffersMut use, .sendmsgZc r => .sendmsgZc (r.buffersMut use)
  | .refusedPush ring id, r => (r.intoPending ring id).2.reclaimUnsubmitted
  | _, r => r

/-! ### What the kernel follows, and what the ticket owns -/

/-- The memory a descriptor names. -/
def IoVec.range (v : IoVec) : Range := ⟨v.base.toNat, v.len⟩

/-- What a message header in the store names: the descriptor array and its descriptors, the
address and the control data. -/
def MsgRegion.followed (region : MsgRegion R) : List Range :=
  let h := region.header
  [⟨h.msgIov.toNat, sizeofIoVec * h.msgIovlen⟩, ⟨h.msgName.toNat, h.msgNamelen.toNat⟩,
    ⟨h.msgControl.toNat, h.msgControllen⟩] ++
    (List.range h.msgIovlen).map fun i => (region.descriptors i).range

namespace Ticket

/-- The ranges that the kernel comes to from an SQE of this ticket. -/
def named (self : Ticket B R N) (sqe : Sqe) : List Range :=
  match self with
  | .single _ | .zc _ => [⟨sqe.addr.toNat, sqe.len.toNat⟩]
  | .vectored pending =>
      ⟨sqe.addr.toNat, sizeofIoVec * sqe.len.toNat⟩ ::
        ((List.ofFn pending.descriptors).take sqe.len.toNat).map IoVec.range
  | .sendmsg pending => ⟨sqe.addr.toNat, sizeofMsgHdr * sqe.len.toNat⟩ :: pending.region.followed
  | .sendmsgZc pending =>
      ⟨sqe.addr.toNat, sizeofMsgHdr * sqe.len.toNat⟩ :: pending.region.followed

/-- The memory of the buffers and stores that a ticket owns. -/
def memory [StableBuffer B] [StableBuffer R] : Ticket B R N → List Range
  | .single pending => [memoryOf pending.buf]
  | .zc pending => [memoryOf pending.buf]
  | .vectored pending => memoryOf pending.vecs :: List.ofFn fun i => memoryOf (pending.bufs i)
  | .sendmsg pending =>
      memoryOf pending.region.store :: List.ofFn fun i => memoryOf (pending.bufs i)
  | .sendmsgZc pending =>
      memoryOf pending.region.store :: List.ofFn fun i => memoryOf (pending.bufs i)

end Ticket

/-- All that the SQE of a request names lies in memory that the ticket owns. -/
def Request.AddressesOwned [StableBuffer B] [StableBuffer R] (self : Request B R N)
    (ring : RingId) (id : RequestId) : Prop :=
  Range.AllInside ((self.intoPending ring id).2.named (self.intoPending ring id).1)
    (self.intoPending ring id).2.memory

instance [StableBuffer B] [StableBuffer R] (r : Request B R N) (ring : RingId) (id : RequestId) :
    Decidable (r.AddressesOwned ring id) :=
  inferInstanceAs (Decidable (Range.AllInside _ _))

/-! ### The abstract side -/

/-- The memory that was captured, and the buffers that are in place. -/
inductive Footprint (B R : Type) (N : Nat)
  | one (captured : Range) (buf : B)
  | many (captured : Fin N → Range) (bufs : Fin N → B) (store : R)

/-- The first bytes of a buffer, at most `len` of them. -/
def firstBytes [StableBuffer B] (b : B) (len : Nat) : Range :=
  ⟨(memoryOf b).start, min len (memoryOf b).len⟩

/-- What a constructor captures: all of each buffer, as far as the length field reaches. -/
def Build.footprint [StableBuffer B] : Build B R N → Footprint B R N
  | .read _ buf _ | .write _ buf _ | .send _ buf _ => .one (firstBytes buf 4294967295) buf
  | .readv _ bufs store _ | .writev _ bufs store _ | .sendmsg _ bufs store _ _
  | .sendmsgZc _ bufs store _ _ => .many (fun i => memoryOf (bufs i)) bufs store

namespace Footprint

/-- `with_len` shortens what was captured, `with_lens` captures anew from the buffers in
place, and a use of the `&mut` changes the buffers in place only. -/
def apply [StableBuffer B] (self : Footprint B R N) (op : RequestOp B N) : Footprint B R N :=
  match op, self with
  | .withLen len, .one captured buf =>
      .one { captured with len := min len.toNat captured.len } buf
  | .withLens lens, .many _ bufs store => .many (fun i => firstBytes (bufs i) (lens i)) bufs store
  | .bufferMut use, .one captured buf => .one captured (use buf)
  | .buffersMut use, .many captured bufs store => .many captured (use bufs) store
  | _, self => self

/-- The buffers in place, or the store, cover what was captured. The count of an SQE is a
`u32`, so of `N` buffers it names `N % 2 ^ 32`. -/
def Covered [StableBuffer B] [StableBuffer R] : Footprint B R N → Prop
  | .one captured buf => captured.Inside (memoryOf buf)
  | .many captured bufs store =>
      ∀ i : Fin N, i.val < N % 2 ^ 32 →
        (captured i).Inside (memoryOf store) ∨ ∃ j, (captured i).Inside (memoryOf (bufs j))

instance [StableBuffer B] [StableBuffer R] (f : Footprint B R N) : Decidable f.Covered :=
  match f with
  | .one captured buf => inferInstanceAs (Decidable (captured.Inside (memoryOf buf)))
  | .many captured bufs store =>
      inferInstanceAs (Decidable (∀ i : Fin N, i.val < N % 2 ^ 32 →
        (captured i).Inside (memoryOf store) ∨ ∃ j, (captured i).Inside (memoryOf (bufs j))))

end Footprint

end

end Ququmatz
