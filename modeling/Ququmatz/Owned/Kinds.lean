import Ququmatz.Owned.Control
import Ququmatz.Owned.Destinations
import Ququmatz.Owned.Kind
import Ququmatz.Owned.Recvmsg

/-!
# `Ququmatz.Owned.Kinds`: the requests of the push methods

One `RequestKind` for each request that a method of `OwnedSubmitter` takes, and `PushMethod`, which
names the methods. The five requests over any number of buffers are one kind, that of `Request`.
`Sound` of a request is what its constructor leaves behind. A `Request` lends its buffers to the
caller, who can replace them, so that it is sound only while what it captured is still its own.
-/

set_option autoImplicit false

namespace Ququmatz

open Lib

variable {w : Width}

/-! ### Addresses in the storage -/

theorem toNat_asField (addr : Usize w) : (asField addr).toNat = addr.toNat :=
  toNat_ptr_asU64 addr

/-- What starts where the storage starts, and is no longer, is inside. -/
theorem Storage.start_inside {store : Storage w} {addr : Usize w} (haddr : addr = store.addr)
    {len : Nat} (hlen : len ≤ store.len) :
    Range.Inside ⟨(asField addr).toNat, len⟩ store.memory := by
  right
  rw [toNat_asField, haddr]
  exact ⟨Nat.le_refl _, Nat.add_le_add_left hlen _⟩

/-- The zero byte is in the storage. -/
def OwnedPath.Terminated (self : OwnedPath w) : Prop := self.len < self.storage.len

instance (q : OwnedPath w) : Decidable q.Terminated := inferInstanceAs (Decidable (_ < _))

/-- What the kernel reads for a path whose address is in a field. -/
def OwnedPath.readAt (self : OwnedPath w) (addr : UInt64) : Range := ⟨addr.toNat, self.len + 1⟩

theorem OwnedPath.readAt_inside {self : OwnedPath w} (h : self.Terminated) {addr : Usize w}
    (haddr : addr = self.stablePtr) : (self.readAt (asField addr)).Inside self.storage.memory :=
  Storage.start_inside haddr h

/-- What the kernel writes to a destination. -/
theorem Destination.written_inside {size align : Nat} (self : Destination w size align) :
    Range.Inside ⟨(asField self.addr).toNat, size⟩ self.store.memory :=
  Storage.start_inside self.addr_eq self.room

/-! ### One or many buffers -/

section Buffers

variable {B R : Type} {N : Nat}

/-- What the completions of a `Request` are. -/
inductive Redeemed (B R : Type) (N : Nat)
  | single (completed : Completed B)
  | zc (completed : ZcCompleted B)
  | vectored (completed : VectoredCompleted B R N)
  | sendmsg (completed : SendmsgCompleted B R N)
  | sendmsgZc (completed : SendmsgZcCompleted B R N)

/-- Put the result of one `redeem` into the common types. -/
def liftRedeem {T T' D D' : Type} (ticket : T → T') (done : D → D') :
    Except (T × Receipt) D → Except (T' × Receipt) D'
  | .ok d => .ok (done d)
  | .error (t, receipt) => .error (ticket t, receipt)

/-- `redeem` of the ticket. -/
def Ticket.redeem (self : Ticket B R N) (receipt : Receipt) :
    Except (Ticket B R N × Receipt) (Redeemed B R N) :=
  match self with
  | .single pending => liftRedeem .single .single (pending.redeem receipt)
  | .zc pending => liftRedeem .zc .zc (pending.redeem receipt)
  | .vectored pending => liftRedeem .vectored .vectored (pending.redeem receipt)
  | .sendmsg pending => liftRedeem .sendmsg .sendmsg (pending.redeem receipt)
  | .sendmsgZc pending => liftRedeem .sendmsgZc .sendmsgZc (pending.redeem receipt)

theorem Request.reclaim_intoPending (r : Request B R N) (ring : RingId) (id : RequestId) :
    (r.intoPending ring id).2.reclaimUnsubmitted = r := by
  cases r <;> rfl

variable [StableBuffer B] [StableBuffer R]

/-- The memory of the buffers and stores that a request owns. -/
def Request.memory : Request B R N → List Range
  | .single r => [memoryOf r.buf]
  | .zc r => [memoryOf r.buf]
  | .vectored r => memoryOf r.vecs :: List.ofFn fun i => memoryOf (r.bufs i)
  | .sendmsg r => memoryOf r.region.store :: List.ofFn fun i => memoryOf (r.bufs i)
  | .sendmsgZc r => memoryOf r.region.store :: List.ofFn fun i => memoryOf (r.bufs i)

/-- The memory of the buffers and stores that a completion hands back. -/
def Redeemed.memory : Redeemed B R N → List Range
  | .single d => [memoryOf d.buf]
  | .zc d => [memoryOf d.buf]
  | .vectored d => memoryOf d.vecs :: List.ofFn fun i => memoryOf (d.bufs i)
  | .sendmsg d => memoryOf d.region.store :: List.ofFn fun i => memoryOf (d.bufs i)
  | .sendmsgZc d => memoryOf d.region.store :: List.ofFn fun i => memoryOf (d.bufs i)

theorem Request.memory_intoPending (r : Request B R N) (ring : RingId) (id : RequestId) :
    (r.intoPending ring id).2.memory = r.memory := by
  cases r <;> rfl

/-- Every `redeem` hands back the buffers of the request, or the ticket and the receipt. -/
theorem Request.redeem_intoPending (r : Request B R N) (ring : RingId) (id : RequestId)
    (receipt : Receipt) :
    if receipt.belongsTo ring id then
      ∃ d, (r.intoPending ring id).2.redeem receipt = .ok d ∧ d.memory = r.memory
    else
      (r.intoPending ring id).2.redeem receipt = .error ((r.intoPending ring id).2, receipt) := by
  cases h : receipt.belongsTo ring id <;> cases r <;>
    simp [Request.intoPending, Prepared.intoPending, PreparedZc.intoPending,
      PreparedVectored.intoPending, PreparedSendmsg.intoPending, PreparedSendmsgZc.intoPending,
      Ticket.redeem, Pending.redeem, PendingZc.redeem, PendingVectored.redeem,
      PendingSendmsg.redeem, PendingSendmsgZc.redeem, h, liftRedeem, Redeemed.memory,
      Request.memory]

/-- The identity does not matter for what a request names. -/
theorem Request.addressesOwned_any {r : Request B R N} (h : r.AddressesOwned ⟨0⟩ ⟨0⟩)
    (ring : RingId) (id : RequestId) : r.AddressesOwned ring id := by
  cases r <;> exact h

/-- The requests of `push`, `push_zc`, `push_vectored`, `push_sendmsg` and `push_sendmsg_zc`. -/
def Request.requestKind (B R : Type) [StableBuffer B] [StableBuffer R] (N : Nat) : RequestKind where
  Prepared := Request B R N
  Pending := Ticket B R N
  Done := Redeemed B R N
  intoPending := Request.intoPending
  reclaim := fun _ => Ticket.reclaimUnsubmitted
  redeem := Ticket.redeem
  holds := Request.memory
  keeps := Ticket.memory
  returns := Redeemed.memory
  named := Ticket.named
  Sound := fun r => r.AddressesOwned ⟨0⟩ ⟨0⟩
  userData_intoPending := fun r _ _ => by cases r <;> rfl
  reclaim_intoPending := Request.reclaim_intoPending
  keeps_intoPending := Request.memory_intoPending
  redeem_own := fun r ring id receipt h => by
    have hredeem := r.redeem_intoPending ring id receipt
    rwa [if_pos h] at hredeem
  redeem_other := fun r ring id receipt h => by
    have hredeem := r.redeem_intoPending ring id receipt
    rwa [h] at hredeem
  named_inside := fun r ring id h => by
    rw [← r.memory_intoPending ring id]
    exact Request.addressesOwned_any h ring id

end Buffers

/-! ### Requests without memory -/

/-- A multishot ticket is spent by the event that ends its request. -/
def spend {T D : Type} (record : T → Event → Except Event D) (self : T) (receipt : Receipt) :
    Except (T × Receipt) D :=
  match record self (.complete receipt) with
  | .ok d => .ok d
  | .error _ => .error (self, receipt)

section Spend

variable {T D : Type} {record : T → Event → Except Event D} {t : T} {ring : RingId} {id : RequestId}
  {d : D} {receipt : Receipt}

theorem spend_own (hr : receipt.belongsTo ring id = true)
    (h : record t (.complete receipt) =
      if (Event.complete receipt).belongsTo ring id then .ok d else .error (.complete receipt)) :
    spend record t receipt = .ok d := by
  have hr' : (Event.complete receipt).belongsTo ring id = true := hr
  unfold spend
  rw [h, if_pos hr']

theorem spend_other (hr : receipt.belongsTo ring id = false)
    (h : record t (.complete receipt) =
      if (Event.complete receipt).belongsTo ring id then .ok d else .error (.complete receipt)) :
    spend record t receipt = .error (t, receipt) := by
  have hr' : (Event.complete receipt).belongsTo ring id ≠ true := ne_true_of_eq_false hr
  unfold spend
  rw [h, if_neg hr']

end Spend

/-- The request of `push_multishot`. The kernel writes to the buffers of a pool. -/
def PreparedMultishot.requestKind : RequestKind where
  Prepared := PreparedMultishot
  Pending := MultishotRecv
  Done := Delivery
  intoPending := PreparedMultishot.intoPending
  redeem := spend MultishotRecv.record
  redeem_own := fun _ _ _ _ h => ⟨_, spend_own h rfl, rfl⟩
  redeem_other := fun _ _ _ _ h => spend_other h rfl

/-- The request of `push_read_multishot`. -/
def PreparedReadMultishot.requestKind : RequestKind where
  Prepared := PreparedReadMultishot
  Pending := MultishotRead
  Done := Delivery
  intoPending := PreparedReadMultishot.intoPending
  redeem := spend MultishotRead.record
  redeem_own := fun _ _ _ _ h => ⟨_, spend_own h rfl, rfl⟩
  redeem_other := fun _ _ _ _ h => spend_other h rfl

/-- The request of `push_accept`. -/
def PreparedAccept.requestKind : RequestKind where
  Prepared := PreparedAccept
  Pending := MultishotAccept
  Done := Incoming
  intoPending := PreparedAccept.intoPending
  redeem := spend MultishotAccept.record
  redeem_own := fun _ _ _ _ h => ⟨_, spend_own h rfl, rfl⟩
  redeem_other := fun _ _ _ _ h => spend_other h rfl

/-- The request of `push_direct_accept`. -/
def PreparedDirectAccept.requestKind : RequestKind where
  Prepared := PreparedDirectAccept
  Pending := DirectAccept
  Done := DirectIncoming
  intoPending := PreparedDirectAccept.intoPending
  redeem := spend DirectAccept.record
  redeem_own := fun _ _ _ _ h => ⟨_, spend_own h rfl, rfl⟩
  redeem_other := fun _ _ _ _ h => spend_other h rfl

/-- The request of `push_direct_socket`. -/
def PreparedDirectSocket.requestKind : RequestKind where
  Prepared := PreparedDirectSocket
  Pending := PendingDirectSocket
  Done := DirectSocketCreated
  intoPending := PreparedDirectSocket.intoPending
  redeem := PendingDirectSocket.redeem

/-- The request of `push_msg_ring`. -/
def PreparedMsgRing.requestKind : RequestKind where
  Prepared := PreparedMsgRing
  Pending := PendingMsgRing
  Done := MsgRingDone
  intoPending := PreparedMsgRing.intoPending
  redeem := PendingMsgRing.redeem

/-- The request of `push_cancel`. -/
def PreparedCancel.requestKind : RequestKind where
  Prepared := PreparedCancel
  Pending := PendingCancel
  Done := CancelDone
  intoPending := PreparedCancel.intoPending
  redeem := PendingCancel.redeem

/-- The request of `push_fixed_fd_install`. -/
def PreparedFixedFdInstall.requestKind : RequestKind where
  Prepared := PreparedFixedFdInstall
  Pending := PendingFixedFdInstall
  Done := FixedFdInstalled
  intoPending := PreparedFixedFdInstall.intoPending
  redeem := PendingFixedFdInstall.redeem

/-- The request of `push_futex_wait`. -/
def PreparedFutexWait.requestKind : RequestKind where
  Prepared := PreparedFutexWait
  Pending := PendingFutexWait
  Done := FutexWaitDone
  intoPending := PreparedFutexWait.intoPending
  redeem := PendingFutexWait.redeem

/-- The request of `push_futex_wake`. -/
def PreparedFutexWake.requestKind : RequestKind where
  Prepared := PreparedFutexWake
  Pending := PendingFutexWake
  Done := FutexWakeDone
  intoPending := PreparedFutexWake.intoPending
  redeem := PendingFutexWake.redeem

/-! ### Requests over paths -/

/-- The request of `push_open`. -/
def PreparedOpen.requestKind (w : Width) : RequestKind where
  Prepared := PreparedOpen w
  Pending := PendingOpen w
  Done := Opened w
  intoPending := PreparedOpen.intoPending
  reclaim := fun _ t => t.kept
  redeem := PendingOpen.redeem
  holds := fun q => [q.path.storage.memory]
  keeps := fun t => [t.kept.path.storage.memory]
  returns := fun d => [d.path.storage.memory]
  named := fun t sqe => [t.kept.path.readAt sqe.addr]
  Sound := fun q => q.path.Terminated
  named_inside := fun q _ _ h => Range.allInside_of_forall₂
    (.cons (OwnedPath.readAt_inside h q.addr_eq) .nil)

/-- The request of `push_path_op`. -/
def PreparedPathOp.requestKind (w : Width) : RequestKind where
  Prepared := PreparedPathOp w
  Pending := PendingPathOp w
  Done := PathOpCompleted w
  intoPending := PreparedPathOp.intoPending
  reclaim := fun _ t => t.kept
  redeem := PendingPathOp.redeem
  holds := fun q => [q.path.storage.memory]
  keeps := fun t => [t.kept.path.storage.memory]
  returns := fun d => [d.path.storage.memory]
  named := fun t sqe => [t.kept.path.readAt sqe.addr]
  Sound := fun q => q.path.Terminated
  named_inside := fun q _ _ h => by
    obtain ⟨path, dir, kind, addr, haddr⟩ := q
    refine Range.allInside_of_forall₂ (.cons ?_ .nil)
    cases kind <;> exact OwnedPath.readAt_inside h haddr

/-- The request of `push_rename`. The address of the second path is in `off`. -/
def PreparedRename.requestKind (w : Width) : RequestKind where
  Prepared := PreparedRename w
  Pending := PendingRename w
  Done := RenameCompleted w
  intoPending := PreparedRename.intoPending
  reclaim := fun _ t => t.kept
  redeem := PendingRename.redeem
  holds := fun q => [q.fromPath.storage.memory, q.toPath.storage.memory]
  keeps := fun t => [t.kept.fromPath.storage.memory, t.kept.toPath.storage.memory]
  returns := fun d => [d.fromPath.storage.memory, d.toPath.storage.memory]
  named := fun t sqe => [t.kept.fromPath.readAt sqe.addr, t.kept.toPath.readAt sqe.off]
  Sound := fun q => q.fromPath.Terminated ∧ q.toPath.Terminated
  named_inside := fun q _ _ h => Range.allInside_of_forall₂
    (.cons (OwnedPath.readAt_inside h.1 q.fromAddr_eq)
      (.cons (OwnedPath.readAt_inside h.2 q.toAddr_eq) .nil))

/-- The request of `push_link`. -/
def PreparedLink.requestKind (w : Width) : RequestKind where
  Prepared := PreparedLink w
  Pending := PendingLink w
  Done := LinkCompleted w
  intoPending := PreparedLink.intoPending
  reclaim := fun _ t => t.kept
  redeem := PendingLink.redeem
  holds := fun q => [q.oldPath.storage.memory, q.newPath.storage.memory]
  keeps := fun t => [t.kept.oldPath.storage.memory, t.kept.newPath.storage.memory]
  returns := fun d => [d.oldPath.storage.memory, d.newPath.storage.memory]
  named := fun t sqe => [t.kept.oldPath.readAt sqe.addr, t.kept.newPath.readAt sqe.off]
  Sound := fun q => q.oldPath.Terminated ∧ q.newPath.Terminated
  named_inside := fun q _ _ h => by
    obtain ⟨oldPath, newPath, kind, oldAddr, newAddr, hold, hnew⟩ := q
    refine Range.allInside_of_forall₂ (.cons ?_ (.cons ?_ .nil))
    · cases kind <;> exact OwnedPath.readAt_inside h.1 hold
    · cases kind <;> exact OwnedPath.readAt_inside h.2 hnew

/-- What `PreparedDirectOpen::at` leaves behind. -/
structure PreparedDirectOpen.Sound (q : PreparedDirectOpen w) : Prop where
  path : q.path.Terminated
  addr : q.addr = q.path.stablePtr

instance (q : PreparedDirectOpen w) : Decidable q.Sound :=
  decidable_of_iff (q.path.Terminated ∧ q.addr = q.path.stablePtr)
    ⟨fun h => ⟨h.1, h.2⟩, fun h => ⟨h.path, h.addr⟩⟩

/-- The request of `push_direct_open`. -/
def PreparedDirectOpen.requestKind (w : Width) : RequestKind where
  Prepared := PreparedDirectOpen w
  Pending := PendingDirectOpen w
  Done := DirectOpened w
  intoPending := PreparedDirectOpen.intoPending
  reclaim := fun _ => PendingDirectOpen.reclaimUnsubmitted
  redeem := PendingDirectOpen.redeem
  holds := fun q => [q.path.storage.memory]
  keeps := fun t => [t.path.storage.memory]
  returns := fun d => [d.path.storage.memory]
  named := fun t sqe => [t.path.readAt sqe.addr]
  Sound := PreparedDirectOpen.Sound
  named_inside := fun _ _ _ h => Range.allInside_of_forall₂
    (.cons (OwnedPath.readAt_inside h.path h.addr) .nil)

/-! ### Requests with a destination -/

section Destinations

variable [Native]

/-- The request of `push_statx`. The destination is in `off`. -/
def PreparedStatx.requestKind (w : Width) : RequestKind where
  Prepared := PreparedStatx w
  Pending := PendingStatx w
  Done := StatxCompleted w
  intoPending := PreparedStatx.intoPending
  reclaim := fun _ t => t.kept
  redeem := PendingStatx.redeem
  holds := fun q => [q.path.storage.memory, q.dest.store.memory]
  keeps := fun t => [t.kept.path.storage.memory, t.kept.dest.store.memory]
  returns := fun d => [d.path.storage.memory, d.dest.memory]
  named := fun t sqe => [t.kept.path.readAt sqe.addr, ⟨sqe.off.toNat, Statx.layout.size⟩]
  Sound := fun q => q.path.Terminated
  named_inside := fun q _ _ h => Range.allInside_of_forall₂
    (.cons (OwnedPath.readAt_inside h (BitVec.eq_of_toNat_eq q.pathAddr_eq))
      (.cons q.dest.written_inside .nil))

/-- The request of `push_waitid`. The kernel writes nothing to a null address. -/
def PreparedWaitId.requestKind (w : Width) : RequestKind where
  Prepared := PreparedWaitId w
  Pending := PendingWaitId w
  Done := WaitIdCompleted w
  intoPending := PreparedWaitId.intoPending
  reclaim := fun _ t => t.kept
  redeem := PendingWaitId.redeem
  holds := fun q => ((q.dest.map Destination.store).map Storage.memory).toList
  keeps := fun t => ((t.kept.dest.map Destination.store).map Storage.memory).toList
  returns := fun d => (d.dest.map Storage.memory).toList
  named := fun _ sqe => if sqe.off = 0 then [] else [⟨sqe.off.toNat, WaitidSiginfo.layout.size⟩]
  named_inside := fun q _ _ _ => by
    obtain ⟨dest, idType, waitee, options⟩ := q
    cases dest with
    | none => exact fun r hr => by cases hr
    | some dest =>
        intro r hr
        have hoff : (if (asField dest.addr) = 0 then []
          else [(⟨(asField dest.addr).toNat, WaitidSiginfo.layout.size⟩ : Range)]) ⊆
            [⟨(asField dest.addr).toNat, WaitidSiginfo.layout.size⟩] := by
          split
          · exact List.nil_subset _
          · exact List.Subset.refl _
        exact Range.allInside_of_forall₂ (.cons dest.written_inside .nil) r (hoff hr)

/-- The request of `push_epoll_wait`. The kernel writes at most `len` events. -/
def PreparedEpollWait.requestKind (w : Width) (packed : Bool) : RequestKind where
  Prepared := PreparedEpollWait w packed
  Pending := PendingEpollWait w packed
  Done := EpollWaitCompleted w
  intoPending := PreparedEpollWait.intoPending
  reclaim := fun _ t => t.kept
  redeem := PendingEpollWait.redeem
  holds := fun q => [q.store.store.memory]
  keeps := fun t => [t.kept.store.store.memory]
  returns := fun d => [d.store.memory]
  named := fun _ sqe => [⟨sqe.addr.toNat, (EpollEvent.layout packed).size * sqe.len.toNat⟩]
  named_inside := fun q _ _ _ => Range.allInside_of_forall₂
    (.cons (Storage.start_inside q.store.addr_eq q.events_fit) .nil)

end Destinations

/-- The request of `push_pipe`. -/
def PreparedPipe.requestKind (w : Width) : RequestKind where
  Prepared := PreparedPipe w
  Pending := PendingPipe w
  Done := PipeCreated w
  intoPending := PreparedPipe.intoPending
  reclaim := fun _ t => t.kept
  redeem := PendingPipe.redeem
  holds := fun q => [q.dest.store.memory]
  keeps := fun t => [t.kept.dest.store.memory]
  returns := fun d => [d.dest.memory]
  named := fun _ sqe => [⟨sqe.addr.toNat, DEST_LEN⟩]
  named_inside := fun q _ _ _ => Range.allInside_of_forall₂ (.cons q.dest.written_inside .nil)

/-! ### Staged requests -/

/-- What `ValuePrepared::new` leaves behind. -/
structure ValuePrepared.Sound {Op : ValueOp} (q : ValuePrepared w Op) : Prop where
  addr : q.addr = q.store.addr
  room : Op.layout.size ≤ q.store.len

instance ValuePrepared.decSound {Op : ValueOp} : DecidablePred (@ValuePrepared.Sound w Op) :=
  fun q => decidable_of_iff (q.addr = q.store.addr ∧ Op.layout.size ≤ q.store.len)
    ⟨fun h => ⟨h.1, h.2⟩, fun h => ⟨h.addr, h.room⟩⟩

/-- What `StagedPrepared::new` leaves behind. -/
structure StagedPrepared.Sound {Op : AddrOp} (q : StagedPrepared w Op) : Prop where
  addr : q.staged = q.store.addr
  room : ADDR_LEN ≤ q.store.len

instance StagedPrepared.decSound {Op : AddrOp} : DecidablePred (@StagedPrepared.Sound w Op) :=
  fun q => decidable_of_iff (q.staged = q.store.addr ∧ ADDR_LEN ≤ q.store.len)
    ⟨fun h => ⟨h.1, h.2⟩, fun h => ⟨h.addr, h.room⟩⟩

section Staged

variable [Native]

/-- What `PreparedFutexWaitv::new` leaves behind. -/
structure PreparedFutexWaitv.Sound (q : PreparedFutexWaitv w) : Prop where
  addr : q.addr = q.array.addr
  room : FutexWaitv.layout.size * q.count ≤ q.array.len

instance PreparedFutexWaitv.decSound : DecidablePred (@PreparedFutexWaitv.Sound w _) :=
  fun q => decidable_of_iff (q.addr = q.array.addr ∧ FutexWaitv.layout.size * q.count ≤ q.array.len)
    ⟨fun h => ⟨h.1, h.2⟩, fun h => ⟨h.addr, h.room⟩⟩

/-- What `PreparedOpenat2::at` leaves behind. -/
structure PreparedOpenat2.Sound (q : PreparedOpenat2 w) : Prop where
  path : q.path.Terminated
  pathAddr : q.pathAddr = q.path.stablePtr
  howAddr : q.howAddr = q.howStore.addr
  room : OpenHow.layout.size ≤ q.howStore.len

instance (q : PreparedOpenat2 w) : Decidable q.Sound :=
  decidable_of_iff (q.path.Terminated ∧ q.pathAddr = q.path.stablePtr ∧
      q.howAddr = q.howStore.addr ∧ OpenHow.layout.size ≤ q.howStore.len)
    ⟨fun h => ⟨h.1, h.2.1, h.2.2.1, h.2.2.2⟩, fun h => ⟨h.path, h.pathAddr, h.howAddr, h.room⟩⟩

/-- The request of `push_timeout`. -/
def TimeoutOp.requestKind (w : Width) (packed : Bool) : RequestKind :=
  RequestKind.ofStaged packed (ValuePrepared.kind w TimeoutOp) (fun t => t.store.memory)
    ValuePrepared.Sound ValuePrepared.decSound (fun _ _ _ => rfl)
    (fun _ _ _ h r hr => by
      cases hr
      exact Storage.start_inside h.addr h.room)

/-- The request of `push_epoll_ctl`. -/
def EpollCtlOp.requestKind (w : Width) (packed : Bool) : RequestKind :=
  RequestKind.ofStaged packed (ValuePrepared.kind w (EpollCtlOp packed)) (fun t => t.store.memory)
    ValuePrepared.Sound ValuePrepared.decSound (fun _ _ _ => rfl)
    (fun _ _ _ h r hr => by
      cases hr
      exact Storage.start_inside h.addr h.room)

/-- The request of `push_bind`. -/
def BindOp.requestKind (w : Width) (packed : Bool) : RequestKind :=
  RequestKind.ofStaged packed (StagedPrepared.kind w BindOp) (fun t => t.store.memory)
    StagedPrepared.Sound StagedPrepared.decSound (fun _ _ _ => rfl)
    (fun _ _ _ h r hr => by
      cases hr
      exact Storage.start_inside h.addr h.room)

/-- The request of `push_connect`. -/
def ConnectOp.requestKind (w : Width) (packed : Bool) : RequestKind :=
  RequestKind.ofStaged packed (StagedPrepared.kind w ConnectOp) (fun t => t.store.memory)
    StagedPrepared.Sound StagedPrepared.decSound (fun _ _ _ => rfl)
    (fun _ _ _ h r hr => by
      cases hr
      exact Storage.start_inside h.addr h.room)

/-- The request of `push_futex_waitv`. -/
def PreparedFutexWaitv.requestKind (w : Width) (packed : Bool) : RequestKind :=
  RequestKind.ofStaged packed (PreparedFutexWaitv.kind w) (fun t => t.array.memory)
    PreparedFutexWaitv.Sound PreparedFutexWaitv.decSound (fun _ _ _ => rfl)
    (fun q _ _ h r hr => by
      cases hr
      refine Storage.start_inside h.addr (Nat.le_trans (Nat.mul_le_mul_left _ ?_) h.room)
      show (UInt32.ofNat q.count).toNat ≤ q.count
      rw [UInt32.toNat_ofNat']
      exact Nat.mod_le _ _)

namespace PreparedOpenat2

variable (q : PreparedOpenat2 w) (ring : RingId) (id : RequestId)

theorem userData_intoPending : (q.intoPending ring id).1.userData = id.raw := rfl

theorem reclaim_intoPending : (q.intoPending ring id).2.reclaimUnsubmitted = q := rfl

theorem redeem_other (receipt : Receipt) (h : receipt.belongsTo ring id = false) :
    (q.intoPending ring id).2.redeem receipt = .error ((q.intoPending ring id).2, receipt) :=
  if_pos ((Bool.not_eq_true' _).mpr h)

end PreparedOpenat2

/-- The request of `push_openat2`. The `open_how` is in `off`. -/
def PreparedOpenat2.requestKind (w : Width) : RequestKind where
  Prepared := PreparedOpenat2 w
  Pending := PendingOpenat2 w
  Done := Opened2 w
  intoPending := PreparedOpenat2.intoPending
  reclaim := fun _ => PendingOpenat2.reclaimUnsubmitted
  redeem := PendingOpenat2.redeem
  holds := fun q => [q.path.storage.memory, q.howStore.memory]
  keeps := fun t => [t.path.storage.memory, t.howStore.memory]
  returns := fun d => [d.path.storage.memory, d.howStore.memory]
  named := fun t sqe => [t.path.readAt sqe.addr, ⟨sqe.off.toNat, sqe.len.toNat⟩]
  Sound := PreparedOpenat2.Sound
  userData_intoPending := PreparedOpenat2.userData_intoPending
  reclaim_intoPending := PreparedOpenat2.reclaim_intoPending
  redeem_other := PreparedOpenat2.redeem_other
  named_inside := fun _ _ _ h => Range.allInside_of_forall₂
    (.cons (OwnedPath.readAt_inside h.path h.pathAddr)
      (.cons (Storage.start_inside h.howAddr h.room) .nil))

end Staged

/-! ### File tables and messages -/

section Arrays

variable {N : Nat}

/-- What `PreparedFilesUpdate::at` leaves behind. -/
structure PreparedFilesUpdate.Sound (q : PreparedFilesUpdate w N) : Prop where
  addr : q.addr = q.store.addr
  room : sizeofI32 * N ≤ q.store.len

instance (q : PreparedFilesUpdate w N) : Decidable q.Sound :=
  decidable_of_iff (q.addr = q.store.addr ∧ sizeofI32 * N ≤ q.store.len)
    ⟨fun h => ⟨h.1, h.2⟩, fun h => ⟨h.addr, h.room⟩⟩

/-- The request of `push_files_update`. -/
def PreparedFilesUpdate.requestKind (w : Width) (N : Nat) : RequestKind where
  Prepared := PreparedFilesUpdate w N
  Pending := PendingFilesUpdate w N
  Done := FilesUpdated w N
  intoPending := PreparedFilesUpdate.intoPending
  reclaim := fun _ => PendingFilesUpdate.reclaimUnsubmitted
  redeem := PendingFilesUpdate.redeem
  holds := fun q => [q.store.memory]
  keeps := fun t => [t.store.memory]
  returns := fun d => [d.store.memory]
  named := fun _ sqe => [⟨sqe.addr.toNat, sizeofI32 * sqe.len.toNat⟩]
  Sound := PreparedFilesUpdate.Sound
  named_inside := fun q _ _ h => by
    refine Range.allInside_of_forall₂ (.cons ?_ .nil)
    refine Storage.start_inside h.addr (Nat.le_trans (Nat.mul_le_mul_left _ ?_) h.room)
    show (UInt32.ofNat N).toNat ≤ N
    rw [UInt32.toNat_ofNat']
    exact Nat.mod_le _ _

/-- What `PreparedRecvmsg::new` leaves behind: the parts of the region are in its storage. -/
def PreparedRecvmsg.Sound (q : PreparedRecvmsg w N) : Prop :=
  Range.AllInside [q.region.hdrRange, q.region.vecsRange, q.region.nameRange]
    [q.region.store.memory]

instance (q : PreparedRecvmsg w N) : Decidable q.Sound :=
  inferInstanceAs (Decidable (Range.AllInside _ _))

/-- The request of `push_recvmsg`. The header leads to the descriptors, to the address slot and,
by the descriptors, to the buffers, as far as their lengths go. -/
def PreparedRecvmsg.requestKind (w : Width) (N : Nat) : RequestKind where
  Prepared := PreparedRecvmsg w N
  Pending := PendingRecvmsg w N
  Done := RecvmsgCompleted w N
  intoPending := PreparedRecvmsg.intoPending
  reclaim := fun _ => PendingRecvmsg.reclaimUnsubmitted
  redeem := PendingRecvmsg.redeem
  holds := fun q => q.region.store.memory :: List.ofFn fun i => (q.bufs i).memory
  keeps := fun t => t.region.store.memory :: List.ofFn fun i => (t.bufs i).memory
  returns := fun d => d.region.store.memory :: List.ofFn fun i => (d.bufs i).memory
  named := fun t sqe =>
    [⟨sqe.addr.toNat, w.sizeofMsgHdr * sqe.len.toNat⟩, t.region.vecsRange, t.region.nameRange] ++
      List.ofFn fun i => (t.bufs i).memory
  Sound := PreparedRecvmsg.Sound
  named_inside := fun q _ _ h => by
    rw [Range.allInside_append]
    constructor
    · intro r hr
      -- the SQE is for one header
      have hone : w.sizeofMsgHdr * (1 : UInt32).toNat = w.sizeofMsgHdr := Nat.mul_one _
      have haddr : (UInt64.ofNat q.region.hdr.toNat).toNat = q.region.hdr.toNat :=
        toNat_ptr_asU64 _
      have hparts : r ∈ [q.region.hdrRange, q.region.vecsRange, q.region.nameRange] := by
        have hhdr : (⟨(UInt64.ofNat q.region.hdr.toNat).toNat,
            w.sizeofMsgHdr * (1 : UInt32).toNat⟩ : Range) = q.region.hdrRange := by
          rw [hone, haddr]
          rfl
        rw [← hhdr]
        exact hr
      obtain ⟨s, hs, hinside⟩ := h r hparts
      rw [List.mem_singleton.mp hs] at hinside
      exact ⟨_, List.mem_cons_self, hinside⟩
    · exact fun r hr => ⟨r, List.mem_cons_of_mem _ hr, Or.inr ⟨Nat.le_refl _, Nat.le_refl _⟩⟩

end Arrays

/-! ### All of them -/

/-- The push methods of `OwnedSubmitter`. Those of requests with an array of `n` are counted for
each `n`. -/
inductive PushMethod
  /-- `push`, `push_zc`, `push_vectored`, `push_sendmsg` and `push_sendmsg_zc`. -/
  | buffers (n : Nat)
  | multishot
  | readMultishot
  | accept
  | directAccept
  | directSocket
  | cancel
  | msgRing
  | fixedFdInstall
  | futexWait
  | futexWake
  | futexWaitv
  /-- `push_open`. -/
  | openat
  | directOpen
  | openat2
  | recvmsg (n : Nat)
  | pathOp
  | rename
  | link
  | statx
  | waitid
  | epollCtl
  | epollWait
  | pipe
  | bind
  | connect
  | filesUpdate (n : Nat)
  | timeout
deriving DecidableEq, Repr

/-- The request of a push method, over buffers `B` and stores `R`. -/
def PushMethod.kind [Native] (B R : Type) [StableBuffer B] [StableBuffer R] (w : Width)
    (packed : Bool) : PushMethod → RequestKind
  | .buffers n => Request.requestKind B R n
  | .multishot => PreparedMultishot.requestKind
  | .readMultishot => PreparedReadMultishot.requestKind
  | .accept => PreparedAccept.requestKind
  | .directAccept => PreparedDirectAccept.requestKind
  | .directSocket => PreparedDirectSocket.requestKind
  | .cancel => PreparedCancel.requestKind
  | .msgRing => PreparedMsgRing.requestKind
  | .fixedFdInstall => PreparedFixedFdInstall.requestKind
  | .futexWait => PreparedFutexWait.requestKind
  | .futexWake => PreparedFutexWake.requestKind
  | .futexWaitv => PreparedFutexWaitv.requestKind w packed
  | .openat => PreparedOpen.requestKind w
  | .directOpen => PreparedDirectOpen.requestKind w
  | .openat2 => PreparedOpenat2.requestKind w
  | .recvmsg n => PreparedRecvmsg.requestKind w n
  | .pathOp => PreparedPathOp.requestKind w
  | .rename => PreparedRename.requestKind w
  | .link => PreparedLink.requestKind w
  | .statx => PreparedStatx.requestKind w
  | .waitid => PreparedWaitId.requestKind w
  | .epollCtl => EpollCtlOp.requestKind w packed
  | .epollWait => PreparedEpollWait.requestKind w packed
  | .pipe => PreparedPipe.requestKind w
  | .bind => BindOp.requestKind w packed
  | .connect => ConnectOp.requestKind w packed
  | .filesUpdate n => PreparedFilesUpdate.requestKind w n
  | .timeout => TimeoutOp.requestKind w packed

end Ququmatz
