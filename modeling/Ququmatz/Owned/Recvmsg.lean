import Ququmatz.Op
import Ququmatz.Owned.Event
import Ququmatz.Owned.MsgRegion
import Ququmatz.Owned.ZeroCopy

/-!
# `Ququmatz.Owned.Recvmsg`: receiving a message

`PreparedRecvmsg`, `PendingRecvmsg` and `RecvmsgCompleted` of `src/owned/recvmsg.rs`, over the
memory of the process. The kernel follows the header that the SQE names and writes into it and
into the address slot (`KernelOutcome`); the payload goes to the buffers, which are other
storage. `RecvmsgRun` is a whole request, with what its owner does before the push that is
accepted.
-/

set_option autoImplicit false

namespace Ququmatz

open Lib

/-- `MsgOutFlags`. -/
structure MsgOutFlags where
  bits : UInt32
deriving DecidableEq, Repr

/-- `AF_INET_FAMILY`. -/
def AF_INET_FAMILY : UInt16 := 2

/-- `RESERVED_NAME_LEN`. -/
def RESERVED_NAME_LEN : UInt32 := UInt32.ofNat sizeofSockAddrIn

/-- `SockAddrIn::default`. -/
def SockAddrIn.default : SockAddrIn := ⟨0, 0, 0, 0⟩

/-- `PeerWanted`. -/
inductive PeerWanted
  | no
  | yes
deriving DecidableEq, Repr

/-- `PeerAddress`. -/
inductive PeerAddress
  | none
  | v4 (addr : SockAddrIn)
  | truncated (reported reserved : UInt32)
  | other (family : UInt16) (reported : UInt32)
deriving DecidableEq, Repr

/-- `Received`. -/
structure Received where
  bytes : UInt32
  flags : MsgOutFlags
deriving DecidableEq, Repr

/-- `PreparedRecvmsg`. The region was staged for its `N` buffers. -/
structure PreparedRecvmsg (w : Width) (N : Nat) where
  bufs : Fin N → Storage w
  region : StagedRegion w
  fd : RawFd
  flags : MsgFlags
  peer : PeerWanted
  counted : region.count = N

/-- `PendingRecvmsg`. -/
structure PendingRecvmsg (w : Width) (N : Nat) where
  bufs : Fin N → Storage w
  region : StagedRegion w
  ring : RingId
  id : RequestId
  fd : RawFd
  flags : MsgFlags
  wanted : PeerWanted
  counted : region.count = N

/-- `RecvmsgCompleted`. -/
structure RecvmsgCompleted (w : Width) (N : Nat) where
  bufs : Fin N → Storage w
  region : StagedRegion w
  result : Int32
  wanted : PeerWanted

variable {w : Width} {N : Nat}

/-- `PendingRecvmsg::redeem`. -/
def PendingRecvmsg.redeem (self : PendingRecvmsg w N) (receipt : Receipt) :
    Except (PendingRecvmsg w N × Receipt) (RecvmsgCompleted w N) :=
  if !receipt.belongsTo self.ring self.id then .error (self, receipt)
  else
    .ok
      { bufs := self.bufs, region := self.region, result := receipt.result,
        wanted := self.wanted }

/-- `PendingRecvmsg::reclaim_unsubmitted`. -/
def PendingRecvmsg.reclaimUnsubmitted (self : PendingRecvmsg w N) : PreparedRecvmsg w N where
  bufs := self.bufs
  region := self.region
  fd := self.fd
  flags := self.flags
  peer := self.wanted
  counted := self.counted

namespace PreparedRecvmsg

/-- `PreparedRecvmsg::into_pending`. -/
def intoPending (self : PreparedRecvmsg w N) (ring : RingId) (id : RequestId) :
    Sqe × PendingRecvmsg w N :=
  ((Sqe.recvmsgPtr self.fd (UInt64.ofNat self.region.hdr.toNat) self.flags).withUserData id.raw,
    { bufs := self.bufs, region := self.region, ring := ring, id := id, fd := self.fd,
      flags := self.flags, wanted := self.peer, counted := self.counted })

/-- The calls of `PreparedRecvmsg::write_descriptors`. -/
def descriptorCalls (self : PreparedRecvmsg w N) (lens : Fin N → Nat) :
    List (RegionCall w self.region.count) :=
  (List.finRange N).map fun i =>
    .writeDescriptor (i.cast self.counted.symm) ⟨(self.bufs i).addr, BitVec.ofNat w.bits (lens i)⟩

variable [Native]

/-- `PreparedRecvmsg::write_descriptors`. -/
def writeDescriptors (self : PreparedRecvmsg w N) (lens : Fin N → Nat) (m : Memory) : Memory :=
  self.region.calls (self.descriptorCalls lens) m

/-- `PreparedRecvmsg::publish`. -/
def publish (self : PreparedRecvmsg w N) (m : Memory) : Memory :=
  match self.peer with
  | .yes => self.region.publishHeader true (self.region.writeName SockAddrIn.default m)
  | .no => self.region.publishHeader false m

/-- `PreparedRecvmsg::build`. -/
def build (fd : RawFd) (bufs : Fin N → Storage w) (region : Storage w) (peer : PeerWanted)
    (flags : MsgFlags) (lens : Fin N → Nat) (m : Memory) :
    Except ((Fin N → Storage w) × Storage w × MsgRegionError) (PreparedRecvmsg w N) × Memory :=
  match h : StagedRegion.stage region N m with
  | (.error (store, e), m) => (.error (bufs, store, e), m)
  | (.ok region, m) =>
      let prepared : PreparedRecvmsg w N :=
        { bufs := bufs, region := region, fd := fd, flags := flags, peer := peer,
          counted := StagedRegion.stage_count h }
      (.ok prepared, prepared.publish (prepared.writeDescriptors lens m))

/-- `PreparedRecvmsg::new`. -/
def new (fd : RawFd) (bufs : Fin N → Storage w) (region : Storage w) (peer : PeerWanted)
    (flags : MsgFlags) (m : Memory) :
    Except ((Fin N → Storage w) × Storage w × MsgRegionError) (PreparedRecvmsg w N) × Memory :=
  build fd bufs region peer flags (fun i => (bufs i).len) m

/-- `PreparedRecvmsg::with_lens`. -/
def withLens (self : PreparedRecvmsg w N) (lens : Fin N → Nat) (m : Memory) : Memory :=
  self.writeDescriptors (fun i => min (lens i) (self.bufs i).len) m

end PreparedRecvmsg

namespace RecvmsgCompleted

/-- `RecvmsgCompleted::failed`. -/
def failed (self : RecvmsgCompleted w N) : Bool := decide (self.result < 0)

variable [Native]

/-- `RecvmsgCompleted::header`. -/
def header (self : RecvmsgCompleted w N) (m : Memory) : w.MsgHdr := self.region.header m

/-- `RecvmsgCompleted::received`; `none` is the panic of a build with overflow checks. -/
def received (checked : Bool) (self : RecvmsgCompleted w N) (m : Memory) :
    Option (Except Error Received) :=
  (Error.fromFailedCqe checked self.result).map fun
    | some e => .error e
    | none =>
        let flags : MsgOutFlags := ⟨(self.header m).msgFlags.toUInt32⟩
        .ok ⟨self.result.toUInt32, flags⟩

/-- `RecvmsgCompleted::peer`. -/
def peer (self : RecvmsgCompleted w N) (m : Memory) : PeerAddress :=
  if self.failed || self.wanted == .no then .none
  else
    let reserved := RESERVED_NAME_LEN
    let reported := (self.header m).msgNamelen
    if reported = 0 then .none
    else if reported > reserved then .truncated reported reserved
    else
      let staged := self.region.stagedName m
      if decide (reported < reserved) || staged.sinFamily != AF_INET_FAMILY then
        .other staged.sinFamily reported
      else .v4 staged

end RecvmsgCompleted

/-! ### The kernel -/

/-- What the kernel makes of a `recvmsg`. -/
inductive KernelOutcome (w : Width)
  /-- A failure writes nothing back. -/
  | failed (result : Int32) (neg : result < 0)
  /-- The peer's address is `name`, whose length the kernel reports even where it is more than
  it writes. -/
  | done (result : Int32) (nonneg : 0 ≤ result) (reported : UInt32) (name : List UInt8)
      (whole : name.length = reported.toNat) (flags : Int32) (controllen : Usize w)

namespace KernelOutcome

/-- The result of the CQE. -/
def result : KernelOutcome w → Int32
  | .failed result _ => result
  | .done result _ _ _ _ _ _ => result

/-- What the kernel writes, following the header at `addr`. -/
def apply [Native] (self : KernelOutcome w) (addr : Nat) (m : Memory) : Memory :=
  match self with
  | .failed _ _ => m
  | .done _ _ reported name _ flags controllen =>
      let hdr := Width.MsgHdr.load w m.bytes addr
      let m :=
        if hdr.msgName = 0 then m
        else
          (m.write hdr.msgName.toNat (name.take hdr.msgNamelen.toNat)).write (addr + w.bytes)
            (u32Bytes reported)
      (m.write (addr + 5 * w.bytes) (usizeBytes controllen)).write (addr + 6 * w.bytes)
        (i32Bytes flags)

end KernelOutcome

/-! ### A whole request -/

/-- What an owner does with a prepared request. -/
inductive RecvmsgEdit (N : Nat)
  | withLens (lens : Fin N → Nat)
  /-- A push that a full queue refused: the ticket is made, and taken apart again. -/
  | refusedPush (ring : RingId) (id : RequestId)

/-- The effect of an edit. -/
def RecvmsgEdit.apply [Native] (self : RecvmsgEdit N) (x : PreparedRecvmsg w N × Memory) :
    PreparedRecvmsg w N × Memory :=
  match self with
  | .withLens lens => (x.1, x.1.withLens lens x.2)
  | .refusedPush ring id => ((x.1.intoPending ring id).2.reclaimUnsubmitted, x.2)

/-- A request, all but the memory that it finds. -/
structure RecvmsgRun (w : Width) (N : Nat) where
  fd : RawFd
  bufs : Fin N → Storage w
  store : Storage w
  peer : PeerWanted
  flags : MsgFlags
  edits : List (RecvmsgEdit N)
  ring : RingId
  id : RequestId
  outcome : KernelOutcome w
  cqeFlags : CqeFlags

namespace RecvmsgRun

/-- The request from `new` to `redeem`; `none` when the storage is refused. -/
def run [Native] (self : RecvmsgRun w N) (m : Memory) : Option (RecvmsgCompleted w N × Memory) :=
  match PreparedRecvmsg.new self.fd self.bufs self.store self.peer self.flags m with
  | (.error _, _) => none
  | (.ok prepared, m) =>
      let (prepared, m) := self.edits.foldl (fun x e => e.apply x) (prepared, m)
      let (sqe, pending) := prepared.intoPending self.ring self.id
      let m := self.outcome.apply sqe.addr.toNat m
      let receipt : Receipt := ⟨self.ring, self.id, self.outcome.result, self.cqeFlags⟩
      match pending.redeem receipt with
      | .ok completed => some (completed, m)
      | .error _ => none

end RecvmsgRun

end Ququmatz
