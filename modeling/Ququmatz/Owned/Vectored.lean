import Ququmatz.Owned.Request

/-!
# `Ququmatz.Owned.Vectored`: requests over several owned buffers

`PreparedVectored` of `src/owned/vectored.rs`, and the two message requests of
`src/owned/sendmsg.rs` and `src/owned/sendmsg_zc.rs` over the staging region of
`src/owned/msgregion.rs`. The descriptors a request stamps into its store are kept beside
the store, under the indices of the array; the header and the address of a message
likewise. `[B; N]` is `Fin N → B`. Sizes and alignments are those of a 64-bit target.
-/

set_option autoImplicit false

namespace Ququmatz

/-- `IoVec`. -/
structure IoVec where
  base : UInt64
  len : Nat
deriving DecidableEq, Repr

/-- `size_of::<IoVec>()`. -/
def sizeofIoVec : Nat := 16

/-- `align_of::<IoVec>()`. -/
def alignofIoVec : Nat := 8

/-- The loop of `write_array` and of `write_descriptors`: each buffer's address with the
length given for it. -/
def stamp {B : Type} [StableBuffer B] {N : Nat} (bufs : Fin N → B) (lens : Fin N → Nat) :
    Fin N → IoVec :=
  fun i => ⟨StableBuffer.stablePtr (bufs i), lens i⟩

/-- The loop of both `with_lens`: each length clamped to its buffer. -/
def clampLens {B : Type} [StableBuffer B] {N : Nat} (bufs : Fin N → B) (lens : Fin N → Nat) :
    Fin N → Nat :=
  fun i => min (lens i) (StableBuffer.stableLen (bufs i))

/-- The loop of the constructors: each buffer's whole length. -/
def fullLens {B : Type} [StableBuffer B] {N : Nat} (bufs : Fin N → B) : Fin N → Nat :=
  fun i => StableBuffer.stableLen (bufs i)

/-! ### Vectored reads and writes -/

/-- `VectoredError`. -/
inductive VectoredError
  | arrayTooSmall (needed got : Nat)
  | arrayMisaligned (needed : Nat)
deriving DecidableEq, Repr

/-- `PreparedVectored`. -/
structure PreparedVectored (B V : Type) (N : Nat) where
  bufs : Fin N → B
  vecs : V
  fd : RawFd
  offset : UInt64
  direction : Direction
  array : UInt64
  /-- The descriptors in the store, from `array` on. -/
  descriptors : Fin N → IoVec

/-- `PendingVectored`. -/
structure PendingVectored (B V : Type) (N : Nat) where
  bufs : Fin N → B
  vecs : V
  ring : RingId
  id : RequestId
  fd : RawFd
  offset : UInt64
  direction : Direction
  array : UInt64
  descriptors : Fin N → IoVec

/-- `VectoredCompleted`. -/
structure VectoredCompleted (B V : Type) (N : Nat) where
  bufs : Fin N → B
  vecs : V
  result : Int32
  direction : Direction

namespace PreparedVectored

variable {B V : Type} {N : Nat}

/-- `PreparedVectored::write_array`. -/
def writeArray [StableBuffer B] (self : PreparedVectored B V N) (lens : Fin N → Nat) :
    PreparedVectored B V N :=
  { self with descriptors := stamp self.bufs lens }

/-- `PreparedVectored::build`. -/
def build [StableBuffer B] [StableBufferMut V] (fd : RawFd) (bufs : Fin N → B) (vecs : V)
    (offset : UInt64) (direction : Direction) (lens : Fin N → Nat) :
    Except ((Fin N → B) × V × VectoredError) (PreparedVectored B V N) :=
  let needed := sizeofIoVec * N
  let got := StableBuffer.stableLen vecs
  if got < needed then .error (bufs, vecs, .arrayTooSmall needed got)
  else
    let base := StableBufferMut.stableMutPtr vecs
    if base.toNat % alignofIoVec ≠ 0 then .error (bufs, vecs, .arrayMisaligned alignofIoVec)
    else
      let prepared : PreparedVectored B V N :=
        { bufs := bufs, vecs := vecs, fd := fd, offset := offset, direction := direction,
          array := base, descriptors := fun _ => ⟨0, 0⟩ }
      .ok (prepared.writeArray lens)

/-- `PreparedVectored::readv`. -/
def readv [StableBufferMut B] [StableBufferMut V] (fd : RawFd) (bufs : Fin N → B) (vecs : V)
    (offset : UInt64) : Except ((Fin N → B) × V × VectoredError) (PreparedVectored B V N) :=
  build fd bufs vecs offset .read (fullLens bufs)

/-- `PreparedVectored::writev`. -/
def writev [StableBuffer B] [StableBufferMut V] (fd : RawFd) (bufs : Fin N → B) (vecs : V)
    (offset : UInt64) : Except ((Fin N → B) × V × VectoredError) (PreparedVectored B V N) :=
  build fd bufs vecs offset .write (fullLens bufs)

/-- `PreparedVectored::with_lens`. -/
def withLens [StableBuffer B] (self : PreparedVectored B V N) (lens : Fin N → Nat) :
    PreparedVectored B V N :=
  self.writeArray (clampLens self.bufs lens)

/-- A use of `PreparedVectored::buffers_mut`. -/
def buffersMut (self : PreparedVectored B V N) (use : (Fin N → B) → (Fin N → B)) :
    PreparedVectored B V N :=
  { self with bufs := use self.bufs }

/-- `PreparedVectored::into_pending`. -/
def intoPending (self : PreparedVectored B V N) (ring : RingId) (id : RequestId) :
    Sqe × PendingVectored B V N :=
  let nr := UInt32.ofNat N
  let sqe :=
    match self.direction with
    | .read => Sqe.readvPtr self.fd self.array nr self.offset
    | .write => Sqe.writevPtr self.fd self.array nr self.offset
  (sqe.withUserData id.raw,
    { bufs := self.bufs, vecs := self.vecs, ring := ring, id := id, fd := self.fd,
      offset := self.offset, direction := self.direction, array := self.array,
      descriptors := self.descriptors })

end PreparedVectored

namespace PendingVectored

variable {B V : Type} {N : Nat}

/-- `PendingVectored::reclaim_unsubmitted`. -/
def reclaimUnsubmitted (self : PendingVectored B V N) : PreparedVectored B V N where
  bufs := self.bufs
  vecs := self.vecs
  fd := self.fd
  offset := self.offset
  direction := self.direction
  array := self.array
  descriptors := self.descriptors

/-- `PendingVectored::redeem`. -/
def redeem (self : PendingVectored B V N) (receipt : Receipt) :
    Except (PendingVectored B V N × Receipt) (VectoredCompleted B V N) :=
  if !receipt.belongsTo self.ring self.id then .error (self, receipt)
  else
    .ok
      { bufs := self.bufs, vecs := self.vecs, result := receipt.result,
        direction := self.direction }

end PendingVectored

/-! ### The staging region of a message -/

/-- `SockAddrIn`. -/
structure SockAddrIn where
  sinFamily : UInt16
  sinPort : UInt16
  sinAddr : UInt32
  sinZero : UInt64
deriving DecidableEq, Repr

/-- `MsgHdr`. -/
structure MsgHdr where
  msgName : UInt64
  msgNamelen : UInt32
  msgIov : UInt64
  msgIovlen : Nat
  msgControl : UInt64
  msgControllen : Nat
  msgFlags : Int32
deriving DecidableEq, Repr

/-- `MsgHdr::default`. -/
def MsgHdr.default : MsgHdr := ⟨0, 0, 0, 0, 0, 0, 0⟩

/-- `size_of::<MsgHdr>()`. -/
def sizeofMsgHdr : Nat := 56

/-- `align_of::<MsgHdr>()`. -/
def alignofMsgHdr : Nat := 8

/-- `size_of::<SockAddrIn>()`. -/
def sizeofSockAddrIn : Nat := 16

/-- `MAX_IOV`. -/
def MAX_IOV : Nat := 1024

/-- `MsgRegionError`. -/
inductive MsgRegionError
  | regionTooSmall (needed got : Nat)
  | regionMisaligned (needed : Nat)
  | tooManyDescriptors (got max : Nat)
deriving DecidableEq, Repr

/-- `MsgRegion`, with what is staged in its store. -/
structure MsgRegion (R : Type) where
  store : R
  hdr : UInt64
  vecs : UInt64
  name : UInt64
  count : Nat
  /-- The header in the store, at `hdr`. -/
  header : MsgHdr
  /-- The descriptors in the store, from `vecs` on. -/
  descriptors : Nat → IoVec
  /-- The address in the store, at `name`. -/
  stagedName : SockAddrIn

namespace MsgRegion

variable {R : Type}

/-- `MsgRegion::name_offset`. -/
def nameOffset (count : Nat) : Nat := sizeofMsgHdr + sizeofIoVec * count

/-- `MsgRegion::bytes_for`. -/
def bytesFor (count : Nat) : Nat := nameOffset count + sizeofSockAddrIn

/-- `MsgRegion::stage`. -/
def stage [StableBufferMut R] (store : R) (count : Nat) :
    Except (R × MsgRegionError) (MsgRegion R) :=
  if count > MAX_IOV then .error (store, .tooManyDescriptors count MAX_IOV)
  else
    let needed := bytesFor count
    let got := StableBuffer.stableLen store
    if got < needed then .error (store, .regionTooSmall needed got)
    else
      let base := StableBufferMut.stableMutPtr store
      if base.toNat % alignofMsgHdr ≠ 0 then .error (store, .regionMisaligned alignofMsgHdr)
      else
        .ok
          { store := store
            hdr := base
            vecs := base + UInt64.ofNat sizeofMsgHdr
            name := base + UInt64.ofNat (nameOffset count)
            count := count
            header := MsgHdr.default
            descriptors := fun _ => ⟨0, 0⟩
            stagedName := ⟨0, 0, 0, 0⟩ }

/-- `MsgRegion::write_descriptor`, for all of `N` descriptors. -/
def writeDescriptors {N : Nat} (self : MsgRegion R) (descs : Fin N → IoVec) : MsgRegion R :=
  { self with
    descriptors := fun i => if h : i < N then descs ⟨i, h⟩ else self.descriptors i }

/-- `MsgRegion::write_name`. -/
def writeName (self : MsgRegion R) (addr : SockAddrIn) : MsgRegion R :=
  { self with stagedName := addr }

/-- `MsgRegion::publish_header`. -/
def publishHeader (self : MsgRegion R) (named : Bool) : MsgRegion R :=
  let hdr :=
    if named then
      { MsgHdr.default with msgName := self.name, msgNamelen := UInt32.ofNat sizeofSockAddrIn }
    else MsgHdr.default
  { self with header := { hdr with msgIov := self.vecs, msgIovlen := self.count } }

end MsgRegion

/-! ### Messages -/

/-- `SendTarget`. -/
inductive SendTarget
  | connected
  /-- `SendTarget::To`. -/
  | toAddr (addr : SockAddrIn)
deriving DecidableEq, Repr

/-- The fields that `PreparedSendmsg` and `PreparedSendmsgZc` both have. -/
structure MsgRequest (B R : Type) (N : Nat) where
  bufs : Fin N → B
  region : MsgRegion R
  fd : RawFd
  flags : MsgFlags
  target : SendTarget

/-- `PreparedSendmsg`. -/
abbrev PreparedSendmsg := MsgRequest

/-- `PreparedSendmsgZc`. -/
abbrev PreparedSendmsgZc := MsgRequest

/-- `PendingSendmsg`. -/
structure PendingSendmsg (B R : Type) (N : Nat) where
  bufs : Fin N → B
  region : MsgRegion R
  ring : RingId
  id : RequestId
  fd : RawFd
  flags : MsgFlags
  target : SendTarget

/-- `PendingSendmsgZc`. -/
structure PendingSendmsgZc (B R : Type) (N : Nat) where
  bufs : Fin N → B
  region : MsgRegion R
  ring : RingId
  id : RequestId
  fd : RawFd
  flags : MsgFlags
  target : SendTarget
  sent : Option Int32

/-- `SendmsgCompleted`. -/
structure SendmsgCompleted (B R : Type) (N : Nat) where
  bufs : Fin N → B
  region : MsgRegion R
  result : Int32

/-- `SendmsgZcCompleted`. -/
structure SendmsgZcCompleted (B R : Type) (N : Nat) where
  bufs : Fin N → B
  region : MsgRegion R
  sent : Option Int32
  notified : Int32

namespace MsgRequest

variable {B R : Type} {N : Nat}

/-- `write_descriptors` of both requests. -/
def writeDescriptors [StableBuffer B] (self : MsgRequest B R N) (lens : Fin N → Nat) :
    MsgRequest B R N :=
  { self with region := self.region.writeDescriptors (stamp self.bufs lens) }

/-- `publish` of both requests. -/
def publish (self : MsgRequest B R N) : MsgRequest B R N :=
  match self.target with
  | .toAddr addr => { self with region := (self.region.writeName addr).publishHeader true }
  | .connected => { self with region := self.region.publishHeader false }

/-- `build` of both requests. -/
def build [StableBuffer B] [StableBufferMut R] (fd : RawFd) (bufs : Fin N → B) (region : R)
    (target : SendTarget) (flags : MsgFlags) (lens : Fin N → Nat) :
    Except ((Fin N → B) × R × MsgRegionError) (MsgRequest B R N) :=
  match MsgRegion.stage region N with
  | .error (store, e) => .error (bufs, store, e)
  | .ok region =>
      let prepared : MsgRequest B R N :=
        { bufs := bufs, region := region, fd := fd, flags := flags, target := target }
      .ok (prepared.writeDescriptors lens).publish

/-- `with_lens` of both requests. -/
def withLens [StableBuffer B] (self : MsgRequest B R N) (lens : Fin N → Nat) :
    MsgRequest B R N :=
  self.writeDescriptors (clampLens self.bufs lens)

/-- A use of `buffers_mut` of either request. -/
def buffersMut (self : MsgRequest B R N) (use : (Fin N → B) → (Fin N → B)) :
    MsgRequest B R N :=
  { self with bufs := use self.bufs }

end MsgRequest

/-- `PreparedSendmsg::new`. -/
def PreparedSendmsg.new {B R : Type} {N : Nat} [StableBuffer B] [StableBufferMut R] (fd : RawFd)
    (bufs : Fin N → B) (region : R) (target : SendTarget) (flags : MsgFlags) :
    Except ((Fin N → B) × R × MsgRegionError) (PreparedSendmsg B R N) :=
  MsgRequest.build fd bufs region target flags (fullLens bufs)

/-- `PreparedSendmsgZc::new`. -/
def PreparedSendmsgZc.new {B R : Type} {N : Nat} [StableBuffer B] [StableBufferMut R] (fd : RawFd)
    (bufs : Fin N → B) (region : R) (target : SendTarget) (flags : MsgFlags) :
    Except ((Fin N → B) × R × MsgRegionError) (PreparedSendmsgZc B R N) :=
  MsgRequest.build fd bufs region target flags (fullLens bufs)

/-- `PreparedSendmsg::into_pending`. -/
def PreparedSendmsg.intoPending {B R : Type} {N : Nat} (self : PreparedSendmsg B R N)
    (ring : RingId) (id : RequestId) : Sqe × PendingSendmsg B R N :=
  ((Sqe.sendmsgPtr self.fd self.region.hdr self.flags).withUserData id.raw,
    { bufs := self.bufs, region := self.region, ring := ring, id := id, fd := self.fd,
      flags := self.flags, target := self.target })

/-- `PreparedSendmsgZc::into_pending`. -/
def PreparedSendmsgZc.intoPending {B R : Type} {N : Nat} (self : PreparedSendmsgZc B R N)
    (ring : RingId) (id : RequestId) : Sqe × PendingSendmsgZc B R N :=
  ((Sqe.sendmsgZcPtr self.fd self.region.hdr self.flags).withUserData id.raw,
    { bufs := self.bufs, region := self.region, ring := ring, id := id, fd := self.fd,
      flags := self.flags, target := self.target, sent := none })

/-- `PendingSendmsg::reclaim_unsubmitted`. -/
def PendingSendmsg.reclaimUnsubmitted {B R : Type} {N : Nat} (self : PendingSendmsg B R N) :
    PreparedSendmsg B R N where
  bufs := self.bufs
  region := self.region
  fd := self.fd
  flags := self.flags
  target := self.target

/-- `PendingSendmsgZc::reclaim_unsubmitted`. -/
def PendingSendmsgZc.reclaimUnsubmitted {B R : Type} {N : Nat} (self : PendingSendmsgZc B R N) :
    PreparedSendmsgZc B R N where
  bufs := self.bufs
  region := self.region
  fd := self.fd
  flags := self.flags
  target := self.target

/-- `PendingSendmsg::redeem`. -/
def PendingSendmsg.redeem {B R : Type} {N : Nat} (self : PendingSendmsg B R N)
    (receipt : Receipt) : Except (PendingSendmsg B R N × Receipt) (SendmsgCompleted B R N) :=
  if !receipt.belongsTo self.ring self.id then .error (self, receipt)
  else .ok { bufs := self.bufs, region := self.region, result := receipt.result }

/-- `PendingSendmsgZc::redeem`. -/
def PendingSendmsgZc.redeem {B R : Type} {N : Nat} (self : PendingSendmsgZc B R N)
    (receipt : Receipt) : Except (PendingSendmsgZc B R N × Receipt) (SendmsgZcCompleted B R N) :=
  if !receipt.belongsTo self.ring self.id then .error (self, receipt)
  else
    .ok
      { bufs := self.bufs, region := self.region, sent := self.sent,
        notified := receipt.result }

end Ququmatz
