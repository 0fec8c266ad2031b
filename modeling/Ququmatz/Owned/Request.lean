import Ququmatz.Op
import Ququmatz.Owned.Buffer
import Ququmatz.Owned.Event

/-!
# `Ququmatz.Owned.Request`: requests over one owned buffer

`Prepared` and `Pending` of `src/owned/request.rs`, `PreparedZc` and `PendingZc` of
`src/owned/zerocopy.rs`. Address and length are taken from the buffer when the request is
made. `buffer_mut` hands out `&mut B`, through which safe code can put any other `B` in
the buffer's place; here it takes the function that the caller applies.
-/

set_option autoImplicit false

namespace Ququmatz

/-- `Direction`. -/
inductive Direction
  | read
  | write
deriving DecidableEq, Repr

/-- `clamp_len` of `Prepared` and of `PreparedZc`. -/
def clampLen (len : Nat) : UInt32 :=
  if len > 4294967295 then 4294967295 else UInt32.ofNat len

/-! ### Reads and writes -/

/-- `Prepared`. -/
structure Prepared (B : Type) where
  buf : B
  fd : RawFd
  offset : UInt64
  len : UInt32
  direction : Direction
  addr : UInt64

/-- `Pending`. -/
structure Pending (B : Type) where
  buf : B
  ring : RingId
  id : RequestId
  fd : RawFd
  offset : UInt64
  len : UInt32
  direction : Direction
  addr : UInt64

/-- `Completed`. -/
structure Completed (B : Type) where
  buf : B
  id : RequestId
  direction : Direction
  result : Int32

namespace Prepared

variable {B : Type}

/-- `Prepared::read`. -/
def read [StableBufferMut B] (fd : RawFd) (buf : B) (offset : UInt64) : Prepared B where
  buf := buf
  fd := fd
  offset := offset
  len := clampLen (StableBuffer.stableLen buf)
  direction := .read
  addr := StableBufferMut.stableMutPtr buf

/-- `Prepared::write`. -/
def write [StableBuffer B] (fd : RawFd) (buf : B) (offset : UInt64) : Prepared B where
  buf := buf
  fd := fd
  offset := offset
  len := clampLen (StableBuffer.stableLen buf)
  direction := .write
  addr := StableBuffer.stablePtr buf

/-- `Prepared::with_len`. -/
def withLen (self : Prepared B) (len : UInt32) : Prepared B :=
  if len < self.len then { self with len := len } else self

/-- A use of `Prepared::buffer_mut`. -/
def bufferMut (self : Prepared B) (use : B → B) : Prepared B := { self with buf := use self.buf }

/-- `Prepared::into_pending`. -/
def intoPending (self : Prepared B) (ring : RingId) (id : RequestId) : Sqe × Pending B :=
  let sqe :=
    match self.direction with
    | .read => Sqe.readPtr self.fd self.addr self.len self.offset
    | .write => Sqe.writePtr self.fd self.addr self.len self.offset
  (sqe.withUserData id.raw,
    { buf := self.buf, ring := ring, id := id, fd := self.fd, offset := self.offset,
      len := self.len, direction := self.direction, addr := self.addr })

end Prepared

namespace Pending

variable {B : Type}

/-- `Pending::reclaim_unsubmitted`. -/
def reclaimUnsubmitted (self : Pending B) : Prepared B where
  buf := self.buf
  fd := self.fd
  offset := self.offset
  len := self.len
  direction := self.direction
  addr := self.addr

/-- `Pending::redeem`. -/
def redeem (self : Pending B) (receipt : Receipt) :
    Except (Pending B × Receipt) (Completed B) :=
  if !receipt.belongsTo self.ring self.id then .error (self, receipt)
  else .ok { buf := self.buf, id := self.id, direction := self.direction, result := receipt.result }

end Pending

/-! ### Zero-copy sends -/

/-- `PreparedZc`. -/
structure PreparedZc (B : Type) where
  buf : B
  fd : RawFd
  len : UInt32
  flags : MsgFlags
  addr : UInt64

/-- `PendingZc`. -/
structure PendingZc (B : Type) where
  buf : B
  ring : RingId
  id : RequestId
  fd : RawFd
  len : UInt32
  flags : MsgFlags
  addr : UInt64
  sent : Option Int32

/-- `ZcCompleted`. -/
structure ZcCompleted (B : Type) where
  buf : B
  id : RequestId
  sent : Option Int32
  notified : Int32

namespace PreparedZc

variable {B : Type}

/-- `PreparedZc::send`. -/
def send [StableBuffer B] (fd : RawFd) (buf : B) (flags : MsgFlags) : PreparedZc B where
  buf := buf
  fd := fd
  len := clampLen (StableBuffer.stableLen buf)
  flags := flags
  addr := StableBuffer.stablePtr buf

/-- `PreparedZc::with_len`. -/
def withLen (self : PreparedZc B) (len : UInt32) : PreparedZc B :=
  if len < self.len then { self with len := len } else self

/-- A use of `PreparedZc::buffer_mut`. -/
def bufferMut (self : PreparedZc B) (use : B → B) : PreparedZc B :=
  { self with buf := use self.buf }

/-- `PreparedZc::into_pending`. -/
def intoPending (self : PreparedZc B) (ring : RingId) (id : RequestId) : Sqe × PendingZc B :=
  ((Sqe.sendZcPtr self.fd self.addr self.len self.flags).withUserData id.raw,
    { buf := self.buf, ring := ring, id := id, fd := self.fd, len := self.len,
      flags := self.flags, addr := self.addr, sent := none })

end PreparedZc

namespace PendingZc

variable {B : Type}

/-- `PendingZc::reclaim_unsubmitted`. -/
def reclaimUnsubmitted (self : PendingZc B) : PreparedZc B where
  buf := self.buf
  fd := self.fd
  len := self.len
  flags := self.flags
  addr := self.addr

/-- `PendingZc::redeem`. -/
def redeem (self : PendingZc B) (receipt : Receipt) :
    Except (PendingZc B × Receipt) (ZcCompleted B) :=
  if !receipt.belongsTo self.ring self.id then .error (self, receipt)
  else .ok { buf := self.buf, id := self.id, sent := self.sent, notified := receipt.result }

end PendingZc

end Ququmatz
