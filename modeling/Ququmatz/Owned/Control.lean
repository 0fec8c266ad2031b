import Ququmatz.Owned.Direct
import Ququmatz.Owned.FutexWaitv
import Ququmatz.Owned.Openat2
import Ququmatz.Owned.Outcome
import Ququmatz.Owned.PendingOf

/-!
# `Ququmatz.Owned.Control`: requests without storage

`PreparedAccept` of `src/owned/accept.rs`, `PreparedCancel` of `src/owned/cancel.rs`,
`PreparedFixedFdInstall` of `src/owned/fixedfdinstall.rs`, and `PreparedFutexWait` and
`PreparedFutexWake` of `src/owned/futex.rs`, with their tickets and completions. Their tickets own
no memory. They are `Copy`, so a push that the queue refuses hands back a copy that was kept.
-/

set_option autoImplicit false

namespace Ququmatz

variable {w : Width}

/-! ### Accepts -/

/-- `PreparedAccept`. -/
structure PreparedAccept where
  fd : RawFd
  flags : AcceptFlags
deriving DecidableEq, Repr

/-- `PreparedAccept::into_pending`. -/
def PreparedAccept.intoPending (self : PreparedAccept) (ring : RingId) (id : RequestId) :
    Sqe × MultishotAccept :=
  ((Sqe.acceptMultishot self.fd self.flags).withUserData id.raw, ⟨ring, id, self.fd⟩)

/-! ### Cancellation -/

/-- `CancelFlags`, with the two that the constructors of an SQE set. -/
structure CancelFlags where
  bits : UInt32
deriving DecidableEq, Repr

namespace CancelFlags

instance : OrOp CancelFlags := ⟨fun a b => ⟨a.bits ||| b.bits⟩⟩

def FD : CancelFlags := ⟨(1 : UInt32) <<< 1⟩
def ANY : CancelFlags := ⟨(1 : UInt32) <<< 2⟩

end CancelFlags

namespace Sqe

/-- `Sqe::cancel_with_flags`. -/
def cancelWithFlags (targetUserData : UInt64) (flags : CancelFlags) : Sqe :=
  { ZEROED with opcode := Opcode.ASYNC_CANCEL, addr := targetUserData, opFlags := flags.bits }

/-- `Sqe::cancel_fd`. -/
def cancelFd (fd : RawFd) (extra : CancelFlags) : Sqe :=
  { ZEROED with
    opcode := Opcode.ASYNC_CANCEL, fd := fd.asI32, opFlags := (CancelFlags.FD ||| extra).bits }

/-- `Sqe::cancel_any`. -/
def cancelAny (extra : CancelFlags) : Sqe :=
  { ZEROED with opcode := Opcode.ASYNC_CANCEL, opFlags := (CancelFlags.ANY ||| extra).bits }

end Sqe

/-- `CancelTarget`. -/
inductive CancelTarget
  | userData (target : UInt64)
  | fd (target : RawFd)
  | any
deriving DecidableEq, Repr

/-- `PreparedCancel`. -/
structure PreparedCancel where
  target : CancelTarget
  flags : CancelFlags
deriving DecidableEq, Repr

/-- `PendingCancel`. -/
abbrev PendingCancel := PendingOf CancelTarget

/-- `CancelDone`. -/
structure CancelDone where
  target : CancelTarget
  id : RequestId
  result : Int32
deriving DecidableEq, Repr

/-- The SQE of a cancel request. -/
def PreparedCancel.sqe (self : PreparedCancel) : Sqe :=
  match self.target with
  | .userData target => Sqe.cancelWithFlags target self.flags
  | .fd fd => Sqe.cancelFd fd self.flags
  | .any => Sqe.cancelAny self.flags

/-- `PreparedCancel::into_pending`. -/
def PreparedCancel.intoPending (self : PreparedCancel) (ring : RingId) (id : RequestId) :
    Sqe × PendingCancel :=
  PendingOf.stamp self.sqe self.target ring id

/-- `PendingCancel::redeem`. -/
def PendingCancel.redeem (self : PendingCancel) (receipt : Receipt) :
    Except (PendingCancel × Receipt) CancelDone :=
  self.redeemAs (fun target id result => { target := target, id := id, result := result }) receipt

/-! ### Installation of a fixed file -/

/-- `InstallFdFlags`. -/
structure InstallFdFlags where
  bits : UInt32
deriving DecidableEq, Repr

/-- `Sqe::fixed_fd_install`, with `SqeFlags::FIXED_FILE`. -/
def Sqe.fixedFdInstall (slot : RawFd) (flags : InstallFdFlags) : Sqe :=
  { ZEROED with
    opcode := Opcode.FIXED_FD_INSTALL, fd := slot.asI32, flags := (1 : UInt8) <<< 0,
    opFlags := flags.bits }

/-- `PreparedFixedFdInstall`. -/
structure PreparedFixedFdInstall where
  slot : RawFd
  flags : InstallFdFlags
deriving DecidableEq, Repr

/-- `PendingFixedFdInstall`. -/
abbrev PendingFixedFdInstall := PendingOf RawFd

/-- `FixedFdInstalled`. -/
structure FixedFdInstalled where
  slot : RawFd
  file : Option File
  id : RequestId
  result : Int32
deriving DecidableEq, Repr

/-- `PreparedFixedFdInstall::into_pending`. -/
def PreparedFixedFdInstall.intoPending (self : PreparedFixedFdInstall) (ring : RingId)
    (id : RequestId) : Sqe × PendingFixedFdInstall :=
  PendingOf.stamp (Sqe.fixedFdInstall self.slot self.flags) self.slot ring id

/-- `PendingFixedFdInstall::redeem`. The claim of the descriptor is that of `openat2`. -/
def PendingFixedFdInstall.redeem (self : PendingFixedFdInstall) (receipt : Receipt) :
    Except (PendingFixedFdInstall × Receipt) FixedFdInstalled :=
  self.redeemAs (fun slot id result =>
    { slot := slot, file := PendingOpenat2.claim result, id := id, result := result }) receipt

/-! ### Futexes -/

namespace Sqe

/-- `Sqe::futex_wait`. -/
def futexWait (uaddr : UInt64) (val mask : UInt64) (flags : Futex2Flags) : Sqe :=
  { ZEROED with
    opcode := Opcode.FUTEX_WAIT, addr := uaddr, off := val, addr3 := mask,
    fd := flags.bits.toInt32 }

/-- `Sqe::futex_wake`. -/
def futexWake (uaddr : UInt64) (count mask : UInt64) (flags : Futex2Flags) : Sqe :=
  { ZEROED with
    opcode := Opcode.FUTEX_WAKE, addr := uaddr, off := count, addr3 := mask,
    fd := flags.bits.toInt32 }

end Sqe

/-- `PreparedFutexWait`. That the word stays mapped is what the `unsafe` constructor asks of its
caller. -/
structure PreparedFutexWait where
  uaddr : UInt64
  val : UInt64
  mask : UInt64
  flags : Futex2Flags
deriving DecidableEq, Repr

/-- `PendingFutexWait`. -/
abbrev PendingFutexWait := PendingOf UInt64

/-- `FutexWaitDone`. -/
structure FutexWaitDone where
  id : RequestId
  result : Int32
deriving DecidableEq, Repr

/-- `PreparedFutexWait::into_pending`. -/
def PreparedFutexWait.intoPending (self : PreparedFutexWait) (ring : RingId) (id : RequestId) :
    Sqe × PendingFutexWait :=
  PendingOf.stamp (Sqe.futexWait self.uaddr self.val self.mask self.flags) self.uaddr ring id

/-- `PendingFutexWait::redeem`. -/
def PendingFutexWait.redeem (self : PendingFutexWait) (receipt : Receipt) :
    Except (PendingFutexWait × Receipt) FutexWaitDone :=
  self.redeemAs (fun _ id result => { id := id, result := result }) receipt

/-- `PreparedFutexWake`. -/
structure PreparedFutexWake where
  uaddr : UInt64
  count : UInt64
  mask : UInt64
  flags : Futex2Flags
deriving DecidableEq, Repr

/-- `PendingFutexWake`. -/
abbrev PendingFutexWake := PendingOf UInt64

/-- `FutexWakeDone`. -/
structure FutexWakeDone where
  id : RequestId
  result : Int32
deriving DecidableEq, Repr

/-- `PreparedFutexWake::into_pending`. -/
def PreparedFutexWake.intoPending (self : PreparedFutexWake) (ring : RingId) (id : RequestId) :
    Sqe × PendingFutexWake :=
  PendingOf.stamp (Sqe.futexWake self.uaddr self.count self.mask self.flags) self.uaddr ring id

/-- `PendingFutexWake::redeem`. -/
def PendingFutexWake.redeem (self : PendingFutexWake) (receipt : Receipt) :
    Except (PendingFutexWake × Receipt) FutexWakeDone :=
  self.redeemAs (fun _ id result => { id := id, result := result }) receipt

end Ququmatz
