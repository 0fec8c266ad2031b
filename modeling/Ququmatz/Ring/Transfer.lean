import Ququmatz.Op
import Ququmatz.Ring.Ops

/-!
# `Ququmatz.Ring.Transfer`: the length of a borrowed transfer

`Sqe::read`, `write`, `send` and `recv`, and the `do_*` helpers over them, with the assertion
that each makes about the length of its slice. `Ququmatz.Ring.Ops` has them as compiled without
debug assertions; here the profile is a parameter, and `none` is the panic of `debug_assert!`.
-/

set_option autoImplicit false

namespace Ququmatz

/-- How the crate is compiled. -/
structure Profile where
  debugAssertions : Bool
deriving DecidableEq, Repr

namespace Profile

variable (p : Profile)

/-- `debug_assert!(buf.len() <= u32::MAX as usize)`, then `buf.len() as u32`. -/
def lenOf (buf : Slice) : Option UInt32 :=
  if p.debugAssertions && buf.len > 4294967295 then none else some (UInt32.ofNat buf.len)

/-- `Sqe::read`. -/
def read (fd : RawFd) (buf : Slice) (offset : UInt64) : Option Sqe :=
  (p.lenOf buf).map fun len => Sqe.readPtr fd buf.addr len offset

/-- `Sqe::write`. -/
def write (fd : RawFd) (buf : Slice) (offset : UInt64) : Option Sqe :=
  (p.lenOf buf).map fun len => Sqe.writePtr fd buf.addr len offset

/-- `Sqe::send`. -/
def send (fd : RawFd) (buf : Slice) (flags : MsgFlags) : Option Sqe :=
  (p.lenOf buf).map fun len => Sqe.sendPtr fd buf.addr len flags

/-- `Sqe::recv`. -/
def recv (fd : RawFd) (buf : Slice) (flags : MsgFlags) : Option Sqe :=
  (p.lenOf buf).map fun len => Sqe.recvPtr fd buf.addr len flags

end Profile

/-- A call of one of the four helpers, less the slice. -/
inductive Transfer
  | doRead (fd : RawFd) (offset : UInt64)
  | doWrite (fd : RawFd) (offset : UInt64)
  | doSend (fd : RawFd) (flags : MsgFlags)
  | doRecv (fd : RawFd) (flags : MsgFlags)
deriving DecidableEq

namespace Transfer

/-- The SQE that the helper builds. -/
def sqe (p : Profile) (buf : Slice) : Transfer → Option Sqe
  | .doRead fd offset => p.read fd buf offset
  | .doWrite fd offset => p.write fd buf offset
  | .doSend fd flags => p.send fd buf flags
  | .doRecv fd flags => p.recv fd buf flags

/-- `IoUring::do_read`, `do_write`, `do_send` and `do_recv`: `run_one` on the SQE. -/
def run (p : Profile) (fuel : Nat) (ring : IoUring) (buf : Slice) (call : Transfer) :
    Option (RingProg (Option (Except Error UInt32) × IoUring)) :=
  (call.sqe p buf).map (ring.runOne fuel)

end Transfer

end Ququmatz
