import Ququmatz.Ring.Basic

/-!
# `Ququmatz.Ring.Ops`: the blocking `do_*` helpers

`IoUring::run_one` of `src/ring/ops.rs` and the helpers over a borrowed slice. The loop of
`run_one` has no bound of its own: `runOneLoop` takes a bound on the number of completions
it drains, and returns `none` when it is used up, which stands for a call that has not
returned yet.
-/

set_option autoImplicit false

namespace Ququmatz

/-- A borrowed slice of bytes: its address and its length. -/
structure Slice where
  addr : UInt64
  len : Nat
deriving DecidableEq, Repr

namespace Sqe

/-- `Sqe::read`, through `read_ptr`. -/
def read (fd : RawFd) (buf : Slice) (offset : UInt64) : Sqe :=
  { ZEROED with
    opcode := Opcode.read.toU8
    fd := fd.asI32
    addr := buf.addr
    len := UInt32.ofNat buf.len
    off := offset }

/-- `Sqe::write`, through `write_ptr`. -/
def write (fd : RawFd) (buf : Slice) (offset : UInt64) : Sqe :=
  { ZEROED with
    opcode := Opcode.write.toU8
    fd := fd.asI32
    addr := buf.addr
    len := UInt32.ofNat buf.len
    off := offset }

/-- `Sqe::send`, through `send_ptr`. -/
def send (fd : RawFd) (buf : Slice) (flags : MsgFlags) : Sqe :=
  { ZEROED with
    opcode := Opcode.send.toU8
    fd := fd.asI32
    addr := buf.addr
    len := UInt32.ofNat buf.len
    opFlags := flags.bits }

/-- `Sqe::recv`, through `recv_ptr`. -/
def recv (fd : RawFd) (buf : Slice) (flags : MsgFlags) : Sqe :=
  { ZEROED with
    opcode := Opcode.recv.toU8
    fd := fd.asI32
    addr := buf.addr
    len := UInt32.ofNat buf.len
    opFlags := flags.bits }

end Sqe

namespace IoUring

/-- The loop of `run_one`: drain completions until the one with the tag. `stray` is the
first other `user_data` that was drained. -/
def runOneLoop (tag : UInt64) :
    Nat → IoUring → Option UInt64 → RingProg (Option (Except Error UInt32) × IoUring)
  | 0, self, _ => return (none, self)
  | fuel + 1, self, stray => do
      let (completion, self) ← self.complete
      match completion with
      | none => return (some (.error (.completion .noCompletion)), self)
      | some completion =>
          if completion.userData = tag then
            match stray with
            | none => return (some completion.intoResult, self)
            | some found =>
                return (some (.error (.completion (.unexpectedCompletion tag found))), self)
          else
            let stray := some (stray.getD completion.userData)
            let (waited, self) ← self.submitAndWait 1
            match waited with
            | .error e => return (some (.error e), self)
            | .ok _ => runOneLoop tag fuel self stray

/-- `IoUring::run_one`. -/
def runOne (fuel : Nat) (self : IoUring) (sqe : Sqe) :
    RingProg (Option (Except Error UInt32) × IoUring) := do
  let (tag, self) := self.nextDoTag
  let (pushed, self) ← self.push (sqe.withUserData tag)
  match pushed with
  | .error e => return (some (.error e), self)
  | .ok () =>
      let (waited, self) ← self.submitAndWait 1
      match waited with
      | .error e => return (some (.error e), self)
      | .ok _ => runOneLoop tag fuel self none

/-- `IoUring::do_read`. -/
def doRead (fuel : Nat) (self : IoUring) (fd : RawFd) (buf : Slice) (offset : UInt64) :
    RingProg (Option (Except Error UInt32) × IoUring) :=
  self.runOne fuel (Sqe.read fd buf offset)

/-- `IoUring::do_write`. -/
def doWrite (fuel : Nat) (self : IoUring) (fd : RawFd) (buf : Slice) (offset : UInt64) :
    RingProg (Option (Except Error UInt32) × IoUring) :=
  self.runOne fuel (Sqe.write fd buf offset)

/-- `IoUring::do_send`. -/
def doSend (fuel : Nat) (self : IoUring) (fd : RawFd) (buf : Slice) (flags : MsgFlags) :
    RingProg (Option (Except Error UInt32) × IoUring) :=
  self.runOne fuel (Sqe.send fd buf flags)

/-- `IoUring::do_recv`. -/
def doRecv (fuel : Nat) (self : IoUring) (fd : RawFd) (buf : Slice) (flags : MsgFlags) :
    RingProg (Option (Except Error UInt32) × IoUring) :=
  self.runOne fuel (Sqe.recv fd buf flags)

end IoUring

end Ququmatz
