import Ququmatz.Lib.Prog
import Ququmatz.Types

/-!
# `Ququmatz.Ring.Basic`: the ring handles and their operations

`IoUring`, `Submitter` and `Completer` of `src/ring/mod.rs`, and every operation of theirs
that touches the queues. An operation is a program over `Access`, the atomic accesses of
the code to what it shares with the kernel: the loads and stores of the ring's atomics,
the SQE and CQE slots, the `io_uring_enter` system call, and the reference count of the
ring's resources. The accesses of a program stand in the order of the source, so a reader
can follow a definition against its Rust text.

`&mut self` is state passing: an operation takes the handle and returns it with its
result. The pointers of a handle into the mapped ring are not fields here; the accesses
stand for them, and the split halves go on naming the same ring.
-/

set_option autoImplicit false

namespace Ququmatz

open Lib

/-- The accesses of the crate to the state it shares with the kernel. -/
inductive Access
  /-- Acquire load of the SQ head. -/
  | loadSqHead
  /-- Release store of the SQ tail. -/
  | storeSqTail (v : UInt32)
  /-- Acquire load of the SQ flags. -/
  | loadSqFlags
  /-- Plain write of one slot of the SQE array. -/
  | writeSqe (idx : UInt32) (sqe : Sqe)
  /-- Acquire load of the CQ tail. -/
  | loadCqTail
  /-- Plain read of one slot of the CQE array. -/
  | readCqe (idx : UInt32)
  /-- Release store of the CQ head. -/
  | storeCqHead (v : UInt32)
  /-- The `io_uring_enter` system call. -/
  | enter (fd : RawFd) (toSubmit minComplete : UInt32) (flags : EnterFlags)
  /-- `RingResources::retain`. -/
  | retain
  /-- `RingResources::release`. -/
  | release

/-- The answer type of each access. -/
def Access.Ans : Access → Type
  | .loadSqHead => UInt32
  | .storeSqTail _ => Unit
  | .loadSqFlags => UInt32
  | .writeSqe _ _ => Unit
  | .loadCqTail => UInt32
  | .readCqe _ => Cqe
  | .storeCqHead _ => Unit
  | .enter _ _ _ _ => Except Errno Nat
  | .retain => Unit
  | .release => Unit

/-- The signature of the ring programs. -/
abbrev ringSig : Sig := ⟨Access, Access.Ans⟩

/-- A program of the crate. -/
abbrev RingProg := Prog ringSig

/-- The program that performs one access. -/
def perform (a : Access) : RingProg a.Ans := Prog.lift (S := ringSig) a

/-! ### Handles -/

/-- The whole ring: `IoUring`. -/
structure IoUring where
  fd : RawFd
  sqMask : UInt32
  sqTailLocal : UInt32
  /-- The last `sqTailLocal` that was submitted to the kernel. -/
  sqSubmitted : UInt32
  cqMask : UInt32
  cqHeadLocal : UInt32
  features : UInt32
  setupFlags : UInt32
  /-- The next tag of a synchronous `do_*` submission. -/
  doTagNext : UInt64
deriving DecidableEq, Repr

/-- The submission half of a split ring: `Submitter`. -/
structure Submitter where
  fd : RawFd
  sqMask : UInt32
  sqTailLocal : UInt32
  sqSubmitted : UInt32
  features : UInt32
deriving DecidableEq, Repr

/-- The completion half of a split ring: `Completer`. -/
structure Completer where
  fd : RawFd
  cqMask : UInt32
  cqHeadLocal : UInt32
deriving DecidableEq, Repr

/-- `IORING_SQ_NEED_WAKEUP`. -/
def IORING_SQ_NEED_WAKEUP : UInt32 := (1 : UInt32) <<< 0

/-! ### `Submitter` -/

namespace Submitter

/-- `Submitter::push`. -/
def push (self : Submitter) (sqe : Sqe) : RingProg (Except Error Unit × Submitter) := do
  let head : UInt32 ← perform .loadSqHead
  let nextTail := self.sqTailLocal + 1
  if nextTail - head > self.sqMask + 1 then
    return (.error (.submit .queueFull), self)
  let idx := self.sqTailLocal &&& self.sqMask
  perform (.writeSqe idx sqe)
  return (.ok (), { self with sqTailLocal := nextTail })

/-- `Submitter::flush_sq_tail`. -/
def flushSqTail (self : Submitter) : RingProg Unit :=
  perform (.storeSqTail self.sqTailLocal)

/-- `Submitter::sq_need_wakeup`. -/
def sqNeedWakeup (_self : Submitter) : RingProg Bool := do
  let flags : UInt32 ← perform .loadSqFlags
  return flags &&& IORING_SQ_NEED_WAKEUP != 0

/-- `Submitter::sq_capacity`. -/
def sqCapacity (self : Submitter) : UInt32 := self.sqMask + 1

/-- `Submitter::sq_space_left`. The subtraction is not a wrapping one: `none` is its
overflow. -/
def sqSpaceLeft (self : Submitter) : RingProg (Option UInt32) := do
  let head : UInt32 ← perform .loadSqHead
  let used := self.sqTailLocal - head
  return if used ≤ self.sqCapacity then some (self.sqCapacity - used) else none

/-- `Submitter::submit`. -/
def submit (self : Submitter) : RingProg (Except Error UInt32 × Submitter) := do
  let toSubmit := self.sqTailLocal - self.sqSubmitted
  self.flushSqTail
  if toSubmit = 0 then
    return (.ok 0, self)
  match (← perform (.enter self.fd toSubmit 0 .empty) : Except Errno Nat) with
  | .error e => return (.error (.syscall e), self)
  | .ok ret =>
      let consumed := UInt32.ofNat ret
      return (.ok consumed, { self with sqSubmitted := self.sqSubmitted + consumed })

/-- `Submitter::submit_and_wait`. -/
def submitAndWait (self : Submitter) (minComplete : UInt32) :
    RingProg (Except Error UInt32 × Submitter) := do
  let toSubmit := self.sqTailLocal - self.sqSubmitted
  self.flushSqTail
  match (← perform (.enter self.fd toSubmit minComplete EnterFlags.GETEVENTS) :
      Except Errno Nat) with
  | .error e => return (.error (.syscall e), self)
  | .ok ret =>
      let consumed := UInt32.ofNat ret
      return (.ok consumed, { self with sqSubmitted := self.sqSubmitted + consumed })

/-- `Submitter::submit_sqpoll`. -/
def submitSqpoll (self : Submitter) : RingProg (Except Error Unit × Submitter) := do
  self.flushSqTail
  let self := { self with sqSubmitted := self.sqTailLocal }
  if ← self.sqNeedWakeup then
    match (← perform (.enter self.fd 0 0 EnterFlags.SQ_WAKEUP) : Except Errno Nat) with
    | .error e => return (.error (.syscall e), self)
    | .ok _ => return (.ok (), self)
  return (.ok (), self)

/-- The destructor of a `Submitter`. -/
def drop (_self : Submitter) : RingProg Unit := perform .release

end Submitter

/-! ### `Completer` -/

namespace Completer

/-- `Completer::complete`. -/
def complete (self : Completer) : RingProg (Option Completion × Completer) := do
  let tail : UInt32 ← perform .loadCqTail
  if self.cqHeadLocal = tail then
    return (none, self)
  let idx := self.cqHeadLocal &&& self.cqMask
  let cqe : Cqe ← perform (.readCqe idx)
  return (some (Completion.ofCqe cqe), { self with cqHeadLocal := self.cqHeadLocal + 1 })

/-- `Completer::sync_cq`. -/
def syncCq (self : Completer) : RingProg Unit := perform (.storeCqHead self.cqHeadLocal)

/-- `Completer::wait`. -/
def wait (self : Completer) (minComplete : UInt32) : RingProg (Except Error Unit) := do
  self.syncCq
  match (← perform (.enter self.fd 0 minComplete EnterFlags.GETEVENTS) :
      Except Errno Nat) with
  | .error e => return .error (.syscall e)
  | .ok _ => return .ok ()

/-- The destructor of a `Completer`. -/
def drop (self : Completer) : RingProg Unit := do
  self.syncCq
  perform .release

end Completer

/-! ### `IoUring` -/

namespace IoUring

/-- `DO_TAG_MARKER`, the high bit of every tag of a `do_*` submission. -/
def DO_TAG_MARKER : UInt64 := (1 : UInt64) <<< 63

/-- `IoUring::push`. -/
def push (self : IoUring) (sqe : Sqe) : RingProg (Except Error Unit × IoUring) := do
  let head : UInt32 ← perform .loadSqHead
  let nextTail := self.sqTailLocal + 1
  if nextTail - head > self.sqMask + 1 then
    return (.error (.submit .queueFull), self)
  let idx := self.sqTailLocal &&& self.sqMask
  perform (.writeSqe idx sqe)
  return (.ok (), { self with sqTailLocal := nextTail })

/-- `IoUring::flush_sq_tail`. -/
def flushSqTail (self : IoUring) : RingProg Unit :=
  perform (.storeSqTail self.sqTailLocal)

/-- `IoUring::flush_cq_head`. -/
def flushCqHead (self : IoUring) : RingProg Unit :=
  perform (.storeCqHead self.cqHeadLocal)

/-- `IoUring::sq_need_wakeup`. -/
def sqNeedWakeup (_self : IoUring) : RingProg Bool := do
  let flags : UInt32 ← perform .loadSqFlags
  return flags &&& IORING_SQ_NEED_WAKEUP != 0

/-- `IoUring::sq_capacity`. -/
def sqCapacity (self : IoUring) : UInt32 := self.sqMask + 1

/-- `IoUring::sq_space_left`, with `none` for an overflow of the subtraction. -/
def sqSpaceLeft (self : IoUring) : RingProg (Option UInt32) := do
  let head : UInt32 ← perform .loadSqHead
  let used := self.sqTailLocal - head
  return if used ≤ self.sqCapacity then some (self.sqCapacity - used) else none

/-- `IoUring::submit`. Unlike the half, it publishes the CQ head after an enter that
succeeded. -/
def submit (self : IoUring) : RingProg (Except Error UInt32 × IoUring) := do
  let toSubmit := self.sqTailLocal - self.sqSubmitted
  self.flushSqTail
  if toSubmit = 0 then
    return (.ok 0, self)
  match (← perform (.enter self.fd toSubmit 0 .empty) : Except Errno Nat) with
  | .error e => return (.error (.syscall e), self)
  | .ok ret =>
      let consumed := UInt32.ofNat ret
      let self := { self with sqSubmitted := self.sqSubmitted + consumed }
      self.flushCqHead
      return (.ok consumed, self)

/-- `IoUring::submit_and_wait`. When the completion queue is more than three quarters
full it enters the kernel twice. -/
def submitAndWait (self : IoUring) (minComplete : UInt32) :
    RingProg (Except Error UInt32 × IoUring) := do
  self.flushCqHead
  let toSubmit := self.sqTailLocal - self.sqSubmitted
  self.flushSqTail
  let cqTail : UInt32 ← perform .loadCqTail
  let cqUsed := cqTail - self.cqHeadLocal
  let cqCap := self.cqMask + 1
  if cqUsed > cqCap - cqCap / 4 then
    match (← perform (.enter self.fd toSubmit 0 .empty) : Except Errno Nat) with
    | .error e => return (.error (.syscall e), self)
    | .ok firstRet =>
        let firstConsumed := UInt32.ofNat firstRet
        let self := { self with sqSubmitted := self.sqSubmitted + firstConsumed }
        match (← perform (.enter self.fd 0 minComplete EnterFlags.GETEVENTS) :
            Except Errno Nat) with
        | .error e => return (.error (.syscall e), self)
        | .ok secondRet =>
            let secondConsumed := UInt32.ofNat secondRet
            let self := { self with sqSubmitted := self.sqSubmitted + secondConsumed }
            return (.ok (firstConsumed + secondConsumed), self)
  else
    match (← perform (.enter self.fd toSubmit minComplete EnterFlags.GETEVENTS) :
        Except Errno Nat) with
    | .error e => return (.error (.syscall e), self)
    | .ok ret =>
        let consumed := UInt32.ofNat ret
        return (.ok consumed, { self with sqSubmitted := self.sqSubmitted + consumed })

/-- `IoUring::submit_sqpoll`. -/
def submitSqpoll (self : IoUring) : RingProg (Except Error Unit × IoUring) := do
  self.flushSqTail
  let self := { self with sqSubmitted := self.sqTailLocal }
  if ← self.sqNeedWakeup then
    match (← perform (.enter self.fd 0 0 EnterFlags.SQ_WAKEUP) : Except Errno Nat) with
    | .error e => return (.error (.syscall e), self)
    | .ok _ => return (.ok (), self)
  return (.ok (), self)

/-- `IoUring::complete`. -/
def complete (self : IoUring) : RingProg (Option Completion × IoUring) := do
  let tail : UInt32 ← perform .loadCqTail
  if self.cqHeadLocal = tail then
    return (none, self)
  let idx := self.cqHeadLocal &&& self.cqMask
  let cqe : Cqe ← perform (.readCqe idx)
  return (some (Completion.ofCqe cqe), { self with cqHeadLocal := self.cqHeadLocal + 1 })

/-- `IoUring::sync_cq`. -/
def syncCq (self : IoUring) : RingProg Unit := self.flushCqHead

/-- `IoUring::setup_flags_forbid_split`. -/
def setupFlagsForbidSplit (setupFlags : UInt32) : Bool :=
  let sqpoll := setupFlags &&& SetupFlags.SQPOLL.bits != 0
  let singleIssuer := setupFlags &&& SetupFlags.SINGLE_ISSUER.bits != 0
  let deferTaskrun := setupFlags &&& SetupFlags.DEFER_TASKRUN.bits != 0
  deferTaskrun || (singleIssuer && !sqpoll)

/-- `IoUring::split`. -/
def split (self : IoUring) :
    RingProg (Except (IoUring × Error) (Submitter × Completer)) := do
  if setupFlagsForbidSplit self.setupFlags then
    return .error (self, .setup (.invalidArg (.incompatibleSplit self.setupFlags)))
  perform .retain
  let submitter : Submitter :=
    { fd := self.fd
      sqMask := self.sqMask
      sqTailLocal := self.sqTailLocal
      sqSubmitted := self.sqSubmitted
      features := self.features }
  let completer : Completer :=
    { fd := self.fd
      cqMask := self.cqMask
      cqHeadLocal := self.cqHeadLocal }
  return .ok (submitter, completer)

/-- `IoUring::next_do_tag`. -/
def nextDoTag (self : IoUring) : UInt64 × IoUring :=
  let tag := self.doTagNext
  (tag, { self with doTagNext := DO_TAG_MARKER ||| ((tag + 1) &&& ~~~DO_TAG_MARKER) })

/-- The destructor of an `IoUring`. -/
def drop (self : IoUring) : RingProg Unit := do
  self.flushCqHead
  perform .release

end IoUring

end Ququmatz
