import Ququmatz.Ring.Kernel

/-!
# `Ququmatz.Ring.Sqpoll`: submission to a polling kernel thread, as a message protocol

The programs `push` and `submitSqpoll` of `Ring.Basic`, run one access at a time against a
memory in which a store travels. A Release store of the SQ tail is a message in the FIFO
store buffer of the submitting side, delivered to the kernel thread at any later step. The
load of the SQ flags reads the value that the kernel side holds at that step: an Acquire
load does not wait for an earlier Release store to be delivered.

The thread polls and consumes. To go to sleep it raises `NEED_WAKEUP`, reads the tail once
more, and sleeps if there is nothing new; an `io_uring_enter` with `SQ_WAKEUP` wakes it.

A `TailStore` carries two things the memory does not have: the number of SQEs written when
the store was made, and whether a `submit_sqpoll` at or after it has already settled that
no (further) wakeup is needed.
-/

set_option autoImplicit false

namespace Ququmatz

open Lib

/-- A store of the SQ tail that the kernel thread does not see yet. -/
structure TailStore where
  tail : UInt32
  upTo : Nat
  settled : Bool
deriving DecidableEq, Repr

/-- What the SQPOLL thread is doing. -/
inductive Poller
  | polling
  /-- It has raised `NEED_WAKEUP` and not yet read the tail again. -/
  | flagged
  | asleep
deriving DecidableEq, Repr

/-- The ring's memory as the kernel thread sees it, the stores on their way to it, and the
thread. -/
structure PollWorld where
  mem : World
  buffer : List TailStore
  poller : Poller
  /-- A wakeup that the thread has not acted on. -/
  wake : Bool

/-- The test of `sq_need_wakeup` on a loaded value. -/
def needsWakeup (flags : UInt32) : Bool := flags &&& IORING_SQ_NEED_WAKEUP != 0

/-- The steps of the memory and of the thread. -/
inductive PollStep
  /-- The oldest store reaches the thread. -/
  | deliver
  | consume
  /-- The thread raises `NEED_WAKEUP`. -/
  | raise
  /-- The thread reads the tail again, and sleeps if it sees no new entry. -/
  | recheck
  | wakeUp
deriving DecidableEq, Repr

namespace PollWorld

/-- Every store so far belongs to a call that has settled. -/
def settle (w : PollWorld) : PollWorld :=
  { w with buffer := w.buffer.map fun st => { st with settled := true } }

/-- The thread goes back to polling: `NEED_WAKEUP` is cleared. -/
def resume (w : PollWorld) : PollWorld :=
  { w with
    mem := { w.mem with sqFlags := w.mem.sqFlags &&& ~~~IORING_SQ_NEED_WAKEUP }
    poller := .polling
    wake := false }

/-- The effect of a step of the memory or the thread. -/
def env : PollStep → PollWorld → Option PollWorld
  | .deliver, w =>
      match w.buffer with
      | [] => none
      | st :: rest => some { w with mem := { w.mem with sqTail := st.tail }, buffer := rest }
  | .consume, w =>
      if w.poller = .polling then w.mem.consumeOne.map fun m => { w with mem := m } else none
  | .raise, w =>
      if w.poller = .polling then
        some { w with
          mem := { w.mem with sqFlags := w.mem.sqFlags ||| IORING_SQ_NEED_WAKEUP }
          poller := .flagged }
      else none
  | .recheck, w =>
      if w.poller = .flagged then
        if w.mem.sqHead = w.mem.sqTail then some { w with poller := .asleep }
        else some w.resume
      else none
  | .wakeUp, w =>
      if w.poller = .asleep ∧ w.wake = true then some w.resume else none

/-- The thread does not fall asleep, with no wakeup under way, while a settled store that
it has not caught up with is under way. -/
def punctual (w : PollWorld) : PollStep → Bool
  | .recheck =>
      w.mem.sqHead != w.mem.sqTail || w.wake ||
        w.buffer.all fun st => !st.settled || st.tail == w.mem.sqHead
  | _ => true

/-- The effect of `io_uring_enter` with `SQ_WAKEUP`: a thread that is on its way to sleep
or asleep is woken, one that polls is not affected. -/
def wakeThread (w : PollWorld) : PollWorld :=
  { w with wake := w.wake || decide (w.poller ≠ .polling) }

/-- The crate's accesses. A `submit_sqpoll` settles when it finds the flag down, or when
its `io_uring_enter` succeeds. -/
def access (a : Access) (r : Option (Except Errno Nat)) (w : PollWorld) :
    Option (a.Ans × PollWorld) :=
  match a with
  | .storeSqTail v =>
      some ((), { w with buffer := w.buffer ++ [⟨v, w.mem.written.length, false⟩] })
  | .loadSqFlags =>
      some (w.mem.sqFlags, if needsWakeup w.mem.sqFlags then w else w.settle)
  | .enter _ _ _ flags =>
      r.map fun x => (x,
        match x with
        | .ok _ => if flags.contains EnterFlags.SQ_WAKEUP then w.wakeThread.settle else w
        | .error _ => w)
  | .loadSqHead => some (w.mem.sqHead, w)
  | .writeSqe idx sqe =>
      some ((), { w with mem := { w.mem with
        sqes := Function.update w.mem.sqes idx.toNat sqe
        written := w.mem.written ++ [sqe] } })
  | a => (w.mem.access a none).map fun x => (x.1, { w with mem := x.2 })

end PollWorld

/-- The submitting side: the whole ring or its submission half. -/
inductive Side
  | ring (r : IoUring)
  | half (s : Submitter)
deriving DecidableEq, Repr

namespace Side

/-- `push` on either side. -/
def push (side : Side) (sqe : Sqe) : RingProg (Except Error Unit × Side) :=
  match side with
  | .ring r => do
      let (res, r') ← r.push sqe
      return (res, .ring r')
  | .half s => do
      let (res, s') ← s.push sqe
      return (res, .half s')

/-- `submit_sqpoll` on either side. -/
def submitSqpoll (side : Side) : RingProg (Except Error Unit × Side) :=
  match side with
  | .ring r => do
      let (res, r') ← r.submitSqpoll
      return (res, .ring r')
  | .half s => do
      let (res, s') ← s.submitSqpoll
      return (res, .half s')

end Side

/-- The calls of the submitting side. -/
inductive PollCall
  | push (sqe : Sqe)
  | submitSqpoll
deriving DecidableEq, Repr

/-- The submitting side with the call it is in, the memory and the thread. -/
structure PollSys where
  world : PollWorld
  side : Side
  /-- The call in progress and what is left of its program. -/
  running : Option (PollCall × RingProg (Except Error Unit × Side))
  /-- The number of SQEs that the last `submit_sqpoll` to return `Ok` has published. -/
  returned : Nat

/-- A step of the protocol. -/
inductive PollAction
  | start (c : PollCall)
  /-- The call in progress makes its next access. -/
  | access (r : Option (Except Errno Nat))
  /-- The call in progress returns. -/
  | finish
  | env (k : PollStep)
deriving DecidableEq, Repr

namespace PollSys

/-- The program of a call. -/
def program (side : Side) : PollCall → RingProg (Except Error Unit × Side)
  | .push sqe => side.push sqe
  | .submitSqpoll => side.submitSqpoll

/-- What a call leaves behind when it returns `res`. -/
def returns (s : PollSys) (c : PollCall) (res : Except Error Unit) : Nat :=
  match c, res with
  | .submitSqpoll, .ok () => s.world.mem.written.length
  | _, _ => s.returned

/-- The effect of a step. -/
def step (s : PollSys) : PollAction → Option PollSys
  | .start c =>
      match s.running with
      | none => some { s with running := some (c, program s.side c) }
      | some _ => none
  | .access r =>
      match s.running with
      | some (c, .op o k) =>
          (s.world.access o r).map fun x =>
            { s with world := x.2, running := some (c, k x.1) }
      | _ => none
  | .finish =>
      match s.running with
      | some (c, .ret (res, side')) =>
          some { s with side := side', running := none, returned := s.returns c res }
      | _ => none
  | .env k => (s.world.env k).map fun w => { s with world := w }

/-- A run of the protocol. -/
def run : List PollAction → PollSys → Option PollSys
  | [], s => some s
  | a :: as, s => (s.step a).bind (run as)

/-- The step is not a late fall asleep of the thread. -/
def punctual (s : PollSys) : PollAction → Bool
  | .env k => s.world.punctual k
  | _ => true

/-- Every step of the run is punctual. -/
def allPunctual : List PollAction → PollSys → Bool
  | [], _ => true
  | a :: as, s => s.punctual a && (s.step a).elim true (allPunctual as)

/-- A call has returned `Ok`, every store has been delivered, and the thread sleeps on an
SQE that the call published. -/
def Lost (s : PollSys) : Prop :=
  s.world.buffer = [] ∧ s.world.poller = .asleep ∧ s.world.wake = false ∧
    s.world.mem.consumed.length < s.returned

/-- A fresh ring with a polling thread and the given side. -/
def init (mem : World) (side : Side) : PollSys where
  world := { mem := mem, buffer := [], poller := .polling, wake := false }
  side := side
  running := none
  returned := 0

end PollSys

end Ququmatz
