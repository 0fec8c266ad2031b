import Mathlib.Logic.Function.Basic
import Ququmatz.Lib.Wrap
import Ququmatz.Ring.Basic
import Ququmatz.Ring.Resources

/-!
# `Ququmatz.Ring.Kernel`: the memory of a ring and the kernel that shares it

`World` is what the handles of one ring share with the kernel: the heads, tails, flags and
slots of the two queues, and the resources page. Beside the memory it keeps four
histories: the SQEs the crate stored, the SQEs the kernel read, the CQEs the kernel posted
and the CQEs the crate read. Only the accesses and kernel steps below extend them.

The kernel acts at any moment (`KStep`). Its SQPOLL thread reads the next published SQE;
on a ring without that thread SQEs are read only inside `io_uring_enter`. It posts a CQE
into a free slot of the completion queue, and it changes the SQ flags. A posted CQE has an
`Origin`: the request that it completes, the message of a `MSG_RING` request, or anything
else. `ringMachine` is the meaning of the crate's accesses in this world.
-/

set_option autoImplicit false

namespace Ququmatz

open Lib

/-- Where a posted CQE comes from. A request is named by its place in the order in which
the kernel read the SQEs. -/
inductive Origin
  /-- A completion of the request itself. -/
  | request (k : Nat)
  /-- The message that a `MSG_RING` request sends to this ring. -/
  | message (k : Nat)
  /-- Not a request of this ring. -/
  | foreign
deriving DecidableEq, Repr

/-- The fixed data of a ring. -/
structure RingParams where
  sq : RingSize
  cq : RingSize
  flags : SetupFlags
  features : UInt32
deriving DecidableEq

/-- The shared memory of one ring, and the histories of its queues. -/
structure World where
  params : RingParams
  resources : RingResources
  sqHead : UInt32
  sqTail : UInt32
  sqFlags : UInt32
  sqArray : Nat → UInt32
  sqes : Nat → Sqe
  cqHead : UInt32
  cqTail : UInt32
  cqes : Nat → Cqe
  /-- The SQEs stored by the crate, oldest first. -/
  written : List Sqe
  /-- The SQEs read by the kernel, oldest first. -/
  consumed : List Sqe
  /-- The CQEs posted by the kernel, oldest first. -/
  posted : List (Origin × Cqe)
  /-- The CQEs read by the crate, oldest first. -/
  read : List Cqe
  /-- The system calls made to release the ring's resources. -/
  syscalls : List Syscall

namespace World

/-- Whether the ring has the SQ indirection array. -/
def hasSqArray (w : World) : Bool := !w.params.flags.contains SetupFlags.NO_SQARRAY

/-- Whether the ring has a kernel thread that polls the submission queue. -/
def sqpoll (w : World) : Bool := w.params.flags.contains SetupFlags.SQPOLL

/-- The SQE slot the kernel reads next: through the indirection array at the masked head,
or the masked head itself under `NO_SQARRAY`. -/
def sqIndex (w : World) : Nat :=
  let slot := (w.sqHead &&& w.params.sq.mask).toNat
  if w.hasSqArray then (w.sqArray slot).toNat else slot

/-- The kernel reads one published SQE. -/
def consumeOne (w : World) : Option World :=
  if w.sqHead = w.sqTail then none
  else some
    { w with
      sqHead := w.sqHead + 1
      consumed := w.consumed ++ [w.sqes w.sqIndex] }

/-- The kernel reads `n` published SQEs. -/
def consumeN : Nat → World → Option World
  | 0, w => some w
  | n + 1, w => w.consumeOne.bind (consumeN n)

/-- A CQE that ends its request: one without `MORE`. -/
def isTerminal (cqe : Cqe) : Bool := !(⟨cqe.flags⟩ : CqeFlags).contains CqeFlags.MORE

/-- Request `k` has had its terminal CQE. -/
def finished (w : World) (k : Nat) : Bool :=
  w.posted.any fun p => decide (p.1 = .request k) && isTerminal p.2

/-- The message of request `k` has been posted. -/
def messaged (w : World) (k : Nat) : Bool :=
  w.posted.any fun p => decide (p.1 = .message k)

/-- `sqe` is a `MSG_RING` request aimed at this ring. -/
def isMessage (w : World) (sqe : Sqe) : Bool :=
  sqe.opcode == Opcode.msgRing.toU8 && sqe.fd == w.resources.fd.asI32

/-- What the kernel may post. A request posts CQEs that carry its `user_data` until its
terminal one. A `MSG_RING` request aimed at this ring posts one message, whose `user_data`
is the request's `off`; the result and flags of a message are left open. -/
def mayPost (w : World) : Origin → Cqe → Bool
  | .request k, cqe =>
      match w.consumed[k]? with
      | some sqe => cqe.userData == sqe.userData && !w.finished k
      | none => false
  | .message k, cqe =>
      match w.consumed[k]? with
      | some sqe =>
          w.isMessage sqe && cqe.userData == sqe.off && !w.finished k && !w.messaged k
      | none => false
  | .foreign, _ => true

/-- The kernel posts a CQE, if the completion queue has a free slot. -/
def post (w : World) (o : Origin) (cqe : Cqe) : Option World :=
  if w.cqTail - w.cqHead < w.params.cq.val ∧ w.mayPost o cqe = true then
    some
      { w with
        cqes := Function.update w.cqes (w.cqTail &&& w.params.cq.mask).toNat cqe
        cqTail := w.cqTail + 1
        posted := w.posted ++ [(o, cqe)] }
  else none

end World

/-- A step of the kernel on its own. -/
inductive KStep
  /-- The SQPOLL thread reads one SQE. -/
  | consume
  | post (o : Origin) (cqe : Cqe)
  | setSqFlags (v : UInt32)
deriving DecidableEq, Repr

/-- The effect of a kernel step. -/
def World.env : KStep → World → Option World
  | .consume, w => if w.sqpoll then w.consumeOne else none
  | .post o cqe, w => w.post o cqe
  | .setSqFlags v, w => some { w with sqFlags := v }

/-- How an `io_uring_enter` ends. -/
inductive EnterOutcome
  /-- It submitted `n` entries, and the completions it was asked to wait for are there. -/
  | ok (n : Nat)
  /-- It submitted `n` entries and returned without waiting to the end. -/
  | early (n : Nat)
  | err (e : Errno)
deriving DecidableEq, Repr

/-- The kernel's part in one `io_uring_enter`: the outcome, and what it does meanwhile. -/
structure EnterReply where
  outcome : EnterOutcome
  during : List KStep
deriving DecidableEq, Repr

namespace World

/-- The kernel takes `n` entries inside `io_uring_enter`. With an SQPOLL thread the call
takes none itself. -/
def takeEntries (w : World) (n : Nat) : Option World :=
  if w.sqpoll then some w else w.consumeN n

/-- The completion queue holds what a waiting `io_uring_enter` was asked for. -/
def waitSatisfied (w : World) (minComplete : UInt32) (flags : EnterFlags) : Bool :=
  !flags.contains EnterFlags.GETEVENTS ||
    decide (min minComplete w.params.cq.val ≤ w.cqTail - w.cqHead)

/-- `io_uring_enter`: a success with `n` has read the first `n ≤ toSubmit` published
entries, a failure has read none. -/
def enter (w : World) (toSubmit minComplete : UInt32) (flags : EnterFlags)
    (r : EnterReply) : Option (Except Errno Nat × World) :=
  match r.outcome with
  | .err e => (envSteps World.env r.during w).map fun w' => (.error e, w')
  | .ok n =>
      if n ≤ toSubmit.toNat then
        (w.takeEntries n).bind fun w1 => (envSteps World.env r.during w1).bind fun w2 =>
          if w2.waitSatisfied minComplete flags then some (.ok n, w2) else none
      else none
  | .early n =>
      if n ≤ toSubmit.toNat then
        (w.takeEntries n).bind fun w1 => (envSteps World.env r.during w1).map fun w2 =>
          (.ok n, w2)
      else none

/-- An access to memory: the kernel has no say in its answer. -/
def memory {α : Type} (x : α × World) : Option EnterReply → Option (α × World)
  | none => some x
  | some _ => none

/-- The meaning of the crate's accesses. Only `enter` takes a reply of the kernel. -/
def access (a : Access) (r : Option EnterReply) (w : World) : Option (a.Ans × World) :=
  match a with
  | .loadSqHead => memory (w.sqHead, w) r
  | .storeSqTail v => memory ((), { w with sqTail := v }) r
  | .loadSqFlags => memory (w.sqFlags, w) r
  | .writeSqe idx sqe =>
      memory ((), { w with
        sqes := Function.update w.sqes idx.toNat sqe
        written := w.written ++ [sqe] }) r
  | .loadCqTail => memory (w.cqTail, w) r
  | .readCqe idx =>
      memory (w.cqes idx.toNat, { w with read := w.read ++ [w.cqes idx.toNat] }) r
  | .storeCqHead v => memory ((), { w with cqHead := v }) r
  | .enter _ toSubmit minComplete flags => r.bind (w.enter toSubmit minComplete flags)
  | .retain => memory ((), { w with resources := w.resources.retain }) r
  | .release =>
      memory ((), { w with
        resources := w.resources.released
        syscalls := w.syscalls ++ w.resources.cleanup }) r

end World

/-- The crate's accesses and the kernel, over the memory of one ring. -/
abbrev ringMachine : Machine ringSig where
  State := World
  Env := KStep
  env := World.env
  Reply := Option EnterReply
  access := World.access

/-- The moves of the kernel around one access. -/
abbrev KRound := Round ringMachine

/-- A round in which the kernel does nothing. -/
def KRound.quiet : KRound := ⟨[], none⟩

/-- A round in which an `io_uring_enter` ends as `r` says. -/
def KRound.entered (r : EnterReply) : KRound := ⟨[], some r⟩

/-! ### Setup -/

/-- The identity fill of the SQ array in `parse_sq`, `sq_array[i] = i` for `i` below
`n`. -/
def fillIdentity (sqArray : Nat → UInt32) : Nat → Nat → UInt32
  | 0 => sqArray
  | n + 1 => Function.update (fillIdentity sqArray n) n (UInt32.ofNat n)

/-- A ring as `io_uring_setup` leaves it: both queues empty, at any indices, and arbitrary
bytes in the slots and the SQ array. -/
def World.fresh (params : RingParams) (resources : RingResources) (sqStart cqStart : UInt32)
    (sqArray : Nat → UInt32) (sqes : Nat → Sqe) (cqes : Nat → Cqe) : World where
  params := params
  resources := resources
  sqHead := sqStart
  sqTail := sqStart
  sqFlags := 0
  sqArray := sqArray
  sqes := sqes
  cqHead := cqStart
  cqTail := cqStart
  cqes := cqes
  written := []
  consumed := []
  posted := []
  read := []
  syscalls := []

/-- `parse_sq` on the shared memory: fill the SQ array, if there is one. -/
def parseSq (w : World) : World :=
  if w.hasSqArray then { w with sqArray := fillIdentity w.sqArray w.params.sq.size } else w

/-- The handle that `IoUring::from_params` builds after `parse_sq` and `parse_cq`: the
masks and the first local indices are read from the mapped rings. -/
def IoUring.fromParsed (w : World) : IoUring where
  fd := w.resources.fd
  sqMask := w.params.sq.mask
  sqTailLocal := w.sqTail
  sqSubmitted := w.sqTail
  cqMask := w.params.cq.mask
  cqHeadLocal := w.cqHead
  features := w.params.features
  setupFlags := w.params.flags.bits
  doTagNext := IoUring.DO_TAG_MARKER

end Ququmatz
