import Ququmatz.Ring.Kernel

/-!
# `Ququmatz.Ring.System`: one ring, its owner and the kernel

The transition system of a ring over its whole life. The owner holds the `IoUring`, or,
after `split`, the two halves, each until it is dropped, and any number of provided-buffer
pools, which hold a share of the ring's resources. A step is a call of the owner or a step
of the kernel on its own. A call carries the kernel's moves around each of its accesses,
so the kernel acts between calls and at every moment inside one.

`Sys` also records what the calls returned: the SQEs that `push` accepted and the
completions that `complete` returned, in order.
-/

set_option autoImplicit false

namespace Ququmatz

open Lib

/-- The handles of the owner. -/
inductive Handles
  | whole (ring : IoUring)
  | halves (submitter : Option Submitter) (completer : Option Completer)
  /-- The `IoUring` was dropped. -/
  | gone
deriving DecidableEq, Repr

/-- The calls of the owner. -/
inductive Call
  | push (sqe : Sqe)
  | flushSqTail
  | submit
  | submitAndWait (minComplete : UInt32)
  | submitSqpoll
  | complete
  | syncCq
  /-- `Completer::wait`. -/
  | wait (minComplete : UInt32)
  /-- The tag that a `do_*` call takes before it pushes. -/
  | nextDoTag
  | split
  | dropRing
  | dropSubmitter
  | dropCompleter
  /-- A provided-buffer pool is registered and takes its share of the resources. -/
  | registerPool
  /-- A provided-buffer pool is dropped and releases its share. -/
  | dropPool
deriving DecidableEq, Repr

/-- A ring, its owner and the record of the owner's calls. -/
structure Sys where
  world : World
  handles : Handles
  pools : Nat
  /-- The SQEs for which `push` returned `Ok`. -/
  accepted : List Sqe
  /-- The completions that `complete` returned. -/
  reaped : List Completion

namespace Handles

/-- The number of live handles that hold a share of the ring's resources. -/
def live : Handles → Nat
  | .whole _ => 1
  | .halves s c => s.toList.length + c.toList.length
  | .gone => 0

/-- `sq_submitted` of the handle that submits. -/
def sqSubmitted : Handles → Option UInt32
  | .whole r => some r.sqSubmitted
  | .halves (some s) _ => some s.sqSubmitted
  | _ => none

/-- Run a call of the submission side on whichever handle has it. -/
def onSq {α : Type} (h : Handles) (f : IoUring → RingProg (α × IoUring))
    (g : Submitter → RingProg (α × Submitter)) : Option (RingProg (α × Handles)) :=
  match h with
  | .whole r => some do
      let (a, r') ← f r
      return (a, .whole r')
  | .halves (some s) c => some do
      let (a, s') ← g s
      return (a, .halves (some s') c)
  | _ => none

/-- Run a call of the completion side on whichever handle has it. -/
def onCq {α : Type} (h : Handles) (f : IoUring → RingProg (α × IoUring))
    (g : Completer → RingProg (α × Completer)) : Option (RingProg (α × Handles)) :=
  match h with
  | .whole r => some do
      let (a, r') ← f r
      return (a, .whole r')
  | .halves s (some c) => some do
      let (a, c') ← g c
      return (a, .halves s (some c'))
  | _ => none

/-- `push` on the `IoUring` or the `Submitter`. -/
def push (h : Handles) (sqe : Sqe) : Option (RingProg (Except Error Unit × Handles)) :=
  h.onSq (·.push sqe) (·.push sqe)

/-- `sq_space_left` on the `IoUring` or the `Submitter`. -/
def sqSpaceLeft (h : Handles) : Option (RingProg (Option UInt32 × Handles)) :=
  h.onSq (fun r => return (← r.sqSpaceLeft, r)) (fun s => return (← s.sqSpaceLeft, s))

/-- `flush_sq_tail` on the `IoUring` or the `Submitter`. -/
def flushSqTail (h : Handles) : Option (RingProg (Unit × Handles)) :=
  h.onSq (fun r => return (← r.flushSqTail, r)) (fun s => return (← s.flushSqTail, s))

/-- `submit` on the `IoUring` or the `Submitter`. -/
def submit (h : Handles) : Option (RingProg (Except Error UInt32 × Handles)) :=
  h.onSq (·.submit) (·.submit)

/-- `submit_and_wait` on the `IoUring` or the `Submitter`. -/
def submitAndWait (h : Handles) (minComplete : UInt32) :
    Option (RingProg (Except Error UInt32 × Handles)) :=
  h.onSq (·.submitAndWait minComplete) (·.submitAndWait minComplete)

/-- `submit_sqpoll` on the `IoUring` or the `Submitter`. -/
def submitSqpoll (h : Handles) : Option (RingProg (Except Error Unit × Handles)) :=
  h.onSq (·.submitSqpoll) (·.submitSqpoll)

/-- `complete` on the `IoUring` or the `Completer`. -/
def complete (h : Handles) : Option (RingProg (Option Completion × Handles)) :=
  h.onCq (·.complete) (·.complete)

/-- `sync_cq` on the `IoUring` or the `Completer`. -/
def syncCq (h : Handles) : Option (RingProg (Unit × Handles)) :=
  h.onCq (fun r => return (← r.syncCq, r)) (fun c => return (← c.syncCq, c))

/-- `Completer::wait`. -/
def wait (h : Handles) (minComplete : UInt32) :
    Option (RingProg (Except Error Unit × Handles)) :=
  match h with
  | .halves s (some c) => some do
      let a ← c.wait minComplete
      return (a, .halves s (some c))
  | _ => none

/-- `IoUring::split`; a refused ring is handed back. -/
def split (h : Handles) : Option (RingProg (Except Error Unit × Handles)) :=
  match h with
  | .whole r => some do
      match ← r.split with
      | .ok (s, c) => return (.ok (), .halves (some s) (some c))
      | .error (r', e) => return (.error e, .whole r')
  | _ => none

/-- Drop the `IoUring`. -/
def dropRing (h : Handles) : Option (RingProg (Unit × Handles)) :=
  match h with
  | .whole r => some do
      r.drop
      return ((), .gone)
  | _ => none

/-- Drop the `Submitter`. -/
def dropSubmitter (h : Handles) : Option (RingProg (Unit × Handles)) :=
  match h with
  | .halves (some s) c => some do
      s.drop
      return ((), .halves none c)
  | _ => none

/-- Drop the `Completer`. -/
def dropCompleter (h : Handles) : Option (RingProg (Unit × Handles)) :=
  match h with
  | .halves s (some c) => some do
      c.drop
      return ((), .halves s none)
  | _ => none

/-- The tag of a `do_*` call. -/
def nextDoTag (h : Handles) : Option (RingProg (Unit × Handles)) :=
  match h with
  | .whole r => some (return ((), .whole r.nextDoTag.2))
  | _ => none

end Handles

namespace Sys

/-- Run a program of the owner, and record its result. -/
def exec {α : Type} (s : Sys) (p : Option (RingProg (α × Handles))) (rs : List KRound)
    (record : α → Sys → Sys) : Option Sys :=
  p.bind fun p => (p.run ringMachine rs s.world).map fun x =>
    record x.1.1 { s with world := x.2, handles := x.1.2 }

/-- Record a push. -/
def recordPush (sqe : Sqe) : Except Error Unit → Sys → Sys
  | .ok (), s => { s with accepted := s.accepted ++ [sqe] }
  | .error _, s => s

/-- Record a reap. -/
def recordReap : Option Completion → Sys → Sys
  | some c, s => { s with reaped := s.reaped ++ [c] }
  | none, s => s

/-- The result of a call that leaves no record. -/
def recordNothing {α : Type} (_ : α) (s : Sys) : Sys := s

/-- One call of the owner, with the kernel's moves around its accesses. A pool is
registered on an `IoUring` or a `Submitter`. -/
def call (s : Sys) (c : Call) (rs : List KRound) : Option Sys :=
  match c with
  | .push sqe => s.exec (s.handles.push sqe) rs (recordPush sqe)
  | .flushSqTail => s.exec s.handles.flushSqTail rs recordNothing
  | .submit => s.exec s.handles.submit rs recordNothing
  | .submitAndWait n => s.exec (s.handles.submitAndWait n) rs recordNothing
  | .submitSqpoll => s.exec s.handles.submitSqpoll rs recordNothing
  | .complete => s.exec s.handles.complete rs recordReap
  | .syncCq => s.exec s.handles.syncCq rs recordNothing
  | .wait n => s.exec (s.handles.wait n) rs recordNothing
  | .nextDoTag => s.exec s.handles.nextDoTag rs recordNothing
  | .split => s.exec s.handles.split rs recordNothing
  | .dropRing => s.exec s.handles.dropRing rs recordNothing
  | .dropSubmitter => s.exec s.handles.dropSubmitter rs recordNothing
  | .dropCompleter => s.exec s.handles.dropCompleter rs recordNothing
  | .registerPool =>
      if s.handles.sqSubmitted.isSome then
        s.exec (some (do perform .retain; return ((), s.handles))) rs fun _ s =>
          { s with pools := s.pools + 1 }
      else none
  | .dropPool =>
      if 0 < s.pools then
        s.exec (some (do perform .release; return ((), s.handles))) rs fun _ s =>
          { s with pools := s.pools - 1 }
      else none

end Sys

/-- A step of the system. -/
inductive Action
  | call (c : Call) (rs : List KRound)
  | kernel (k : KStep)

namespace Sys

/-- The effect of a step. -/
def step (s : Sys) : Action → Option Sys
  | .call c rs => s.call c rs
  | .kernel k => (s.world.env k).map fun w => { s with world := w }

/-- A run of the system. -/
def run : List Action → Sys → Option Sys
  | [], s => some s
  | a :: as, s => (s.step a).bind (run as)

/-- A ring as `from_params` returns it, with one share of its resources. -/
def init (params : RingParams) (resources : RingResources) (sqStart cqStart : UInt32)
    (sqArray : Nat → UInt32) (sqes : Nat → Sqe) (cqes : Nat → Cqe) : Sys :=
  let w := parseSq (World.fresh params { resources with refcount := 1 } sqStart cqStart
    sqArray sqes cqes)
  { world := w
    handles := .whole (IoUring.fromParsed w)
    pools := 0
    accepted := []
    reaped := [] }

end Sys

end Ququmatz
