import Ququmatz.Owned.Multishot
import Ququmatz.Owned.Queue

/-!
# `Ququmatz.Owned.Submitter`: the owned halves and the methods that push

`OwnedSubmitter`, `OwnedCompleter` and `IoUring::split_owned` of `src/owned/queue.rs`, with
the push methods as the programs they are: each takes its request apart into an SQE and a
ticket, pushes the SQE, and when the queue is full rebuilds the request.

`PushRequest` and `PushTicket` put the requests and the tickets of these methods into one
type each, and `OwnedSys.submitter` is the owned half inside the system of
`Ququmatz.Owned.Queue`, so that a call can be followed from any state of a run.
-/

set_option autoImplicit false

namespace Ququmatz

open Lib

/-- `OwnedSubmitter`. -/
structure OwnedSubmitter where
  inner : Submitter
  ring : RingId
  ids : RequestIdSource
deriving DecidableEq, Repr

/-- `OwnedCompleter`. -/
structure OwnedCompleter where
  inner : Completer
  ring : RingId
deriving DecidableEq, Repr

/-- `IoUring::split_owned`, at a value of the counter of `RingId::next`. The identity is
taken before the split, which may refuse. -/
def IoUring.splitOwned (self : IoUring) (counter : UInt32) :
    RingProg (Except (IoUring × Error) (OwnedSubmitter × OwnedCompleter) × UInt32) := do
  let (ring, counter) := RingId.next counter
  match ← self.split with
  | .error e => return (.error e, counter)
  | .ok (submitter, completer) =>
      return (.ok ({ inner := submitter, ring := ring, ids := RequestIdSource.new },
        { inner := completer, ring := ring }), counter)

/-! ### The push methods -/

namespace OwnedSubmitter

/-- The body of a push method: `intoPending` of its request, and what it hands back when the
queue is full. -/
def pushWith {Q T : Type} (self : OwnedSubmitter) (intoPending : RingId → RequestId → Sqe × T)
    (reclaim : T → Q) : RingProg (Except (Q × Error) T × OwnedSubmitter) := do
  let (id, ids) := self.ids.next
  let (sqe, pending) := intoPending self.ring id
  let (res, inner) ← self.inner.push sqe
  let self := { self with inner := inner, ids := ids }
  match res with
  | .ok () => return (.ok pending, self)
  | .error e => return (.error (reclaim pending, e), self)

section

variable {B R : Type} {N : Nat} (self : OwnedSubmitter)

/-- `OwnedSubmitter::push`. -/
def push (request : Prepared B) :
    RingProg (Except (Prepared B × Error) (Pending B) × OwnedSubmitter) :=
  self.pushWith request.intoPending Pending.reclaimUnsubmitted

/-- `OwnedSubmitter::push_zc`. -/
def pushZc (request : PreparedZc B) :
    RingProg (Except (PreparedZc B × Error) (PendingZc B) × OwnedSubmitter) :=
  self.pushWith request.intoPending PendingZc.reclaimUnsubmitted

/-- `OwnedSubmitter::push_vectored`. -/
def pushVectored (request : PreparedVectored B R N) :
    RingProg (Except (PreparedVectored B R N × Error) (PendingVectored B R N) × OwnedSubmitter) :=
  self.pushWith request.intoPending PendingVectored.reclaimUnsubmitted

/-- `OwnedSubmitter::push_sendmsg`. -/
def pushSendmsg (request : PreparedSendmsg B R N) :
    RingProg (Except (PreparedSendmsg B R N × Error) (PendingSendmsg B R N) × OwnedSubmitter) :=
  self.pushWith (PreparedSendmsg.intoPending request) PendingSendmsg.reclaimUnsubmitted

/-- `OwnedSubmitter::push_sendmsg_zc`. -/
def pushSendmsgZc (request : PreparedSendmsgZc B R N) :
    RingProg
      (Except (PreparedSendmsgZc B R N × Error) (PendingSendmsgZc B R N) × OwnedSubmitter) :=
  self.pushWith (PreparedSendmsgZc.intoPending request) PendingSendmsgZc.reclaimUnsubmitted

/-- `OwnedSubmitter::push_multishot`. The request is `Copy`, and the copy is handed back. -/
def pushMultishot (request : PreparedMultishot) :
    RingProg (Except (PreparedMultishot × Error) MultishotRecv × OwnedSubmitter) :=
  self.pushWith request.intoPending fun _ => request

/-- `OwnedSubmitter::push_read_multishot`. -/
def pushReadMultishot (request : PreparedReadMultishot) :
    RingProg (Except (PreparedReadMultishot × Error) MultishotRead × OwnedSubmitter) :=
  self.pushWith request.intoPending fun _ => request

/-- `OwnedSubmitter::push_msg_ring`. -/
def pushMsgRing (request : PreparedMsgRing) :
    RingProg (Except (PreparedMsgRing × Error) PendingMsgRing × OwnedSubmitter) :=
  self.pushWith request.intoPending fun _ => request

end

end OwnedSubmitter

/-! ### One type of requests -/

/-- What the push methods take. -/
inductive PushRequest (B R : Type) (N : Nat)
  | owned (request : Request B R N)
  | multishot (request : PreparedMultishot)
  | readMultishot (request : PreparedReadMultishot)
  | msgRing (request : PreparedMsgRing)

/-- What the push methods return. -/
inductive PushTicket (B R : Type) (N : Nat)
  | owned (ticket : Ticket B R N)
  | multishot (ticket : MultishotRecv)
  | readMultishot (ticket : MultishotRead)
  | msgRing (pending : PendingMsgRing)

section

variable {B R : Type} {N : Nat}

namespace PushRequest

/-- `into_pending` of the request. -/
def intoPending (self : PushRequest B R N) (ring : RingId) (id : RequestId) :
    Sqe × PushTicket B R N :=
  match self with
  | .owned r =>
      let (sqe, ticket) := r.intoPending ring id
      (sqe, .owned ticket)
  | .multishot r =>
      let (sqe, ticket) := r.intoPending ring id
      (sqe, .multishot ticket)
  | .readMultishot r =>
      let (sqe, ticket) := r.intoPending ring id
      (sqe, .readMultishot ticket)
  | .msgRing r =>
      let (sqe, pending) := r.intoPending ring id
      (sqe, .msgRing pending)

/-- The request as an action of the system takes it. -/
def toOwned : PushRequest B R N → OwnedRequest B R N
  | .owned r => .owned r
  | .multishot r => .other ((Sqe.recvMultishot r.fd r.flags).bufferSelect r.bgid)
  | .readMultishot r => .other (Sqe.readMultishot r.fd r.offset r.bgid)
  | .msgRing r => .msgRing r

end PushRequest

/-- The id of the ticket. -/
def PushTicket.id : PushTicket B R N → RequestId
  | .owned ticket => ticket.id
  | .multishot ticket => ticket.id
  | .readMultishot ticket => ticket.id
  | .msgRing pending => pending.id

/-- Put the request or the ticket of one method into the common type. -/
def liftPush {Q T : Type} (request : Q → PushRequest B R N) (ticket : T → PushTicket B R N) :
    Except (Q × Error) T → Except (PushRequest B R N × Error) (PushTicket B R N)
  | .ok t => .ok (ticket t)
  | .error (q, e) => .error (request q, e)

/-- The push method of a request. -/
def OwnedSubmitter.pushRequest (self : OwnedSubmitter) (request : PushRequest B R N) :
    RingProg (Except (PushRequest B R N × Error) (PushTicket B R N) × OwnedSubmitter) :=
  match request with
  | .owned (.single r) => do
      let (res, self) ← self.push r
      return (liftPush (.owned <| .single ·) (.owned <| .single ·) res, self)
  | .owned (.zc r) => do
      let (res, self) ← self.pushZc r
      return (liftPush (.owned <| .zc ·) (.owned <| .zc ·) res, self)
  | .owned (.vectored r) => do
      let (res, self) ← self.pushVectored r
      return (liftPush (.owned <| .vectored ·) (.owned <| .vectored ·) res, self)
  | .owned (.sendmsg r) => do
      let (res, self) ← self.pushSendmsg r
      return (liftPush (.owned <| .sendmsg ·) (.owned <| .sendmsg ·) res, self)
  | .owned (.sendmsgZc r) => do
      let (res, self) ← self.pushSendmsgZc r
      return (liftPush (.owned <| .sendmsgZc ·) (.owned <| .sendmsgZc ·) res, self)
  | .multishot r => do
      let (res, self) ← self.pushMultishot r
      return (liftPush .multishot .multishot res, self)
  | .readMultishot r => do
      let (res, self) ← self.pushReadMultishot r
      return (liftPush .readMultishot .readMultishot res, self)
  | .msgRing r => do
      let (res, self) ← self.pushMsgRing r
      return (liftPush .msgRing .msgRing res, self)

/-! ### Pushes in the system -/

namespace OwnedSys

/-- The `OwnedSubmitter` of the owner, while it is live. -/
def submitter (s : OwnedSys B R N) : Option OwnedSubmitter :=
  match s.owner, s.sys.handles with
  | some (ring, ids), .halves (some inner) _ => some ⟨inner, ring, ids⟩
  | _, _ => none

/-- The id of the owned request that the step from `s` to `s'` got accepted. -/
def acceptedId (s : OwnedSys B R N) (a : OwnedAction B R N) (s' : OwnedSys B R N) :
    Option RequestId :=
  match a with
  | .push _ _ =>
      if s.sys.accepted.length < s'.sys.accepted.length then s.owner.map (·.2.next.1) else none
  | _ => none

/-- The ids of the owned requests that a run got accepted, oldest first. -/
def acceptedIds : List (OwnedAction B R N) → OwnedSys B R N → List RequestId
  | [], _ => []
  | a :: as, s =>
      match s.step a with
      | some s' => (s.acceptedId a s').toList ++ acceptedIds as s'
      | none => []

end OwnedSys

/-- The action is a call of a push method. -/
def OwnedAction.isPush : OwnedAction B R N → Bool
  | .push _ _ => true
  | _ => false

end

end Ququmatz
