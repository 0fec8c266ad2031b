import Ququmatz.Owned.Footprint
import Ququmatz.Ring.System

/-!
# `Ququmatz.Owned.Queue`: a ring with owned requests, over its whole life

`OwnedSubmitter` and `OwnedCompleter` of `src/owned/queue.rs`, and the `MSG_RING` request of
`src/owned/msgring.rs`. The `inner` halves of the two are the handles of the ring's `Sys`, so
everything that safe code reaches through `raw()`, and everything it did to the `IoUring`
before `split_owned`, is an action of that system.

Every `push_*` method has one body: it mints an id, lets `into_pending` stamp it into the SQE,
and pushes. `OwnedRequest` lists the requests that the rest of the project knows, and keeps of
the others the SQE that their `into_pending` builds. A ticket is kept with the place of its
SQE among the accepted ones: that place is the name of its request in `Origin`.
-/

set_option autoImplicit false

namespace Ququmatz

open Lib

/-! ### `MSG_RING` requests -/

/-- `PreparedMsgRing`. -/
structure PreparedMsgRing where
  target : RawFd
  len : UInt32
  data : UInt64
  flags : MsgRingFlags

/-- `PendingMsgRing`. -/
structure PendingMsgRing where
  ring : RingId
  id : RequestId
  target : RawFd

/-- `MsgRingDone`. -/
structure MsgRingDone where
  target : RawFd
  id : RequestId
  result : Int32

/-- `PreparedMsgRing::into_pending`. -/
def PreparedMsgRing.intoPending (self : PreparedMsgRing) (ring : RingId) (id : RequestId) :
    Sqe × PendingMsgRing :=
  ((Sqe.msgRingWithFlags self.target self.len self.data self.flags).withUserData id.raw,
    { ring := ring, id := id, target := self.target })

/-- `PendingMsgRing::redeem`. -/
def PendingMsgRing.redeem (self : PendingMsgRing) (receipt : Receipt) :
    Except (PendingMsgRing × Receipt) MsgRingDone :=
  if !receipt.belongsTo self.ring self.id then .error (self, receipt)
  else .ok { target := self.target, id := self.id, result := receipt.result }

/-! ### Requests and tickets -/

/-- What the `push_*` methods take. -/
inductive OwnedRequest (B R : Type) (N : Nat)
  | owned (request : Request B R N)
  | msgRing (request : PreparedMsgRing)
  /-- A request of another method: the SQE, before the id is stamped. -/
  | other (sqe : Sqe)

/-- What the `push_*` methods return. -/
inductive OwnedTicket (B R : Type) (N : Nat)
  | owned (ticket : Ticket B R N)
  | msgRing (pending : PendingMsgRing)
  | other (ring : RingId) (id : RequestId)

section

variable {B R : Type} {N : Nat}

/-- `into_pending` of the request. -/
def OwnedRequest.intoPending (self : OwnedRequest B R N) (ring : RingId) (id : RequestId) :
    Sqe × OwnedTicket B R N :=
  match self with
  | .owned r =>
      let (sqe, ticket) := r.intoPending ring id
      (sqe, .owned ticket)
  | .msgRing r =>
      let (sqe, pending) := r.intoPending ring id
      (sqe, .msgRing pending)
  | .other sqe => (sqe.withUserData id.raw, .other ring id)

namespace Ticket

/-- The ring of the ticket. -/
def ring : Ticket B R N → RingId
  | .single pending => pending.ring
  | .zc pending => pending.ring
  | .vectored pending => pending.ring
  | .sendmsg pending => pending.ring
  | .sendmsgZc pending => pending.ring

/-- The id of the ticket. -/
def id : Ticket B R N → RequestId
  | .single pending => pending.id
  | .zc pending => pending.id
  | .vectored pending => pending.id
  | .sendmsg pending => pending.id
  | .sendmsgZc pending => pending.id

/-- `redeem` takes the receipt and hands the buffers back. -/
def accepts (self : Ticket B R N) (receipt : Receipt) : Bool :=
  match self with
  | .single pending => (pending.redeem receipt).isOk
  | .zc pending => (pending.redeem receipt).isOk
  | .vectored pending => (pending.redeem receipt).isOk
  | .sendmsg pending => (pending.redeem receipt).isOk
  | .sendmsgZc pending => (pending.redeem receipt).isOk

end Ticket

namespace OwnedTicket

/-- The ring of the ticket. -/
def ring : OwnedTicket B R N → RingId
  | .owned ticket => ticket.ring
  | .msgRing pending => pending.ring
  | .other ring _ => ring

/-- The id of the ticket. -/
def id : OwnedTicket B R N → RequestId
  | .owned ticket => ticket.id
  | .msgRing pending => pending.id
  | .other _ id => id

/-- `redeem` takes the receipt; every ticket asks `Receipt::belongs_to`. -/
def accepts (self : OwnedTicket B R N) (receipt : Receipt) : Bool :=
  match self with
  | .owned ticket => ticket.accepts receipt
  | .msgRing pending => (pending.redeem receipt).isOk
  | .other ring id => receipt.belongsTo ring id

end OwnedTicket

end

/-! ### The system -/

/-- A ticket that the caller holds, and the place of its SQE among the accepted ones. -/
structure Held (B R : Type) (N : Nat) where
  ticket : OwnedTicket B R N
  slot : Nat

/-- A ring and what its owner holds. -/
structure OwnedSys (B R : Type) (N : Nat) where
  sys : Sys
  /-- The identity and the id source of the owned halves, once `split_owned` made them. -/
  owner : Option (RingId × RequestIdSource)
  tickets : List (Held B R N)
  receipts : List Receipt

/-- A step of the owner or of the kernel. -/
inductive OwnedAction (B R : Type) (N : Nat)
  /-- A call on the `IoUring`, through `raw()`, or of an owned half that only passes it on;
  or a step of the kernel. -/
  | inner (a : Action)
  | splitOwned (ring : RingId) (rs : List KRound)
  | push (request : OwnedRequest B R N) (rs : List KRound)
  | reapEvent (rs : List KRound)
  /-- The rounds of each `reap_event` that `reap` calls. -/
  | reap (rss : List (List KRound))
  | redeem (ticket receipt : Nat)
  | dropTicket (ticket : Nat)
  | dropReceipt (receipt : Nat)

/-- A call of the ring's system, with its result. -/
def Sys.invoke {α : Type} (s : Sys) (p : Option (RingProg (α × Handles))) (rs : List KRound)
    (record : α → Sys → Sys) : Option (α × Sys) :=
  p.bind fun p => (p.run ringMachine rs s.world).map fun x =>
    (x.1.1, record x.1.1 { s with world := x.2, handles := x.1.2 })

namespace OwnedSys

variable {B R : Type} {N : Nat}

/-- `IoUring::split_owned`. `RingId::next` is process-wide, so its value is an argument. -/
def splitOwned (s : OwnedSys B R N) (ring : RingId) (rs : List KRound) :
    Option (OwnedSys B R N) :=
  (s.sys.invoke s.sys.handles.split rs Sys.recordNothing).map fun x =>
    match x.1 with
    | .ok () => { s with sys := x.2, owner := some (ring, RequestIdSource.new) }
    | .error _ => { s with sys := x.2 }

/-- Every `push_*` method of `OwnedSubmitter`. A refused push has used up its id. -/
def push (s : OwnedSys B R N) (request : OwnedRequest B R N) (rs : List KRound) :
    Option (OwnedSys B R N) :=
  s.owner.bind fun (ring, ids) =>
    let (id, ids') := ids.next
    let (sqe, ticket) := request.intoPending ring id
    (s.sys.invoke (s.sys.handles.push sqe) rs (Sys.recordPush sqe)).map fun x =>
      match x.1 with
      | .ok () =>
          { s with
            sys := x.2
            owner := some (ring, ids')
            tickets := s.tickets ++ [⟨ticket, s.sys.accepted.length⟩] }
      | .error _ => { s with sys := x.2, owner := some (ring, ids') }

/-- `OwnedCompleter::reap_event`. -/
def reapEvent (s : OwnedSys B R N) (rs : List KRound) : Option (Option Event × OwnedSys B R N) :=
  s.owner.bind fun (ring, _) =>
    (s.sys.invoke s.sys.handles.complete rs Sys.recordReap).map fun x =>
      (x.1.map (Event.ofCompletion ring), { s with sys := x.2 })

/-- `OwnedCompleter::reap`. -/
def reap : List (List KRound) → OwnedSys B R N → Option (Option Receipt × OwnedSys B R N)
  | [], _ => none
  | rs :: rss, s =>
      (s.reapEvent rs).bind fun x =>
        match x.1 with
        | none => if rss.isEmpty then some (none, x.2) else none
        | some (.complete receipt) => if rss.isEmpty then some (some receipt, x.2) else none
        | some (.part _) => reap rss x.2

/-- The caller keeps a receipt. -/
def keep (receipt : Option Receipt) (s : OwnedSys B R N) : OwnedSys B R N :=
  { s with receipts := s.receipts ++ receipt.toList }

/-- A `redeem`: the ticket and the receipt are spent, or both are handed back. -/
def redeem (s : OwnedSys B R N) (ticket receipt : Nat) : Option (OwnedSys B R N) :=
  match s.tickets[ticket]?, s.receipts[receipt]? with
  | some h, some r =>
      if h.ticket.accepts r then
        some { s with
          tickets := s.tickets.eraseIdx ticket
          receipts := s.receipts.eraseIdx receipt }
      else some s
  | _, _ => none

/-- The effect of a step. -/
def step (s : OwnedSys B R N) : OwnedAction B R N → Option (OwnedSys B R N)
  | .inner a => (s.sys.step a).map fun sys => { s with sys := sys }
  | .splitOwned ring rs => s.splitOwned ring rs
  | .push request rs => s.push request rs
  | .reapEvent rs => (s.reapEvent rs).map fun x => x.2.keep (x.1.bind Event.intoReceipt)
  | .reap rss => (reap rss s).map fun x => x.2.keep x.1
  | .redeem ticket receipt => s.redeem ticket receipt
  | .dropTicket ticket => some { s with tickets := s.tickets.eraseIdx ticket }
  | .dropReceipt receipt => some { s with receipts := s.receipts.eraseIdx receipt }

/-- A run of the system. -/
def run : List (OwnedAction B R N) → OwnedSys B R N → Option (OwnedSys B R N)
  | [], s => some s
  | a :: as, s => (s.step a).bind (run as)

/-- A ring whose owner holds nothing yet. -/
def ofSys (sys : Sys) : OwnedSys B R N where
  sys := sys
  owner := none
  tickets := []
  receipts := []

/-- Whenever `redeem` of a ticket would take a receipt, the kernel has posted the terminal
CQE of the ticket's own request. -/
def ReceiptsAuthentic (s : OwnedSys B R N) : Prop :=
  ∀ h ∈ s.tickets, ∀ receipt ∈ s.receipts,
    h.ticket.accepts receipt = true → s.sys.world.finished h.slot = true

instance (s : OwnedSys B R N) : Decidable s.ReceiptsAuthentic :=
  inferInstanceAs (Decidable (∀ h ∈ s.tickets, ∀ receipt ∈ s.receipts,
    h.ticket.accepts receipt = true → s.sys.world.finished h.slot = true))

/-- Every posted CQE comes from a request of this ring. -/
def Closed (s : OwnedSys B R N) : Prop := ∀ p ∈ s.sys.world.posted, p.1 ≠ .foreign

instance (s : OwnedSys B R N) : Decidable s.Closed :=
  inferInstanceAs (Decidable (∀ p ∈ s.sys.world.posted, p.1 ≠ .foreign))

end OwnedSys

end Ququmatz
