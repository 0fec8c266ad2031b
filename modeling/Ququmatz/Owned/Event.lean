import Ququmatz.Types

/-!
# `Ququmatz.Owned.Event`: identities, receipts and events

`RingId`, `RequestId` and `RequestIdSource` of `src/owned/identity.rs`, `Receipt` of
`src/owned/request.rs`, and the events of `src/owned/event.rs`. `Event.ofCompletion` is the
part of `reap_event` that decides, by the `MORE` flag, whether a completion is terminal.
-/

set_option autoImplicit false

namespace Ququmatz

/-- `RingId`. -/
structure RingId where
  raw : UInt32
deriving DecidableEq, Repr

/-- `RingId::next`, at a value of the process-wide counter; the `fetch_add` wraps. -/
def RingId.next (counter : UInt32) : RingId × UInt32 := (⟨counter⟩, counter + 1)

/-- `RequestId`. -/
structure RequestId where
  raw : UInt64
deriving DecidableEq, Repr

/-- `RequestIdSource`, of one ring. -/
structure RequestIdSource where
  counter : UInt64
deriving DecidableEq, Repr

namespace RequestIdSource

/-- `RequestIdSource::new`. -/
def new : RequestIdSource := ⟨1⟩

/-- `RequestIdSource::next`; the `fetch_add` wraps. -/
def next (self : RequestIdSource) : RequestId × RequestIdSource :=
  (⟨self.counter⟩, ⟨self.counter + 1⟩)

end RequestIdSource

/-- `Receipt`. -/
structure Receipt where
  ring : RingId
  id : RequestId
  result : Int32
  flags : CqeFlags
deriving DecidableEq, Repr

/-- `Receipt::belongs_to`. -/
def Receipt.belongsTo (self : Receipt) (ring : RingId) (id : RequestId) : Bool :=
  self.id.raw == id.raw && self.ring.raw == ring.raw

/-- `PartialReceipt`. -/
structure PartialReceipt where
  ring : RingId
  id : RequestId
  result : Int32
  flags : CqeFlags
deriving DecidableEq, Repr

namespace PartialReceipt

/-- `PartialReceipt::buffer_id`. -/
def bufferId (self : PartialReceipt) : Option UInt16 := self.flags.bufferId

/-- `PartialReceipt::belongs_to`. -/
def belongsTo (self : PartialReceipt) (ring : RingId) (id : RequestId) : Bool :=
  self.id.raw == id.raw && self.ring.raw == ring.raw

end PartialReceipt

/-- `Event`. -/
inductive Event
  | complete (receipt : Receipt)
  /-- `Event::Partial`. -/
  | part (receipt : PartialReceipt)
deriving DecidableEq, Repr

namespace Event

/-- `Event::into_receipt`. -/
def intoReceipt (self : Event) : Option Receipt :=
  match self with
  | .complete receipt => some receipt
  | .part _ => none

/-- `Event::belongs_to`. -/
def belongsTo (self : Event) (ring : RingId) (id : RequestId) : Bool :=
  match self with
  | .complete receipt => receipt.belongsTo ring id
  | .part receipt => receipt.belongsTo ring id

/-- The event that `reap_event` of ring `ring` makes of a completion. -/
def ofCompletion (ring : RingId) (cqe : Completion) : Event :=
  let id : RequestId := ⟨cqe.userData⟩
  if cqe.flags.contains CqeFlags.MORE then .part ⟨ring, id, cqe.result, cqe.flags⟩
  else .complete ⟨ring, id, cqe.result, cqe.flags⟩

end Event

end Ququmatz
