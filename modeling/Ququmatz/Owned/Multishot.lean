import Ququmatz.Op
import Ququmatz.Owned.Event
import Ququmatz.Pool.Basic

/-!
# `Ququmatz.Owned.Multishot`: multishot tickets and the arrivals they deliver

`MultishotRecv` of `src/owned/multishot.rs` and `MultishotRead` of
`src/owned/readmultishot.rs`, with the `Delivery` and `Arrival` they share. An `Arrival`
borrows its pool; here the pool is an argument of the operations on it.
-/

set_option autoImplicit false

namespace Ququmatz

/-- `Arrival`, less the borrow of the pool. -/
structure Arrival where
  bufId : UInt16
  len : UInt32
deriving DecidableEq, Repr

namespace Arrival

/-- `Arrival::claim`: no slot without a buffer id, and none for a negative result. -/
def claim (bufferId : Option UInt16) (result : Int32) : Option Arrival :=
  match bufferId with
  | some bufId => if 0 ≤ result then some ⟨bufId, result.toUInt32⟩ else none
  | none => none

/-- `Arrival::bytes`. -/
def bytes (self : Arrival) (pool : ProvidedBufferRing) : List UInt8 :=
  (pool.buffer self.bufId self.len).getD []

/-- `Drop for Arrival`. -/
def drop (self : Arrival) (pool : ProvidedBufferRing) : Except Panic ProvidedBufferRing :=
  pool.recycleAndCommit self.bufId

end Arrival

/-- `Finished`. -/
structure Finished where
  receipt : Receipt
  last : Option Arrival
deriving DecidableEq, Repr

/-- `Delivery`. -/
inductive Delivery
  | data (arrival : Arrival)
  | empty (result : Int32)
  | done (finished : Finished)
deriving DecidableEq, Repr

namespace Delivery

/-- `Delivery::from_event`. -/
def fromEvent (event : Event) : Delivery :=
  match event with
  | .part receipt =>
      match Arrival.claim receipt.bufferId receipt.result with
      | some arrival => .data arrival
      | none => .empty receipt.result
  | .complete receipt => .done ⟨receipt, Arrival.claim receipt.flags.bufferId receipt.result⟩

/-- The arrival that a delivery carries. -/
def arrival : Delivery → Option Arrival
  | .data arrival => some arrival
  | .empty _ => none
  | .done finished => finished.last

/-- `Delivery::bytes`. -/
def bytes (self : Delivery) (pool : ProvidedBufferRing) : Option (List UInt8) :=
  match self with
  | .data arrival => some (arrival.bytes pool)
  | .done finished => finished.last.map (·.bytes pool)
  | .empty _ => none

end Delivery

/-- `MultishotRecv`. -/
structure MultishotRecv where
  ring : RingId
  id : RequestId
  bgid : UInt16
  fd : RawFd
deriving DecidableEq, Repr

/-- `MultishotRead`. -/
structure MultishotRead where
  ring : RingId
  id : RequestId
  bgid : UInt16
  fd : RawFd
deriving DecidableEq, Repr

/-- `PreparedMultishot`. -/
structure PreparedMultishot where
  fd : RawFd
  bgid : UInt16
  flags : MsgFlags
deriving DecidableEq, Repr

/-- `PreparedReadMultishot`. -/
structure PreparedReadMultishot where
  fd : RawFd
  offset : UInt64
  bgid : UInt16
deriving DecidableEq, Repr

/-- `PreparedMultishot::into_pending`. -/
def PreparedMultishot.intoPending (self : PreparedMultishot) (ring : RingId) (id : RequestId) :
    Sqe × MultishotRecv :=
  (((Sqe.recvMultishot self.fd self.flags).bufferSelect self.bgid).withUserData id.raw,
    { ring := ring, id := id, bgid := self.bgid, fd := self.fd })

/-- `PreparedReadMultishot::into_pending`. -/
def PreparedReadMultishot.intoPending (self : PreparedReadMultishot) (ring : RingId)
    (id : RequestId) : Sqe × MultishotRead :=
  ((Sqe.readMultishot self.fd self.offset self.bgid).withUserData id.raw,
    { ring := ring, id := id, bgid := self.bgid, fd := self.fd })

/-- `MultishotRecv::record`. -/
def MultishotRecv.record (self : MultishotRecv) (event : Event) : Except Event Delivery :=
  if event.belongsTo self.ring self.id then .ok (Delivery.fromEvent event) else .error event

/-- `MultishotRead::record`. -/
def MultishotRead.record (self : MultishotRead) (event : Event) : Except Event Delivery :=
  if event.belongsTo self.ring self.id then .ok (Delivery.fromEvent event) else .error event

end Ququmatz
