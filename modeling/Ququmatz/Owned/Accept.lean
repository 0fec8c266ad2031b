import Ququmatz.Owned.Event

/-!
# `Ququmatz.Owned.Accept`: multishot accept, into descriptors and into table slots

`MultishotAccept` of `src/owned/accept.rs`, `DirectAccept` of `src/owned/direct_accept.rs`
and the slots of `src/owned/slot.rs`. The two tickets have the same shape and adopt
different resources from a completion: a descriptor of the process, or a slot of the ring's
file table.
-/

set_option autoImplicit false

namespace Ququmatz

/-! ### Accepting into descriptors -/

/-- `Socket`, the owner of a descriptor. -/
structure Socket where
  fd : RawFd
deriving DecidableEq, Repr

/-- `AcceptFinished`. -/
structure AcceptFinished where
  receipt : Receipt
  last : Option Socket
deriving DecidableEq, Repr

/-- `Incoming`. -/
inductive Incoming
  | connection (socket : Socket)
  | empty (result : Int32)
  | done (finished : AcceptFinished)
deriving DecidableEq, Repr

/-- `Incoming::into_connection`. -/
def Incoming.intoConnection : Incoming → Option Socket
  | .connection socket => some socket
  | .done finished => finished.last
  | .empty _ => none

/-- `MultishotAccept`. -/
structure MultishotAccept where
  ring : RingId
  id : RequestId
  fd : RawFd
deriving DecidableEq, Repr

namespace MultishotAccept

/-- `MultishotAccept::claim`: a non-negative result is the descriptor. -/
def claim (result : Int32) : Option Socket :=
  if 0 ≤ result then some ⟨⟨result.toUInt32.toNat⟩⟩ else none

/-- `MultishotAccept::record`. -/
def record (self : MultishotAccept) (event : Event) : Except Event Incoming :=
  if event.belongsTo self.ring self.id then
    match event with
    | .part receipt =>
        match claim receipt.result with
        | some socket => .ok (.connection socket)
        | none => .ok (.empty receipt.result)
    | .complete receipt => .ok (.done ⟨receipt, claim receipt.result⟩)
  else .error event

end MultishotAccept

/-! ### Accepting into table slots -/

/-- `SlotIndex`, at most `MAX`. -/
structure SlotIndex where
  raw : UInt32
deriving DecidableEq, Repr

namespace SlotIndex

/-- `SlotIndex::MAX`, `u32::MAX - 2`. -/
def MAX : UInt32 := 0xFFFFFFFF - 2

/-- `SlotIndex::new`. -/
def new (index : UInt32) : Option SlotIndex := if index > MAX then none else some ⟨index⟩

/-- `SlotIndex::get`. -/
def get (self : SlotIndex) : UInt32 := self.raw

end SlotIndex

/-- `SlotTarget`. -/
inductive SlotTarget
  | auto
  | exact (slot : SlotIndex)
deriving DecidableEq, Repr

/-- `SlotTarget::resolve`. -/
def SlotTarget.resolve (self : SlotTarget) (result : Int32) : Option SlotIndex :=
  match self with
  | .exact slot => some slot
  | .auto => if result < 0 then none else SlotIndex.new result.toUInt32

/-- `DirectSlot`. -/
structure DirectSlot where
  index : SlotIndex
  ring : RingId
deriving DecidableEq, Repr

/-- `DirectAcceptFinished`. -/
structure DirectAcceptFinished where
  receipt : Receipt
  last : Option DirectSlot
deriving DecidableEq, Repr

/-- `DirectIncoming`. -/
inductive DirectIncoming
  | installed (slot : DirectSlot)
  | empty (result : Int32)
  | done (finished : DirectAcceptFinished)
deriving DecidableEq, Repr

/-- `DirectIncoming::into_slot`. -/
def DirectIncoming.intoSlot : DirectIncoming → Option DirectSlot
  | .installed slot => some slot
  | .done finished => finished.last
  | .empty _ => none

/-- `DirectAccept`. -/
structure DirectAccept where
  ring : RingId
  id : RequestId
  fd : RawFd
deriving DecidableEq, Repr

namespace DirectAccept

/-- `DirectAccept::claim`. -/
def claim (self : DirectAccept) (result : Int32) : Option DirectSlot :=
  (SlotTarget.auto.resolve result).map fun index => ⟨index, self.ring⟩

/-- `DirectAccept::record`. -/
def record (self : DirectAccept) (event : Event) : Except Event DirectIncoming :=
  if event.belongsTo self.ring self.id then
    match event with
    | .part receipt =>
        match self.claim receipt.result with
        | some slot => .ok (.installed slot)
        | none => .ok (.empty receipt.result)
    | .complete receipt => .ok (.done ⟨receipt, self.claim receipt.result⟩)
  else .error event

end DirectAccept

end Ququmatz
