import Mathlib.Logic.Function.Basic
import Ququmatz.Lib.Bytes
import Ququmatz.Types

/-!
# `Ququmatz.Pool.Basic`: a provided-buffer pool

`ProvidedBufferRing` of `src/ring/pbuf.rs`, its two mapped regions and the operations on
it. The producer ring is an array of `IoUringBuf` entries whose published tail is the
reserved half-word of entry `0`; the backing region is one run of bytes that the slots
divide. `BufferConsumer` is a wrapper whose methods forward here, so it has no type of its
own.

A `panic` of the source is a `Panic` here, and an operation that can panic returns in
`Except Panic`. `produced` is the history of the producer ring: the descriptors that
`recycle_raw` wrote, oldest first.
-/

set_option autoImplicit false

namespace Ququmatz

/-- `MAX_PBUF_RING_ENTRIES`. -/
def MAX_PBUF_RING_ENTRIES : UInt32 := (1 : UInt32) <<< 15

/-- `LEDGER_BYTES`. -/
def LEDGER_BYTES : Nat := MAX_PBUF_RING_ENTRIES.toNat / 8

/-- The panics of the pool's operations. -/
inductive Panic
  /-- The assertion of `recycle`, "buf_id out of range for provided-buffer ring". -/
  | bufIdOutOfRange
  /-- An index past the end of `delivered`. -/
  | ledgerIndex
deriving DecidableEq, Repr

/-- One entry of the producer ring: `IoUringBuf`. -/
structure IoUringBuf where
  addr : UInt64
  len : UInt32
  bid : UInt16
  /-- In entry `0` this is the published tail of the ring. -/
  resv : UInt16
deriving DecidableEq, Repr

/-- `ProvidedBufferRing`, with the contents of its two mappings. -/
structure ProvidedBufferRing where
  fd : RawFd
  bgid : UInt16
  mask : UInt32
  entries : UInt32
  ringAddr : Nat
  ringBytes : Nat
  bufsAddr : Nat
  bufsBytes : Nat
  bufSize : UInt32
  tailLocal : UInt32
  /-- The ledger: `LEDGER_BYTES` bytes, one bit for each possible id. -/
  delivered : Nat → UInt8
  /-- The producer ring in the mapping at `ringAddr`. -/
  ring : Nat → IoUringBuf
  /-- The bytes of the mapping at `bufsAddr`. -/
  bufs : Nat → UInt8
  /-- The descriptors written to the producer ring, oldest first. -/
  produced : List IoUringBuf

/-- `AcknowledgedBuffer`. -/
structure AcknowledgedBuffer where
  bufId : UInt16
  len : UInt32
deriving DecidableEq, Repr

/-- `AcknowledgeError`. -/
inductive AcknowledgeError
  | outOfRange (bufId : UInt16) (len : UInt32)
  | alreadyAcknowledged (bufId : UInt16)
deriving DecidableEq, Repr

/-- `CompletedBuffer`, less the borrow of the pool. -/
structure CompletedBuffer where
  bufId : UInt16
  len : UInt32
deriving DecidableEq, Repr

namespace ProvidedBufferRing

/-! ### The producer ring -/

/-- `ProvidedBufferRing::recycle_raw`: the entry's `resv` is left as it is. -/
def recycleRaw (self : ProvidedBufferRing) (addr : UInt64) (len : UInt32) (bid : UInt16) :
    ProvidedBufferRing :=
  let idx := (self.tailLocal &&& self.mask).toNat
  let entry := { self.ring idx with addr := addr, len := len, bid := bid }
  { self with
    ring := Function.update self.ring idx entry
    tailLocal := self.tailLocal + 1
    produced := self.produced ++ [entry] }

/-- `ProvidedBufferRing::commit`: the store to the tail, in entry `0`. -/
def commit (self : ProvidedBufferRing) : ProvidedBufferRing :=
  let tail := self.tailLocal.toUInt16
  { self with ring := Function.update self.ring 0 { self.ring 0 with resv := tail } }

/-- The address `bufs_addr + buf_id * buf_size` of a slot. -/
def slotAddr (self : ProvidedBufferRing) (bufId : Nat) : UInt64 :=
  UInt64.ofNat (self.bufsAddr + bufId * self.bufSize.toNat)

/-- `ProvidedBufferRing::recycle`. -/
def recycle (self : ProvidedBufferRing) (bufId : UInt16) : Except Panic ProvidedBufferRing :=
  if bufId.toUInt32 < self.entries then
    .ok (self.recycleRaw (self.slotAddr bufId.toNat) self.bufSize bufId)
  else .error .bufIdOutOfRange

/-- `ProvidedBufferRing::recycle_and_commit`. -/
def recycleAndCommit (self : ProvidedBufferRing) (bufId : UInt16) :
    Except Panic ProvidedBufferRing := do
  let self ← self.recycle bufId
  return self.commit

/-! ### Reading a slot -/

/-- `buffer_slice` on the backing region: `len` bytes from the start of the slot. -/
def bufferSlice (base : Nat → UInt8) (entries bufSize : UInt32) (bufId : UInt16)
    (len : UInt32) : Option (List UInt8) :=
  if bufId.toUInt32 ≥ entries ∨ len > bufSize then none
  else
    let off := bufId.toNat * bufSize.toNat
    some (Lib.Bytes.load base off len.toNat)

/-- `ProvidedBufferRing::buffer`. -/
def buffer (self : ProvidedBufferRing) (bufId : UInt16) (len : UInt32) :
    Option (List UInt8) :=
  bufferSlice self.bufs self.entries self.bufSize bufId len

/-- `ProvidedBufferRing::claim`. -/
def claim (self : ProvidedBufferRing) (bufId : UInt16) (len : UInt32) :
    Option CompletedBuffer :=
  if bufId.toUInt32 ≥ self.entries ∨ len > self.bufSize then none
  else some ⟨bufId, len⟩

/-! ### The ledger -/

/-- `ProvidedBufferRing::ledger_get`. -/
def ledgerGet (self : ProvidedBufferRing) (bufId : UInt16) : Except Panic Bool :=
  let byte := bufId.toNat / 8
  let bit := bufId.toNat % 8
  if byte < LEDGER_BYTES then
    .ok (self.delivered byte &&& ((1 : UInt8) <<< UInt8.ofNat bit) != 0)
  else .error .ledgerIndex

/-- `ProvidedBufferRing::ledger_set`. -/
def ledgerSet (self : ProvidedBufferRing) (bufId : UInt16) (value : Bool) :
    Except Panic ProvidedBufferRing :=
  let byte := bufId.toNat / 8
  let bit := bufId.toNat % 8
  if byte < LEDGER_BYTES then
    let old := self.delivered byte
    let new :=
      if value then old ||| ((1 : UInt8) <<< UInt8.ofNat bit)
      else old &&& ~~~((1 : UInt8) <<< UInt8.ofNat bit)
    .ok { self with delivered := Function.update self.delivered byte new }
  else .error .ledgerIndex

/-- `ProvidedBufferRing::acknowledge`. -/
def acknowledge (self : ProvidedBufferRing) (bufId : UInt16) (len : UInt32) :
    Except Panic (Except AcknowledgeError AcknowledgedBuffer × ProvidedBufferRing) := do
  if bufId.toUInt32 ≥ self.entries ∨ len > self.bufSize then
    return (.error (.outOfRange bufId len), self)
  if ← self.ledgerGet bufId then
    return (.error (.alreadyAcknowledged bufId), self)
  let self ← self.ledgerSet bufId true
  return (.ok ⟨bufId, len⟩, self)

/-- `ProvidedBufferRing::recycle_acknowledged`. -/
def recycleAcknowledged (self : ProvidedBufferRing) (token : AcknowledgedBuffer) :
    Except Panic ProvidedBufferRing := do
  let self ← self.ledgerSet token.bufId false
  self.recycle token.bufId

/-- `ProvidedBufferRing::recycle_acknowledged_and_commit`. -/
def recycleAcknowledgedAndCommit (self : ProvidedBufferRing) (token : AcknowledgedBuffer) :
    Except Panic ProvidedBufferRing := do
  let self ← self.recycleAcknowledged token
  return self.commit

end ProvidedBufferRing

namespace CompletedBuffer

/-- `CompletedBuffer::bytes`. -/
def bytes (self : CompletedBuffer) (pool : ProvidedBufferRing) : List UInt8 :=
  (pool.buffer self.bufId self.len).getD []

/-- `Drop for CompletedBuffer`; `CompletedBuffer::recycle_and_commit` is this drop. -/
def drop (self : CompletedBuffer) (pool : ProvidedBufferRing) :
    Except Panic ProvidedBufferRing :=
  pool.recycleAndCommit self.bufId

end CompletedBuffer

end Ququmatz
