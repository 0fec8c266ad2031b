import Ququmatz.Lib.Range
import Ququmatz.Native
import Ququmatz.Pool.Register

/-!
# `Ququmatz.Pool.Slices`: where the slots of a pool lie in memory

The addresses that `register_provided_buffers_on` and `recycle` write into the producer ring, and
the slices of `buffer_slice` and `buffer_slice_mut`, all of `src/ring/pbuf.rs`, once more and now
for any target. `Ququmatz.Pool.Basic` has them without overflow. Here each product and each sum
goes through the arithmetic of a `Target`, and `none` is the panic of an overflow check. A pointer
that is moved wraps like a `usize`.

A slice is its range of addresses here. In a run of a pool the application recycles and publishes
slots and writes the ledger, and whoever has a slot writes to its bytes.
-/

set_option autoImplicit false

namespace Ququmatz

open Lib

namespace Target

variable (t : Target)

/-- `(buf_id as usize) * (buf_size as usize)`. -/
def slotOffset (bufSize : UInt32) (bufId : Nat) : Option Nat :=
  t.arith t.usize (bufId * bufSize.toNat)

/-- `buffer_slice`. -/
def bufferSlice (base : Nat) (entries bufSize : UInt32) (bufId : UInt16) (len : UInt32) :
    Option (Option Range) :=
  if bufId.toUInt32 ≥ entries ∨ len > bufSize then some none
  else do
    let off ← t.slotOffset bufSize bufId.toNat
    return some ⟨(base + off) % 2 ^ t.usize.bits, len.toNat⟩

/-- `buffer_slice_mut`, which has the same body. -/
def bufferSliceMut (base : Nat) (entries bufSize : UInt32) (bufId : UInt16) (len : UInt32) :
    Option (Option Range) :=
  t.bufferSlice base entries bufSize bufId len

end Target

/-- The bytes that a descriptor offers to the kernel. -/
def IoUringBuf.range (e : IoUringBuf) : Range := ⟨e.addr.toNat, e.len.toNat⟩

namespace ProvidedBufferRing

/-- The mapping at `bufsAddr`. -/
def backing (self : ProvidedBufferRing) : Range := ⟨self.bufsAddr, self.bufsBytes⟩

/-- The address of a slot, as the loop of the registration and `recycle` both compute it. -/
def slotAddrOn (t : Target) (self : ProvidedBufferRing) (bufId : Nat) : Option UInt64 := do
  let off ← t.slotOffset self.bufSize bufId
  let addr ← t.arith t.usize (self.bufsAddr + off)
  return UInt64.ofNat addr

/-- One round of the loop that populates the ring. -/
def populateOneOn (t : Target) (self : ProvidedBufferRing) (i : Nat) :
    Option ProvidedBufferRing := do
  let addr ← self.slotAddrOn t i
  return self.recycleRaw addr self.bufSize (UInt16.ofNat i)

/-- The loop that populates the ring. -/
def populateOn (t : Target) (self : ProvidedBufferRing) (count : Nat) :
    Option ProvidedBufferRing :=
  (List.range count).foldlM (populateOneOn t) self

/-- `ProvidedBufferRing::recycle`: beside the overflow checks there is its own assertion. -/
def recycleOn (t : Target) (self : ProvidedBufferRing) (bufId : UInt16) :
    Option (Except Panic ProvidedBufferRing) :=
  if bufId.toUInt32 < self.entries then do
    let addr ← self.slotAddrOn t bufId.toNat
    return .ok (self.recycleRaw addr self.bufSize bufId)
  else some (.error .bufIdOutOfRange)

/-- `ProvidedBufferRing::buffer`. -/
def bufferOn (t : Target) (self : ProvidedBufferRing) (bufId : UInt16) (len : UInt32) :
    Option (Option Range) :=
  t.bufferSlice self.bufsAddr self.entries self.bufSize bufId len

/-- `ProvidedBufferRing::buffer_mut`. -/
def bufferMutOn (t : Target) (self : ProvidedBufferRing) (bufId : UInt16) (len : UInt32) :
    Option (Option Range) :=
  t.bufferSliceMut self.bufsAddr self.entries self.bufSize bufId len

end ProvidedBufferRing

/-- What changes a pool. `acknowledge` writes the ledger, `recycle_acknowledged` writes it and
recycles, and the calls that publish at once commit behind that. -/
inductive PoolAction
  | recycle (bufId : UInt16)
  | commit
  | ledgerSet (bufId : UInt16) (value : Bool)
  /-- The kernel or the holder of a slice writes to the backing region. -/
  | write (bufs : Nat → UInt8)

namespace ProvidedBufferRing

/-- The effect of an action on a target; `none` when the call panics. -/
def actOn (t : Target) (self : ProvidedBufferRing) : PoolAction → Option ProvidedBufferRing
  | .recycle bufId => (self.recycleOn t bufId).bind Except.toOption
  | .commit => some self.commit
  | .ledgerSet bufId value => (self.ledgerSet bufId value).toOption
  | .write bufs => some { self with bufs := bufs }

/-- A run of a pool. -/
def runOn (t : Target) : List PoolAction → ProvidedBufferRing → Option ProvidedBufferRing
  | [], self => some self
  | a :: as, self => (self.actOn t a).bind (runOn t as)

end ProvidedBufferRing

end Ququmatz
