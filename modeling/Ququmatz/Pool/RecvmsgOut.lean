import Ququmatz.Lib.Indexing
import Ququmatz.Native
import Ququmatz.Pool.Basic

/-!
# `Ququmatz.Pool.RecvmsgOut`: the buffers of a multishot `recvmsg`

`RecvmsgOut::parse` of `src/types/net.rs` and `ProvidedBufferRing::recvmsg_parts` of
`src/ring/pbuf.rs`. The kernel puts a header of four words in front of the name, the control data
and the payload; the name and the control data get the widths that the request reserved, whatever
lengths the header reports.

An index, a range or a sum that is out of bounds is a `Indexing.Panic` here. The bytes of a slice
borrowed from the buffer stand for the slice.
-/

set_option autoImplicit false

namespace Ququmatz

open Lib

/-- `a.checked_add(b)` on `usize`. -/
def Target.checkedAdd (t : Target) (a b : Nat) : Option Nat :=
  if a + b < 2 ^ t.usize.bits then some (a + b) else none

/-- `a + b` on `usize`. -/
def Target.add (t : Target) (a b : Nat) : Except Indexing.Panic Nat :=
  match t.arith t.usize (a + b) with
  | some n => .ok n
  | none => .error .overflow

/-- A `&[u8]`: its length is a `usize`. -/
structure ByteSlice (w : Width) where
  bytes : List UInt8
  fits : bytes.length < 2 ^ w.bits

/-- `RecvmsgOut`. -/
structure RecvmsgOut where
  namelen : UInt32
  controllen : UInt32
  payloadlen : UInt32
  flags : UInt32
deriving DecidableEq, Repr

/-- `RecvmsgParts`. -/
structure RecvmsgParts where
  header : RecvmsgOut
  name : List UInt8
  control : List UInt8
  payload : List UInt8
deriving DecidableEq, Repr

namespace RecvmsgOut

/-- `RecvmsgOut::SIZE`. -/
def SIZE : Nat := 16

section Parsing

variable [Native]

/-- The header as the kernel writes it: the four fields, with no gap. -/
def toBytes (header : RecvmsgOut) : List UInt8 :=
  u32Bytes header.namelen ++ u32Bytes header.controllen ++ u32Bytes header.payloadlen
    ++ u32Bytes header.flags

/-- `RecvmsgOut::read_u32`. -/
def readU32 (t : Target) (buf : List UInt8) (off : Nat) : Except Indexing.Panic UInt32 := do
  let b0 ← Indexing.get buf off
  let b1 ← Indexing.get buf (← t.add off 1)
  let b2 ← Indexing.get buf (← t.add off 2)
  let b3 ← Indexing.get buf (← t.add off 3)
  return u32Value [b0, b1, b2, b3]

/-- `RecvmsgOut::parse`. A `u32` fits a `usize` of either width. -/
def parse (t : Target) (buf : ByteSlice t.usize) (msgNamelen msgControllen : UInt32) :
    Except Indexing.Panic (Option RecvmsgParts) := do
  let buf := buf.bytes
  let nameReserved := msgNamelen.toNat
  let ctrlReserved := msgControllen.toNat
  match (t.checkedAdd SIZE nameReserved).bind (t.checkedAdd · ctrlReserved) with
  | none => return none
  | some fixed =>
      if buf.length < fixed then
        return none
      else
        let namelen ← readU32 t buf 0
        let controllen ← readU32 t buf 4
        let payloadlen ← readU32 t buf 8
        let flags ← readU32 t buf 12
        let nameLen := min namelen.toNat nameReserved
        let ctrlLen := min controllen.toNat ctrlReserved
        let nameStart := SIZE
        let ctrlStart ← t.add nameStart nameReserved
        let payloadStart ← t.add ctrlStart ctrlReserved
        let name ← Indexing.range buf nameStart (← t.add nameStart nameLen)
        let control ← Indexing.range buf ctrlStart (← t.add ctrlStart ctrlLen)
        let payload ← Indexing.rangeFrom buf payloadStart
        return some ⟨⟨namelen, controllen, payloadlen, flags⟩, name, control, payload⟩

end Parsing

end RecvmsgOut

/-! ### The delivered slot -/

theorem ProvidedBufferRing.length_buffer {ring : ProvidedBufferRing} {bufId : UInt16}
    {len : UInt32} {bytes : List UInt8} (h : ring.buffer bufId len = some bytes) :
    bytes.length = len.toNat := by
  rw [ProvidedBufferRing.buffer, ProvidedBufferRing.bufferSlice] at h
  split at h
  · exact absurd h (by simp)
  · rw [← Option.some.inj h, Bytes.length_load]

theorem ByteSlice.fits_of_u32 (w : Width) (len : UInt32) : len.toNat < 2 ^ w.bits := by
  cases w with
  | w32 => exact len.toNat_lt
  | w64 => exact Nat.lt_trans len.toNat_lt (by decide)

/-- `ProvidedBufferRing::buffer`, with the length that it has. -/
def ProvidedBufferRing.slot (ring : ProvidedBufferRing) (w : Width) (bufId : UInt16)
    (len : UInt32) : Option (ByteSlice w) :=
  match h : ring.buffer bufId len with
  | none => none
  | some bytes =>
      some ⟨bytes, by
        rw [ProvidedBufferRing.length_buffer h]
        exact ByteSlice.fits_of_u32 w len⟩

/-- `ProvidedBufferRing::recvmsg_parts`; `BufferConsumer::recvmsg_parts` does the same on the
pool that it wraps. -/
def ProvidedBufferRing.recvmsgParts [Native] (t : Target) (ring : ProvidedBufferRing)
    (bufId : UInt16) (len msgNamelen msgControllen : UInt32) :
    Except Indexing.Panic (Option RecvmsgParts) :=
  match ring.slot t.usize bufId len with
  | none => .ok none
  | some buf => RecvmsgOut.parse t buf msgNamelen msgControllen

end Ququmatz
