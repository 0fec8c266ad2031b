import Ququmatz.Pool.Guards

/-!
# `Ququmatz.Pool.Incremental`: how the kernel fills the slots of an incremental pool

With `IOU_PBUF_RING_INC` one slot serves several completions in turn. The kernel writes the
bytes of a completion into the slot right behind those of the completions before it that
carried `BUF_MORE`; a completion without the flag ends the use of the slot, and the next use
starts at its first byte. `Fill` is one completion with the bytes behind it, and `FillSys`
keeps, for each slot, how far its use has come.

The accessors of the crate see the id and the byte count of one completion. `Exposes` says
that all of them return the bytes of a fill; `RightBytes` asks it of every fill, at every
moment at which its slot has not been taken into use anew.
-/

set_option autoImplicit false

namespace Ququmatz

/-- A completion and the bytes that the kernel wrote for it. -/
structure Fill where
  completion : Completion
  data : List UInt8
deriving DecidableEq, Repr

/-- The slot a completion names. -/
def slotOf (cqe : Completion) : UInt16 := cqe.flags.bufferId.getD 0

/-- The kernel goes on filling the slot. -/
def bufMore (cqe : Completion) : Bool := cqe.flags.contains CqeFlags.BUF_MORE

/-- The byte count of a completion. -/
def byteCount (cqe : Completion) : Nat := cqe.result.toInt.toNat

/-- The number of bytes in each slot that belong to its present use. -/
abbrev Offsets := UInt16 → Nat

/-- The offsets after a completion. -/
def Offsets.next (off : Offsets) (cqe : Completion) : Offsets :=
  Function.update off (slotOf cqe)
    (if bufMore cqe then off (slotOf cqe) + byteCount cqe else 0)

/-- A pool and the offsets of its slots. -/
structure FillSys where
  pool : ProvidedBufferRing
  off : Offsets

namespace FillSys

/-- Where the next bytes of a slot go. -/
def start (s : FillSys) (b : UInt16) : Nat := b.toNat * s.pool.bufSize.toNat + s.off b

/-- The kernel writes the bytes of one completion. -/
def fill (s : FillSys) (f : Fill) : FillSys where
  pool :=
    { s.pool with bufs := Lib.Bytes.store s.pool.bufs (s.start (slotOf f.completion)) f.data }
  off := s.off.next f.completion

/-- The kernel writes the bytes of several completions. -/
def fillAll (s : FillSys) (fs : List Fill) : FillSys := fs.foldl fill s

/-- A pool none of whose slots is in use. -/
def init (pool : ProvidedBufferRing) : FillSys := ⟨pool, fun _ => 0⟩

end FillSys

/-- What the kernel can post on a pool of `entries` slots of `bufSize` bytes: an id of a slot,
and a byte count that the rest of the slot holds. -/
def fitting (entries bufSize : UInt32) : List Completion → Offsets → Bool
  | [], _ => true
  | c :: cs, off =>
      c.flags.bufferId.isSome && decide ((slotOf c).toUInt32 < entries) &&
        decide (0 ≤ c.result) &&
        decide (off (slotOf c) + byteCount c ≤ bufSize.toNat) &&
        fitting entries bufSize cs (off.next c)

/-- `buffer`, `claim` with `bytes`, and `record` with `bytes` all return the bytes of `f`. -/
structure Exposes (pool : ProvidedBufferRing) (f : Fill) : Prop where
  buffer : pool.buffer (slotOf f.completion) f.completion.result.toUInt32 = some f.data
  claimed : (claimCompletion pool f.completion).map (·.bytes pool) = some f.data
  recorded : ∀ ring,
    (Delivery.fromEvent (Event.ofCompletion ring f.completion)).bytes pool = some f.data

/-- During the fills `fs` after a completion `c`, its slot is not taken into use anew. -/
def stillHeld (c : Completion) : List Fill → Bool
  | [] => true
  | f :: fs =>
      if slotOf f.completion = slotOf c then bufMore c && stillHeld f.completion fs
      else stillHeld c fs

/-- Each fill is exposed as it was written, as long as its slot is not taken into use
anew. -/
def RightBytes (pool : ProvidedBufferRing) (fs : List Fill) : Prop :=
  ∀ pre f mid post, fs = pre ++ f :: (mid ++ post) → stillHeld f.completion mid = true →
    Exposes ((FillSys.init pool).fillAll (pre ++ f :: mid)).pool f

/-- Every completion with bytes starts a use of its slot. -/
def startsUse : List Completion → Offsets → Bool
  | [], _ => true
  | c :: cs, off =>
      (byteCount c == 0 || off (slotOf c) == 0) && startsUse cs (off.next c)

end Ququmatz
