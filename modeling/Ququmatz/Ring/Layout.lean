import Ququmatz.Native
import Ququmatz.Ring.Setup
import Ququmatz.Ring.System

/-!
# `Ququmatz.Ring.Layout`: parsing the mapped rings

`parse_sq` and `parse_cq` of `src/ring/layout.rs` over the memory of the process, with every
range that they touch. The sizes of the mappings, and `map_rings` itself, are those of
`Ququmatz.Ring.Setup`. Where a `debug_assert!` fails, a build with debug assertions panics; the
accesses up to there have been made.

`RingLayout.Consistent` is what the kernel guarantees of the offsets that it reports.
-/

set_option autoImplicit false

namespace Ququmatz

open Lib

/-- The scalar fields of `IoSqringOffsets`. -/
structure SqOffsets where
  head : UInt32
  tail : UInt32
  ringMask : UInt32
  ringEntries : UInt32
  flags : UInt32
  dropped : UInt32
deriving DecidableEq, Repr

/-- The scalar fields of `IoCqringOffsets`. -/
structure CqOffsets where
  head : UInt32
  tail : UInt32
  ringMask : UInt32
  ringEntries : UInt32
  overflow : UInt32
  flags : UInt32
deriving DecidableEq, Repr

/-- `IoUringParams`, as the kernel filled them in, with all offsets. -/
structure RingLayout where
  params : IoUringParams
  sq : SqOffsets
  cq : CqOffsets
deriving DecidableEq, Repr

/-- What `parse_sq` returns: the addresses of its pointers and the words it has read. -/
structure ParsedSq where
  sqHead : Nat
  sqTail : Nat
  sqMask : UInt32
  sqFlags : Nat
  sqes : Nat
  sqTailLocal : UInt32
deriving DecidableEq, Repr

/-- What `parse_cq` returns. -/
structure ParsedCq where
  cqHead : Nat
  cqTail : Nat
  cqMask : UInt32
  cqes : Nat
  cqHeadLocal : UInt32
deriving DecidableEq, Repr

/-- `debug_assert!(ptr.is_aligned())`, in a build with or without debug assertions. -/
def assertsAligned (debug : Bool) (addr align : Nat) : Bool := !debug || addr % align == 0

namespace RingLayout

variable [Native]

/-- The loop of `parse_sq` that fills the SQ array, from `i` on. -/
def fillIdentity (sqArray : Nat) : Nat → Nat → Memory → Memory
  | 0, _, m => m
  | n + 1, i, m => fillIdentity sqArray n (i + 1) (m.writeU32 (sqArray + 4 * i) (UInt32.ofNat i))

/-- The last lines of `parse_sq`. -/
def finishSq (sqHead sqTail sqFlags sqesPtr : Nat) (sqMask : UInt32) (m : Memory) :
    Option ParsedSq × Memory :=
  let (sqTailLocal, m) := m.readU32 sqTail
  (some ⟨sqHead, sqTail, sqMask, sqFlags, sqesPtr, sqTailLocal⟩, m)

/-- `parse_sq`; `none` is a failed assertion. -/
def parseSq (debug : Bool) (sqRingPtr sqesPtr : Nat) (layout : RingLayout) (hasSqArray : Bool)
    (m : Memory) : Option ParsedSq × Memory :=
  let base := sqRingPtr
  let sqHead := base + layout.sq.head.toNat
  let sqTail := base + layout.sq.tail.toNat
  let (sqMask, m) := m.readU32 (base + layout.sq.ringMask.toNat)
  let sqFlags := base + layout.sq.flags.toNat
  if assertsAligned debug sqHead 4 && assertsAligned debug sqTail 4 &&
      assertsAligned debug sqFlags 4 then
    if hasSqArray then
      let sqArray := base + layout.params.sqOff.array.toNat
      if assertsAligned debug sqArray 4 then
        let m := fillIdentity sqArray layout.params.sqEntries.toNat 0 m
        finishSq sqHead sqTail sqFlags sqesPtr sqMask m
      else (none, m)
    else finishSq sqHead sqTail sqFlags sqesPtr sqMask m
  else (none, m)

/-- `parse_cq`; `none` is a failed assertion. -/
def parseCq (debug : Bool) (cqRingPtr : Nat) (layout : RingLayout) (m : Memory) :
    Option ParsedCq × Memory :=
  let base := cqRingPtr
  let cqHead := base + layout.cq.head.toNat
  let cqTail := base + layout.cq.tail.toNat
  let (cqMask, m) := m.readU32 (base + layout.cq.ringMask.toNat)
  let cqes := base + layout.params.cqOff.cqes.toNat
  if assertsAligned debug cqHead 4 && assertsAligned debug cqTail 4 &&
      assertsAligned debug cqes 8 then
    let (cqHeadLocal, m) := m.readU32 cqHead
    (some ⟨cqHead, cqTail, cqMask, cqes, cqHeadLocal⟩, m)
  else (none, m)

end RingLayout

/-! ### What the kernel guarantees -/

/-- The offsets of the scalar fields of both rings. -/
def RingLayout.scalars (layout : RingLayout) : List UInt32 :=
  [layout.sq.head, layout.sq.tail, layout.sq.ringMask, layout.sq.ringEntries, layout.sq.flags,
    layout.sq.dropped, layout.cq.head, layout.cq.tail, layout.cq.ringMask, layout.cq.ringEntries,
    layout.cq.overflow, layout.cq.flags]

/-- The offsets and counts fit together, whatever the layout. -/
structure RingLayout.Consistent (layout : RingLayout) (features setupFlags : UInt32) : Prop where
  aligned : ∀ off ∈ layout.scalars, off.toNat % 4 = 0
  beforeCqes : ∀ off ∈ layout.scalars, off.toNat + 4 ≤ layout.params.cqOff.cqes.toNat
  beforeArray : hasSqArray setupFlags = true →
    ∀ off ∈ layout.scalars, off.toNat + 4 ≤ layout.params.sqOff.array.toNat
  /-- In one mapping the two arrays share no byte; in two they cannot. -/
  disjoint : hasSqArray setupFlags = true → isSingleMmap features = true →
    layout.params.sqOff.array.toNat + 4 * layout.params.sqEntries.toNat ≤
        layout.params.cqOff.cqes.toNat ∨
      layout.params.cqOff.cqes.toNat + 16 * layout.params.cqEntries.toNat ≤
        layout.params.sqOff.array.toNat
  /-- Without the array the kernel reports the offset zero, and both rings are one mapping. -/
  noSqArray : hasSqArray setupFlags = false →
    layout.params.sqOff.array = 0 ∧ isSingleMmap features = true
  sqPow : ∃ k, layout.params.sqEntries.toNat = 2 ^ k
  cqPow : ∃ k, layout.params.cqEntries.toNat = 2 ^ k

/-! ### The regions, and what the handles index -/

namespace MappedRings

/-- The mapping of the submission ring. -/
def sqRange (rings : MappedRings) : Range := ⟨rings.sqRingPtr, rings.mmapSz⟩

/-- The mapping that the completion ring is in. -/
def cqRange (rings : MappedRings) : Range :=
  if rings.cqRingRegion.len = 0 then ⟨rings.cqRingPtr, rings.mmapSz⟩
  else ⟨rings.cqRingRegion.addr, rings.cqRingRegion.len⟩

/-- The mapping of the SQE array. -/
def sqesRange (rings : MappedRings) : Range := ⟨rings.sqesPtr, rings.sqesSz⟩

end MappedRings

/-- A slot of the SQE array. -/
def ParsedSq.sqeSlot (sq : ParsedSq) (idx : UInt32) : Range :=
  ⟨sq.sqes + sizeofIoUringSqe * idx.toNat, sizeofIoUringSqe⟩

/-- A slot of the CQE array. -/
def ParsedCq.cqeSlot (cq : ParsedCq) (idx : UInt32) : Range :=
  ⟨cq.cqes + sizeofIoUringCqe * idx.toNat, sizeofIoUringCqe⟩

/-- The slot that an access indexes lies in its region. -/
def SlotInside (rings : MappedRings) (sq : ParsedSq) (cq : ParsedCq) : Access → Prop
  | .writeSqe idx _ => (sq.sqeSlot idx).Inside rings.sqesRange
  | .readCqe idx => (cq.cqeSlot idx).Inside rings.cqRange
  | _ => True

/-- A call of the owner that touches the queues, on the handles it has; `none` when it has no
such handle. -/
def Handles.program (h : Handles) : Call → Option (RingProg Handles)
  | .push sqe => (h.push sqe).map fun p => do return (← p).2
  | .flushSqTail => h.flushSqTail.map fun p => do return (← p).2
  | .submit => h.submit.map fun p => do return (← p).2
  | .submitAndWait n => (h.submitAndWait n).map fun p => do return (← p).2
  | .submitSqpoll => h.submitSqpoll.map fun p => do return (← p).2
  | .complete => h.complete.map fun p => do return (← p).2
  | .syncCq => h.syncCq.map fun p => do return (← p).2
  | .wait n => (h.wait n).map fun p => do return (← p).2
  | .nextDoTag => h.nextDoTag.map fun p => do return (← p).2
  | .split => h.split.map fun p => do return (← p).2
  | .dropRing => h.dropRing.map fun p => do return (← p).2
  | .dropSubmitter => h.dropSubmitter.map fun p => do return (← p).2
  | .dropCompleter => h.dropCompleter.map fun p => do return (← p).2
  | .registerPool => some (do perform .retain; return h)
  | .dropPool => some (do perform .release; return h)

/-- A sequence of calls; one for which there is no handle is left out. -/
def Handles.calls : List Call → Handles → RingProg Handles
  | [], h => return h
  | c :: cs, h => do
      let h ← (h.program c).getD (return h)
      calls cs h

end Ququmatz
