import Ququmatz.Lib.Round
import Ququmatz.Native
import Ququmatz.Ring.Setup

/-!
# `Ququmatz.Ring.NoMmap`: the sizes of the `NO_MMAP` regions

The computation in `NoMmapGuard::alloc` of `src/ring/no_mmap.rs` once more, now for any target.
`Ququmatz.Ring.Setup` has it with 64-bit sizes and without overflow checks. Here each operation
takes its exact result and the width of its type to an `Arith`, which says what comes out: on a
target the result itself, a panic or the low bits, over unbounded integers the result itself.

`kernelCounts` and `kernelRingSize` are the kernel's side: the entry counts that
`io_uring_setup` settles on, and the size of the memory that it then uses.
-/

set_option autoImplicit false

namespace Ququmatz

open Lib

/-! ### The computation of the sizes -/

/-- What `NoMmapGuard::alloc` computes before and between its two mappings. -/
structure NoMmapSizes where
  sqEntries : Nat
  cqEntries : Nat
  ringRegion : Nat
  sqesRegion : Nat
deriving DecidableEq, Repr

namespace Arith

variable (fit : Arith) (usize : Width)

/-- `u32::next_power_of_two`. -/
def nextPowerOfTwo (n : Nat) : Option Nat := fit .w32 (ceilPow n)

/-- `predict_entries`. The `saturating_mul` stays in its type by itself. -/
def predictEntries (requested : UInt32) (params : IoUringParams) : Option (Nat × Nat) := do
  let clamp := (⟨params.flags⟩ : SetupFlags).contains SetupFlags.CLAMP
  let entries :=
    if requested > IORING_MAX_ENTRIES && clamp then IORING_MAX_ENTRIES else requested
  let sqEntries ← fit.nextPowerOfTwo entries.toNat
  let cqsize := (⟨params.flags⟩ : SetupFlags).contains SetupFlags.CQSIZE
  if cqsize && params.cqEntries > 0 then
    let cq :=
      if params.cqEntries > IORING_MAX_CQ_ENTRIES && clamp then IORING_MAX_CQ_ENTRIES
      else params.cqEntries
    let cq ← fit.nextPowerOfTwo cq.toNat
    return (sqEntries, max cq sqEntries)
  else
    return (sqEntries, min (sqEntries * 2) 4294967295)

/-- `page_align`, by `usize::next_multiple_of`. -/
def pageAlign (len : Nat) : Option Nat :=
  if len % PAGE_SIZE = 0 then some len else fit usize (len + (PAGE_SIZE - len % PAGE_SIZE))

/-- `ring_region_size`. -/
def ringRegionSize (sqEntries cqEntries : Nat) (hasSqArray : Bool) : Option Nat := do
  let header ← fit usize (RINGS_HEADER_SLACK * 2)
  let cqes ← fit usize (cqEntries * sizeofIoUringCqe)
  let size ← fit usize (header + cqes)
  let size ←
    if hasSqArray then do
      let array ← fit usize (sqEntries * 4)
      fit usize (size + array)
    else pure size
  let aligned ← fit.pageAlign usize size
  fit usize (aligned + PAGE_SIZE)

/-- `sqes_region_size`. -/
def sqesRegionSize (sqEntries : Nat) : Option Nat := do
  let size ← fit usize (sqEntries * sizeofIoUringSqe)
  fit.pageAlign usize size

/-- The sizes in `NoMmapGuard::alloc`. -/
def allocSizes (entries : UInt32) (params : IoUringParams) : Option NoMmapSizes := do
  let (sqEntries, cqEntries) ← fit.predictEntries entries params
  let ringRegion ← fit.ringRegionSize usize sqEntries cqEntries (hasSqArray params.flags)
  let sqesRegion ← fit.sqesRegionSize usize sqEntries
  return ⟨sqEntries, cqEntries, ringRegion, sqesRegion⟩

end Arith

/-- `NoMmapGuard::alloc` on the target: `none` when it panics. -/
def Target.allocSizes (t : Target) (entries : UInt32) (params : IoUringParams) :
    Option NoMmapSizes :=
  t.arith.allocSizes t.usize entries params

/-- The computation on the target neither panics nor wraps: it is the one over unbounded
integers. -/
def Target.SizesExact (t : Target) (entries : UInt32) (params : IoUringParams) : Prop :=
  t.allocSizes entries params = Arith.unbounded.allocSizes t.usize entries params

/-- The most entries that can be asked for without `CLAMP`. -/
def Target.maxSqEntries (t : Target) : Nat :=
  match t.usize with
  | .w32 => 2 ^ 25
  | .w64 => 2 ^ 31

/-- The most completion entries that can be asked for without `CLAMP`. -/
def Target.maxCqEntries (t : Target) : Nat :=
  match t.usize with
  | .w32 => 2 ^ 27
  | .w64 => 2 ^ 31

/-- Either the flag cuts the counts down, or the caller has kept to them. -/
def Target.Moderate (t : Target) (entries : UInt32) (params : IoUringParams) : Prop :=
  (⟨params.flags⟩ : SetupFlags).contains SetupFlags.CLAMP = true ∨
    (entries.toNat ≤ t.maxSqEntries ∧
      ((⟨params.flags⟩ : SetupFlags).contains SetupFlags.CQSIZE = true →
        params.cqEntries.toNat ≤ t.maxCqEntries))

instance (t : Target) (entries : UInt32) (params : IoUringParams) :
    Decidable (t.Moderate entries params) :=
  inferInstanceAs (Decidable (_ ∨ (_ ∧ (_ → _))))

/-! ### The kernel -/

/-- A count that is too large is cut down under `CLAMP` and rejected otherwise. -/
def kernelLimit (clamp : Bool) (max n : Nat) : Option Nat :=
  if n = 0 then none else if n ≤ max then some n else if clamp then some max else none

/-- The counts that `io_uring_setup` settles on; `none` when it rejects the request. -/
def kernelCounts (entries : UInt32) (params : IoUringParams) : Option (Nat × Nat) := do
  let clamp := (⟨params.flags⟩ : SetupFlags).contains SetupFlags.CLAMP
  let sq ← kernelLimit clamp 32768 entries.toNat
  let sqEntries := ceilPow sq
  if (⟨params.flags⟩ : SetupFlags).contains SetupFlags.CQSIZE then
    let cq ← kernelLimit clamp 65536 params.cqEntries.toNat
    let cqEntries := ceilPow cq
    if cqEntries < sqEntries then none else some (sqEntries, cqEntries)
  else
    some (sqEntries, 2 * sqEntries)

/-- The size of the kernel's rings, with a header of `header` bytes: the completion entries
after it, and the SQ array at the next boundary of 64 bytes. -/
def kernelRingSize (header sqEntries cqEntries : Nat) (hasSqArray : Bool) : Nat :=
  let cqes := header + 16 * cqEntries
  if hasSqArray then alignUp 64 cqes + 4 * sqEntries else cqes

end Ququmatz
