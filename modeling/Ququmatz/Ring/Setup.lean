import Ququmatz.Ring.Basic
import Ququmatz.Ring.Os

/-!
# `Ququmatz.Ring.Setup`: making a ring, and what owns its parts

`IoUring::from_params` of `src/ring/mod.rs` with the three owners that the parts of a ring
pass through: `NoMmapGuard` of `src/ring/no_mmap.rs`, `SetupGuard` and `RingResources` of
`src/ring/resources.rs`; and `map_rings` of `src/ring/layout.rs`. A guard that goes out of
scope runs its `drop`; here the `drop` is called where the source returns.

`RingResources` lives in a page of its own. A pointer to it is the address of that page, and
each use of a field through the pointer is an access, so that a use after the page is
unmapped would show.

Sizes are `usize`s of 64 bits, on which none of the sums and products can overflow.
-/

set_option autoImplicit false

namespace Ququmatz

open Lib

namespace SetupFlags

def IOPOLL : SetupFlags := ⟨(1 : UInt32) <<< 0⟩
def SQ_AFF : SetupFlags := ⟨(1 : UInt32) <<< 2⟩
def CQSIZE : SetupFlags := ⟨(1 : UInt32) <<< 3⟩
def CLAMP : SetupFlags := ⟨(1 : UInt32) <<< 4⟩
def ATTACH_WQ : SetupFlags := ⟨(1 : UInt32) <<< 5⟩
def R_DISABLED : SetupFlags := ⟨(1 : UInt32) <<< 6⟩
def SUBMIT_ALL : SetupFlags := ⟨(1 : UInt32) <<< 7⟩
def COOP_TASKRUN : SetupFlags := ⟨(1 : UInt32) <<< 8⟩
def TASKRUN_FLAG : SetupFlags := ⟨(1 : UInt32) <<< 9⟩
/-- The caller provides the memory of the rings. -/
def NO_MMAP : SetupFlags := ⟨(1 : UInt32) <<< 14⟩

/-- The flags that the setup path implements. -/
def SUPPORTED_MASK : SetupFlags :=
  ⟨IOPOLL.bits ||| SQPOLL.bits ||| SQ_AFF.bits ||| CQSIZE.bits ||| CLAMP.bits |||
    ATTACH_WQ.bits ||| R_DISABLED.bits ||| SUBMIT_ALL.bits ||| COOP_TASKRUN.bits |||
    TASKRUN_FLAG.bits ||| SINGLE_ISSUER.bits ||| DEFER_TASKRUN.bits ||| NO_MMAP.bits |||
    NO_SQARRAY.bits⟩

end SetupFlags

/-- `Features::SINGLE_MMAP`. -/
def SINGLE_MMAP : UInt32 := (1 : UInt32) <<< 0

/-- `size_of::<IoUringCqe>()`. -/
def sizeofIoUringCqe : Nat := 16

/-- `size_of::<IoUringSqe>()`. -/
def sizeofIoUringSqe : Nat := 64

/-! ### `RingResources` -/

namespace RingResources

/-- `size_of::<RingResources>()`: the count, the descriptor and four regions. -/
def size : Nat := 80

/-- `RingResources::alloc`. -/
def alloc (fd : RawFd) (sqRing cqRing sqesRegion : MappedRegion) : OsProg (Except Error Nat) := do
  let len := (size + 4095) / 4096 * 4096
  match ← call (.mmap len .anonymous) with
  | .error e => return .error (.syscall e)
  | .ok addr => do
      call (.writePage addr
        { refcount := 1, fd := fd, sqRing := sqRing, cqRing := cqRing, sqesRegion := sqesRegion,
          selfPage := ⟨addr, len⟩ })
      return .ok addr

/-- `RingResources::retain`. -/
def retainAt (ptr : Nat) : OsProg Unit := do
  let _ ← call (.fetchAdd ptr)
  return ()

/-- `RingResources::fd`. -/
def fdAt (ptr : Nat) : OsProg RawFd := do
  let res : RingResources ← call (.readPage ptr)
  return res.fd

/-- `RingResources::release`. The fields are read through the reference where they are used;
those of `self_page` are copied out before the page goes. -/
def releaseAt (ptr : Nat) : OsProg Unit := do
  let count : Nat ← call (.fetchSub ptr)
  if count ≠ 1 then
    return ()
  let res : RingResources ← call (.readPage ptr)
  let _ ← call (.munmap res.sqesRegion.addr res.sqesRegion.len)
  let res : RingResources ← call (.readPage ptr)
  if res.cqRing.len > 0 then
    let _ ← call (.munmap res.cqRing.addr res.cqRing.len)
  let res : RingResources ← call (.readPage ptr)
  let _ ← call (.munmap res.sqRing.addr res.sqRing.len)
  let res : RingResources ← call (.readPage ptr)
  let _ ← call (.close res.fd)
  let res : RingResources ← call (.readPage ptr)
  let _ ← call (.munmap res.selfPage.addr res.selfPage.len)
  return ()

end RingResources

/-! ### `SetupGuard` -/

/-- `SetupGuard`. -/
structure SetupGuard where
  fd : RawFd
  sqRing : MappedRegion
  cqRing : MappedRegion
  sqes : MappedRegion
deriving DecidableEq, Repr

namespace SetupGuard

/-- `SetupGuard::new`. -/
def new (fd : RawFd) : SetupGuard where
  fd := fd
  sqRing := ⟨0, 0⟩
  cqRing := ⟨0, 0⟩
  sqes := ⟨0, 0⟩

/-- `Drop for SetupGuard`. -/
def drop (self : SetupGuard) : OsProg Unit := do
  if self.sqes.len > 0 then
    let _ ← call (.munmap self.sqes.addr self.sqes.len)
  if self.cqRing.len > 0 then
    let _ ← call (.munmap self.cqRing.addr self.cqRing.len)
  if self.sqRing.len > 0 then
    let _ ← call (.munmap self.sqRing.addr self.sqRing.len)
  let _ ← call (.close self.fd)
  return ()

end SetupGuard

/-! ### Mapping the rings of a ring descriptor -/

/-- `ring_bytes`. -/
def ringBytes (offset count : UInt32) (elemSize : Nat) : Nat :=
  offset.toNat + count.toNat * elemSize

/-- What `map_rings` returns. -/
structure MappedRings where
  sqRingPtr : Nat
  mmapSz : Nat
  cqRingPtr : Nat
  cqRingRegion : MappedRegion
  sqesPtr : Nat
  sqesSz : Nat
deriving DecidableEq, Repr

/-- Whether the ring has the SQ indirection array. -/
def hasSqArray (setupFlags : UInt32) : Bool :=
  !(⟨setupFlags⟩ : SetupFlags).contains SetupFlags.NO_SQARRAY

/-- `Features::contains(SINGLE_MMAP)`. -/
def isSingleMmap (features : UInt32) : Bool := features &&& SINGLE_MMAP == SINGLE_MMAP

/-- `sq_ring_sz` of `map_rings`. -/
def sqRingSz (params : IoUringParams) (setupFlags : UInt32) : Nat :=
  if hasSqArray setupFlags then ringBytes params.sqOff.array params.sqEntries 4
  else ringBytes params.sqOff.array 0 4

/-- `cq_ring_sz` of `map_rings`. -/
def cqRingSz (params : IoUringParams) : Nat :=
  ringBytes params.cqOff.cqes params.cqEntries sizeofIoUringCqe

/-- `mmap_sz` of `map_rings`. -/
def mmapSz (params : IoUringParams) (features setupFlags : UInt32) : Nat :=
  if isSingleMmap features then max (sqRingSz params setupFlags) (cqRingSz params)
  else sqRingSz params setupFlags

/-- The end of `map_rings`, when the two rings are mapped. -/
def mapSqes (fd : RawFd) (params : IoUringParams) (sqRing : MappedRegion) (cqRingPtr : Nat)
    (cqRingRegion : MappedRegion) (guard : SetupGuard) :
    OsProg (Except Error MappedRings × SetupGuard) := do
  let sqesSz := ringBytes 0 params.sqEntries sizeofIoUringSqe
  match ← call (.mmap sqesSz (.ring fd .sqes)) with
  | .error e => return (.error (.syscall e), guard)
  | .ok sqesPtr =>
      return (.ok ⟨sqRing.addr, sqRing.len, cqRingPtr, cqRingRegion, sqesPtr, sqesSz⟩,
        { guard with sqes := ⟨sqesPtr, sqesSz⟩ })

/-- `map_rings`. The guard comes back with what was mapped. -/
def mapRings (fd : RawFd) (params : IoUringParams) (features setupFlags : UInt32)
    (guard : SetupGuard) : OsProg (Except Error MappedRings × SetupGuard) := do
  match ← call (.mmap (mmapSz params features setupFlags) (.ring fd .sqRing)) with
  | .error e => return (.error (.syscall e), guard)
  | .ok sqRingPtr => do
      let sqRing : MappedRegion := ⟨sqRingPtr, mmapSz params features setupFlags⟩
      let guard := { guard with sqRing := sqRing }
      if isSingleMmap features then
        mapSqes fd params sqRing sqRingPtr ⟨0, 0⟩ guard
      else
        match ← call (.mmap (cqRingSz params) (.ring fd .cqRing)) with
        | .error e => return (.error (.syscall e), guard)
        | .ok ptr =>
            let cqRing : MappedRegion := ⟨ptr, cqRingSz params⟩
            mapSqes fd params sqRing ptr cqRing { guard with cqRing := cqRing }

/-! ### Memory for `NO_MMAP` -/

def IORING_MAX_ENTRIES : UInt32 := 32768
def IORING_MAX_CQ_ENTRIES : UInt32 := 2 * IORING_MAX_ENTRIES
def RINGS_HEADER_SLACK : Nat := 128
def PAGE_SIZE : Nat := 4096

/-- `u32::next_power_of_two`, without overflow checks: past `2^31` it is `0`. -/
def nextPowerOfTwo (n : UInt32) : UInt32 :=
  if n ≤ 1 then 1 else UInt32.ofNat (2 ^ (Nat.log2 (n.toNat - 1) + 1))

/-- `predict_entries`. -/
def predictEntries (requested : UInt32) (params : IoUringParams) : UInt32 × UInt32 :=
  let clamp := (⟨params.flags⟩ : SetupFlags).contains SetupFlags.CLAMP
  let entries :=
    if requested > IORING_MAX_ENTRIES && clamp then IORING_MAX_ENTRIES else requested
  let sqEntries := nextPowerOfTwo entries
  let cqsize := (⟨params.flags⟩ : SetupFlags).contains SetupFlags.CQSIZE
  let cqEntries :=
    if cqsize && params.cqEntries > 0 then
      let cq :=
        if params.cqEntries > IORING_MAX_CQ_ENTRIES && clamp then IORING_MAX_CQ_ENTRIES
        else params.cqEntries
      max (nextPowerOfTwo cq) sqEntries
    else if sqEntries.toNat * 2 < 2 ^ 32 then sqEntries * 2 else 4294967295
  (sqEntries, cqEntries)

/-- `page_align`. -/
def pageAlign (len : Nat) : Nat := (len + (PAGE_SIZE - 1)) / PAGE_SIZE * PAGE_SIZE

/-- `ring_region_size`. -/
def ringRegionSize (sqEntries cqEntries : UInt32) (hasSqArray : Bool) : Nat :=
  let size := RINGS_HEADER_SLACK * 2 + cqEntries.toNat * sizeofIoUringCqe
  let size := if hasSqArray then size + sqEntries.toNat * 4 else size
  pageAlign size + PAGE_SIZE

/-- `sqes_region_size`. -/
def sqesRegionSize (sqEntries : UInt32) : Nat := pageAlign (sqEntries.toNat * sizeofIoUringSqe)

/-- `alloc_anon`. -/
def allocAnon (len : Nat) : OsProg (Except Error MappedRegion) := do
  match ← call (.mmap len .anonymous) with
  | .error e => return .error (.syscall e)
  | .ok addr => return .ok ⟨addr, len⟩

/-- `NoMmapGuard`, and `NoMmapRegions` inside it. -/
structure NoMmapGuard where
  ringRegion : MappedRegion
  sqesRegion : MappedRegion
deriving DecidableEq, Repr

namespace NoMmapGuard

/-- `NoMmapGuard::alloc`. -/
def alloc (entries : UInt32) (params : IoUringParams) :
    OsProg (Except Error (NoMmapGuard × IoUringParams)) := do
  let (sqEntries, cqEntries) := predictEntries entries params
  match ← allocAnon (ringRegionSize sqEntries cqEntries (hasSqArray params.flags)) with
  | .error e => return .error e
  | .ok ringRegion => do
      match ← allocAnon (sqesRegionSize sqEntries) with
      | .error err => do
          let _ ← call (.munmap ringRegion.addr ringRegion.len)
          return .error err
      | .ok sqesRegion =>
          return .ok (⟨ringRegion, sqesRegion⟩,
            { params with
              cqOff := { params.cqOff with userAddr := UInt64.ofNat ringRegion.addr }
              sqOff := { params.sqOff with userAddr := UInt64.ofNat sqesRegion.addr } })

/-- `Drop for NoMmapGuard`. -/
def drop (self : NoMmapGuard) : OsProg Unit := do
  let _ ← call (.munmap self.sqesRegion.addr self.sqesRegion.len)
  let _ ← call (.munmap self.ringRegion.addr self.ringRegion.len)
  return ()

end NoMmapGuard

/-! ### `from_params` -/

/-- An `IoUring` with the addresses that its pointers derive from. -/
structure OsRing where
  ring : IoUring
  cqRingPtr : Nat
  resources : Nat
deriving DecidableEq, Repr

/-- The end of `from_params`, when the rings are mapped and `guard` owns them. -/
def finishSetup (fd : RawFd) (params : IoUringParams) (features setupFlags : UInt32)
    (rings : MappedRings) (guard : SetupGuard) : OsProg (Except Error OsRing) := do
  let parsed : ParsedRings ←
    call (.parseRings rings.sqRingPtr rings.cqRingPtr params (hasSqArray setupFlags))
  match ← RingResources.alloc fd ⟨rings.sqRingPtr, rings.mmapSz⟩ rings.cqRingRegion
      ⟨rings.sqesPtr, rings.sqesSz⟩ with
  | .error e => do
      guard.drop
      return .error e
  | .ok resources =>
      -- `guard` is disarmed: the page owns the parts now.
      return .ok
        { ring :=
            { fd := fd
              sqMask := parsed.sqMask
              sqTailLocal := parsed.sqTailLocal
              sqSubmitted := parsed.sqTailLocal
              cqMask := parsed.cqMask
              cqHeadLocal := parsed.cqHeadLocal
              features := features
              setupFlags := setupFlags
              doTagNext := IoUring.DO_TAG_MARKER }
          cqRingPtr := rings.cqRingPtr
          resources := resources }

/-- `IoUring::from_params`. -/
def fromParams (entries : UInt32) (params : IoUringParams) : OsProg (Except Error OsRing) := do
  let unsupported := params.flags &&& ~~~SetupFlags.SUPPORTED_MASK.bits
  if unsupported ≠ 0 then
    return .error (.setup (.invalidArg (.unsupportedSetupFlags unsupported)))
  let setupFlags := params.flags
  if (⟨setupFlags⟩ : SetupFlags).contains SetupFlags.NO_MMAP then
    match ← NoMmapGuard.alloc entries params with
    | .error e => return .error e
    | .ok (noMmapGuard, params) => do
        match ← call (.ioUringSetup entries params) with
        | .error e => do
            noMmapGuard.drop
            return .error (.syscall e)
        | .ok (fd, params) =>
            -- `disarm` hands the regions over to the new guard.
            let guard :=
              { SetupGuard.new fd with
                sqRing := noMmapGuard.ringRegion
                sqes := noMmapGuard.sqesRegion }
            let rings : MappedRings :=
              { sqRingPtr := noMmapGuard.ringRegion.addr
                mmapSz := noMmapGuard.ringRegion.len
                cqRingPtr := noMmapGuard.ringRegion.addr
                cqRingRegion := ⟨0, 0⟩
                sqesPtr := noMmapGuard.sqesRegion.addr
                sqesSz := noMmapGuard.sqesRegion.len }
            finishSetup fd params params.features setupFlags rings guard
  else
    match ← call (.ioUringSetup entries params) with
    | .error e => return .error (.syscall e)
    | .ok (fd, params) => do
        match ← mapRings fd params params.features setupFlags (SetupGuard.new fd) with
        | (.error e, guard) => do
            guard.drop
            return .error e
        | (.ok rings, guard) =>
            finishSetup fd params params.features setupFlags rings guard

end Ququmatz
