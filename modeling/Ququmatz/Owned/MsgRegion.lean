import Ququmatz.Native
import Ququmatz.Owned.Vectored

/-!
# `Ququmatz.Owned.MsgRegion`: the staging region of a message, byte by byte

`MsgRegion` of `src/owned/msgregion.rs` over the memory of the process. `Ququmatz.Owned.Vectored`
keeps what is staged beside the store; here every method writes the bytes of its own part of
the store, and `kernelWalk` follows the pointers that stand in these bytes, as the kernel does.

A pointer and a `usize` have the width of the target. `repr(C)` leaves gaps after `msg_namelen`
and `msg_flags` where pointers are wider than them; a write of the header leaves the bytes of
the gaps as they were.
-/

set_option autoImplicit false

namespace Ququmatz

open Lib

/-! ### Records in memory -/

/-- `IoVec` on a target. -/
structure Width.IoVec (w : Width) where
  base : Usize w
  len : Usize w
deriving DecidableEq, Repr

/-- `MsgHdr` on a target. -/
structure Width.MsgHdr (w : Width) where
  msgName : Usize w
  msgNamelen : UInt32
  msgIov : Usize w
  msgIovlen : Usize w
  msgControl : Usize w
  msgControllen : Usize w
  msgFlags : Int32
deriving DecidableEq, Repr

namespace Width

/-- `size_of::<MsgHdr>()`: seven pointer-widths. -/
def sizeofMsgHdr (w : Width) : Nat := 7 * w.bytes

/-- `align_of::<MsgHdr>()`. -/
def alignofMsgHdr (w : Width) : Nat := w.bytes

/-- `size_of::<IoVec>()`. -/
def sizeofIoVec (w : Width) : Nat := 2 * w.bytes

/-- `align_of::<IoVec>()`. -/
def alignofIoVec (w : Width) : Nat := w.bytes

/-- `MsgHdr::default`. -/
def MsgHdr.default (w : Width) : w.MsgHdr := ⟨0, 0, 0, 0, 0, 0, 0⟩

section

variable [Native] {w : Width}

/-- The bytes of an `IoVec`. -/
def IoVec.toBytes (self : w.IoVec) : List UInt8 := usizeBytes self.base ++ usizeBytes self.len

/-- The `IoVec` at an address. -/
def IoVec.load (w : Width) (bytes : Nat → UInt8) (addr : Nat) : w.IoVec where
  base := usizeValue w (Bytes.load bytes addr w.bytes)
  len := usizeValue w (Bytes.load bytes (addr + w.bytes) w.bytes)

/-- The fields of a `MsgHdr`, each with its offset. -/
def MsgHdr.fields (self : w.MsgHdr) : List (Nat × List UInt8) :=
  [(0, usizeBytes self.msgName), (w.bytes, u32Bytes self.msgNamelen),
    (2 * w.bytes, usizeBytes self.msgIov), (3 * w.bytes, usizeBytes self.msgIovlen),
    (4 * w.bytes, usizeBytes self.msgControl), (5 * w.bytes, usizeBytes self.msgControllen),
    (6 * w.bytes, i32Bytes self.msgFlags)]

/-- The `MsgHdr` at an address. -/
def MsgHdr.load (w : Width) (bytes : Nat → UInt8) (addr : Nat) : w.MsgHdr where
  msgName := usizeValue w (Bytes.load bytes addr w.bytes)
  msgNamelen := u32Value (Bytes.load bytes (addr + w.bytes) 4)
  msgIov := usizeValue w (Bytes.load bytes (addr + 2 * w.bytes) w.bytes)
  msgIovlen := usizeValue w (Bytes.load bytes (addr + 3 * w.bytes) w.bytes)
  msgControl := usizeValue w (Bytes.load bytes (addr + 4 * w.bytes) w.bytes)
  msgControllen := usizeValue w (Bytes.load bytes (addr + 5 * w.bytes) w.bytes)
  msgFlags := i32Value (Bytes.load bytes (addr + 6 * w.bytes) 4)

end

end Width

/-- `align_of::<SockAddrIn>()`. -/
def alignofSockAddrIn : Nat := 4

namespace SockAddrIn

variable [Native]

/-- The bytes of a `SockAddrIn`; `sin_zero` stands for its eight bytes. -/
def toBytes (self : SockAddrIn) : List UInt8 :=
  u16Bytes self.sinFamily ++ u16Bytes self.sinPort ++ u32Bytes self.sinAddr ++
    u64Bytes self.sinZero

/-- The `SockAddrIn` of sixteen bytes. -/
def ofBytes (bs : List UInt8) : SockAddrIn where
  sinFamily := u16Value (bs.take 2)
  sinPort := u16Value ((bs.drop 2).take 2)
  sinAddr := u32Value ((bs.drop 4).take 4)
  sinZero := u64Value (bs.drop 8)

end SockAddrIn

/-! ### The region -/

/-- What `StableBufferMut` says of the caller's storage: an address and a length. -/
structure Storage (w : Width) where
  addr : Usize w
  len : Nat
  fits : addr.toNat + len ≤ 2 ^ w.bits

/-- The memory of the storage. -/
def Storage.memory {w : Width} (self : Storage w) : Range := ⟨self.addr.toNat, self.len⟩

/-- `MsgRegion`: the storage and the addresses of its parts. -/
structure StagedRegion (w : Width) where
  store : Storage w
  hdr : Usize w
  vecs : Usize w
  name : Usize w
  count : Nat

/-- `MsgRegion::name_offset`. -/
def Width.nameOffset (w : Width) (count : Nat) : Nat := w.sizeofMsgHdr + w.sizeofIoVec * count

/-- `MsgRegion::bytes_for`. -/
def Width.bytesFor (w : Width) (count : Nat) : Nat := w.nameOffset count + sizeofSockAddrIn

/-- A call on a staged region; the index of a descriptor is in range by the caller's
guarantee. -/
inductive RegionCall (w : Width) (count : Nat)
  | writeDescriptor (index : Fin count) (vec : w.IoVec)
  | writeName (addr : SockAddrIn)
  | publishHeader (named : Bool)

namespace StagedRegion

variable {w : Width}

/-- `MsgRegion::stage`. -/
def stage (store : Storage w) (count : Nat) (m : Memory) :
    Except (Storage w × MsgRegionError) (StagedRegion w) × Memory :=
  if count > MAX_IOV then (.error (store, .tooManyDescriptors count MAX_IOV), m)
  else
    let needed := w.bytesFor count
    let got := store.len
    if got < needed then (.error (store, .regionTooSmall needed got), m)
    else
      let base := store.addr
      let align := w.alignofMsgHdr
      if base.toNat % align ≠ 0 then (.error (store, .regionMisaligned align), m)
      else
        (.ok
          { store := store
            hdr := base
            vecs := base + BitVec.ofNat w.bits w.sizeofMsgHdr
            name := base + BitVec.ofNat w.bits (w.nameOffset count)
            count := count }, m)

/-- A staged region is for as many descriptors as were asked for. -/
theorem stage_count {store : Storage w} {count : Nat} {m m' : Memory} {region : StagedRegion w}
    (h : stage store count m = (.ok region, m')) : region.count = count := by
  unfold stage at h
  dsimp only at h
  split at h
  · cases h
  · split at h
    · cases h
    · split at h <;> cases h
      rfl

/-- The header's part of the storage. -/
def hdrRange (self : StagedRegion w) : Range := ⟨self.hdr.toNat, w.sizeofMsgHdr⟩

/-- The part of the descriptors. -/
def vecsRange (self : StagedRegion w) : Range := ⟨self.vecs.toNat, w.sizeofIoVec * self.count⟩

/-- The part of the address. -/
def nameRange (self : StagedRegion w) : Range := ⟨self.name.toNat, sizeofSockAddrIn⟩

variable [Native]

/-- `MsgRegion::write_descriptor`. -/
def writeDescriptor (self : StagedRegion w) (index : Fin self.count) (vec : w.IoVec)
    (m : Memory) : Memory :=
  m.write (self.vecs.toNat + w.sizeofIoVec * index) vec.toBytes

/-- `MsgRegion::write_name`. -/
def writeName (self : StagedRegion w) (addr : SockAddrIn) (m : Memory) : Memory :=
  m.write self.name.toNat addr.toBytes

/-- The header that `MsgRegion::publish_header` writes. -/
def headerFor (self : StagedRegion w) (named : Bool) : w.MsgHdr :=
  let hdr :=
    if named then
      { Width.MsgHdr.default w with
        msgName := self.name, msgNamelen := UInt32.ofNat sizeofSockAddrIn }
    else Width.MsgHdr.default w
  { hdr with msgIov := self.vecs, msgIovlen := BitVec.ofNat w.bits self.count }

/-- `MsgRegion::publish_header`. -/
def publishHeader (self : StagedRegion w) (named : Bool) (m : Memory) : Memory :=
  m.writeAll self.hdr.toNat (self.headerFor named).fields

/-- `MsgRegion::descriptor`. -/
def descriptor (self : StagedRegion w) (index : Nat) (m : Memory) : w.IoVec :=
  Width.IoVec.load w m.bytes (self.vecs.toNat + w.sizeofIoVec * index)

/-- `MsgRegion::staged_name`. -/
def stagedName (self : StagedRegion w) (m : Memory) : SockAddrIn :=
  SockAddrIn.ofBytes (Bytes.load m.bytes self.name.toNat sizeofSockAddrIn)

/-- `MsgRegion::header`. -/
def header (self : StagedRegion w) (m : Memory) : w.MsgHdr :=
  Width.MsgHdr.load w m.bytes self.hdr.toNat

/-- The effect of a call. -/
def call (self : StagedRegion w) (m : Memory) : RegionCall w self.count → Memory
  | .writeDescriptor index vec => self.writeDescriptor index vec m
  | .writeName addr => self.writeName addr m
  | .publishHeader named => self.publishHeader named m

/-- A sequence of calls. -/
def calls (self : StagedRegion w) (cs : List (RegionCall w self.count)) (m : Memory) : Memory :=
  cs.foldl self.call m

end StagedRegion

/-! ### What was written last, and what the kernel reads -/

namespace RegionCall

variable {w : Width} {count : Nat}

/-- The call rewrites descriptor `i`. -/
def vecFor (i : Nat) : RegionCall w count → Option w.IoVec
  | .writeDescriptor index vec => if index.val = i then some vec else none
  | _ => none

/-- The call rewrites the address. -/
def nameFor : RegionCall w count → Option SockAddrIn
  | .writeName addr => some addr
  | _ => none

end RegionCall

/-- What a message header leads to: the descriptors, and the address if there is one. -/
structure KernelMessage (w : Width) where
  vecs : List w.IoVec
  name : Option (List UInt8)
deriving DecidableEq, Repr

/-- Follow `msg_iov` for `msg_iovlen` entries and, if it is not null, `msg_name` for
`msg_namelen` bytes. -/
def kernelWalk [Native] (w : Width) (bytes : Nat → UInt8) (addr : Nat) : KernelMessage w :=
  let hdr := Width.MsgHdr.load w bytes addr
  { vecs := (List.range hdr.msgIovlen.toNat).map fun i =>
      Width.IoVec.load w bytes (hdr.msgIov.toNat + w.sizeofIoVec * i)
    name :=
      if hdr.msgName = 0 then none
      else some (Bytes.load bytes hdr.msgName.toNat hdr.msgNamelen.toNat) }

end Ququmatz
