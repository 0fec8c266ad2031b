import Ququmatz.Lib.Layout
import Ququmatz.Native
import Ququmatz.Types

/-!
# `Ququmatz.Types.Written`: records that the kernel writes

`StatxTimestamp` and `Statx` of `src/types/fs.rs` and `WaitidSiginfo` of `src/types/waitid.rs`, with
their layouts. None of them has a gap: each is its fields, one right behind the other.
-/

set_option autoImplicit false

namespace Ququmatz

open Lib

/-! ### Words -/

section Words

variable [Native]

/-- A word of `n` bytes. -/
def wordLayout {V : Type} (n : Nat) (toBytes : V → List UInt8) (value : List UInt8 → V)
    (length_toBytes : ∀ v, (toBytes v).length = n) (value_toBytes : ∀ v, value (toBytes v) = v) :
    Layout V where
  size := n
  align := n
  fields := fun v => [(0, toBytes v)]
  load := fun bytes addr => value (Bytes.load bytes addr n)
  apart := fun _ => List.pairwise_singleton _ _
  inside := fun v f hf => by
    rw [List.mem_singleton.mp hf, length_toBytes]
    exact Nat.le_of_eq (Nat.zero_add n)
  load_eq := fun v bytes addr h => by
    have hload := h (0, toBytes v) (List.mem_singleton_self _)
    rw [Nat.add_zero, length_toBytes] at hload
    rw [hload, value_toBytes]

def u16Layout : Layout UInt16 := wordLayout 2 u16Bytes u16Value length_u16Bytes u16Value_u16Bytes

def u32Layout : Layout UInt32 := wordLayout 4 u32Bytes u32Value length_u32Bytes u32Value_u32Bytes

def u64Layout : Layout UInt64 := wordLayout 8 u64Bytes u64Value length_u64Bytes u64Value_u64Bytes

def i32Layout : Layout Int32 := wordLayout 4 i32Bytes i32Value length_i32Bytes i32Value_i32Bytes

def i64Layout : Layout Int64 :=
  u64Layout.iso Int64.toUInt64 UInt64.toInt64 fun _ => Int64.toInt64_toUInt64 _

end Words

/-! ### `statx` -/

/-- `StatxTimestamp`. -/
structure StatxTimestamp where
  tvSec : Int64
  tvNsec : UInt32
  reserved : Int32
deriving DecidableEq, Repr

def StatxTimestamp.layout [Native] : Layout StatxTimestamp :=
  (i64Layout.pair (u32Layout.pair i32Layout)).iso (fun ts => (ts.tvSec, ts.tvNsec, ts.reserved))
    (fun (sec, nsec, reserved) => ⟨sec, nsec, reserved⟩) fun _ => rfl

/-- `Statx`. -/
structure Statx where
  stxMask : UInt32
  stxBlksize : UInt32
  stxAttributes : UInt64
  stxNlink : UInt32
  stxUid : UInt32
  stxGid : UInt32
  stxMode : UInt16
  spare0 : UInt16
  stxIno : UInt64
  stxSize : UInt64
  stxBlocks : UInt64
  stxAttributesMask : UInt64
  stxAtime : StatxTimestamp
  stxBtime : StatxTimestamp
  stxCtime : StatxTimestamp
  stxMtime : StatxTimestamp
  stxRdevMajor : UInt32
  stxRdevMinor : UInt32
  stxDevMajor : UInt32
  stxDevMinor : UInt32
  stxMntId : UInt64
  stxDioMemAlign : UInt32
  stxDioOffsetAlign : UInt32
  spare3 : Fin 12 → UInt64

/-- `Statx` in memory. -/
def Statx.layout [Native] : Layout Statx :=
  let time := StatxTimestamp.layout
  let ids := u32Layout.pair <| u32Layout.pair <| u32Layout.pair <| u16Layout.pair <| u16Layout
  let sizes := u64Layout.pair <| u64Layout.pair <| u64Layout.pair <| u64Layout
  let times := time.pair <| time.pair <| time.pair <| time
  let devices := u32Layout.pair <| u32Layout.pair <| u32Layout.pair <| u32Layout
  let rest := u64Layout.pair <| u32Layout.pair <| u32Layout.pair <| u64Layout.array 12
  let all := u32Layout.pair <| u32Layout.pair <| u64Layout.pair <| ids.pair <| sizes.pair <|
    times.pair <| devices.pair rest
  all.iso
    (fun s => (s.stxMask, s.stxBlksize, s.stxAttributes,
      (s.stxNlink, s.stxUid, s.stxGid, s.stxMode, s.spare0),
      (s.stxIno, s.stxSize, s.stxBlocks, s.stxAttributesMask),
      (s.stxAtime, s.stxBtime, s.stxCtime, s.stxMtime),
      (s.stxRdevMajor, s.stxRdevMinor, s.stxDevMajor, s.stxDevMinor),
      (s.stxMntId, s.stxDioMemAlign, s.stxDioOffsetAlign, s.spare3)))
    (fun (mask, blksize, attributes, (nlink, uid, gid, mode, spare0),
        (ino, size, blocks, attributesMask), (atime, btime, ctime, mtime),
        (rdevMajor, rdevMinor, devMajor, devMinor), (mntId, memAlign, offsetAlign, spare3)) =>
      ⟨mask, blksize, attributes, nlink, uid, gid, mode, spare0, ino, size, blocks,
        attributesMask, atime, btime, ctime, mtime, rdevMajor, rdevMinor, devMajor, devMinor,
        mntId, memAlign, offsetAlign, spare3⟩)
    fun _ => rfl

/-! ### `waitid` -/

/-- `WaitidSiginfo`. -/
structure WaitidSiginfo where
  siSigno : Int32
  siErrno : Int32
  siCode : Int32
  pad0 : Int32
  siPid : Int32
  siUid : UInt32
  siStatus : Int32
  reserved : { bs : List UInt8 // bs.length = 100 }

/-- `WaitidSiginfo` in memory. -/
def WaitidSiginfo.layout [Native] : Layout WaitidSiginfo :=
  (i32Layout.pair <| i32Layout.pair <| i32Layout.pair <| i32Layout.pair <| i32Layout.pair <|
    u32Layout.pair <| i32Layout.pair <| Layout.raw 100).iso
    (fun s => (s.siSigno, s.siErrno, s.siCode, s.pad0, s.siPid, s.siUid, s.siStatus, s.reserved))
    (fun (signo, errno, code, pad0, pid, uid, status, reserved) =>
      ⟨signo, errno, code, pad0, pid, uid, status, reserved⟩)
    fun _ => rfl

end Ququmatz
