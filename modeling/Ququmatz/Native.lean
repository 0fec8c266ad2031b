import Ququmatz.Lib.Bytes
import Ququmatz.Lib.Words
import Ququmatz.Lib.Range

/-!
# `Ququmatz.Native`: words in memory

Integers as the bytes that the target stores for them, in its own byte order: `to_ne_bytes` and
`from_ne_bytes`; a `usize` or a pointer has the width of the target. A `Target` says what comes
out of an operation whose exact result and width are known. `Memory` is the memory of the process
with a record of the ranges that were read and written.
-/

set_option autoImplicit false

namespace Ququmatz

open Lib

/-- The width of an integer type. -/
inductive Width
  | w32
  | w64
deriving DecidableEq, Repr

def Width.bits : Width → Nat
  | .w32 => 32
  | .w64 => 64

/-- The bytes of the type. -/
def Width.bytes : Width → Nat
  | .w32 => 4
  | .w64 => 8

/-- A `usize`, or a pointer, on a target of the given width. -/
abbrev Usize (w : Width) := BitVec w.bits

/-- `ptr as u64` keeps a pointer of either width. -/
theorem toNat_ptr_asU64 {w : Width} (ptr : Usize w) :
    (UInt64.ofNat ptr.toNat).toNat = ptr.toNat := by
  refine UInt64.toNat_ofNat_of_lt' (Nat.lt_of_lt_of_le ptr.isLt ?_)
  cases w with
  | w32 => decide
  | w64 => decide

/-- What an operation gives, of which the exact result and the width of the type are known.
`none` is a panic. -/
abbrev Arith := Width → Nat → Option Nat

/-- The operations over unbounded integers. -/
def Arith.unbounded : Arith := fun _ n => some n

/-- A target: its `usize`, and whether arithmetic is compiled with overflow checks. -/
structure Target where
  usize : Width
  overflowChecks : Bool
deriving DecidableEq, Repr

/-- The operations on a target. -/
def Target.arith (t : Target) : Arith := fun w n =>
  if n < 2 ^ w.bits then some n
  else if t.overflowChecks then none
  else some (n % 2 ^ w.bits)

/-- A result that fits its type comes out as it is. -/
theorem Target.arith_of_lt {t : Target} {w : Width} {n : Nat} (h : n < 2 ^ w.bits) :
    t.arith w n = some n := if_pos h

/-- The byte order of the target. -/
class Native where
  endian : Endian

section Words

variable [Native]

def u16Bytes (v : UInt16) : List UInt8 := Words.bytes Native.endian 2 v.toNat

def u16Value (bs : List UInt8) : UInt16 := UInt16.ofNat (Words.value Native.endian bs)

def u32Bytes (v : UInt32) : List UInt8 := Words.bytes Native.endian 4 v.toNat

def u32Value (bs : List UInt8) : UInt32 := UInt32.ofNat (Words.value Native.endian bs)

def u64Bytes (v : UInt64) : List UInt8 := Words.bytes Native.endian 8 v.toNat

def u64Value (bs : List UInt8) : UInt64 := UInt64.ofNat (Words.value Native.endian bs)

def usizeBytes {w : Width} (v : Usize w) : List UInt8 := Words.bytes Native.endian w.bytes v.toNat

def usizeValue (w : Width) (bs : List UInt8) : Usize w :=
  BitVec.ofNat w.bits (Words.value Native.endian bs)

def i32Bytes (v : Int32) : List UInt8 := u32Bytes v.toUInt32

def i32Value (bs : List UInt8) : Int32 := (u32Value bs).toInt32

@[simp] theorem length_u16Bytes (v : UInt16) : (u16Bytes v).length = 2 := Words.length_bytes _ _ _

@[simp] theorem length_u32Bytes (v : UInt32) : (u32Bytes v).length = 4 := Words.length_bytes _ _ _

@[simp] theorem length_u64Bytes (v : UInt64) : (u64Bytes v).length = 8 := Words.length_bytes _ _ _

@[simp] theorem length_usizeBytes {w : Width} (v : Usize w) : (usizeBytes v).length = w.bytes :=
  Words.length_bytes _ _ _

@[simp] theorem length_i32Bytes (v : Int32) : (i32Bytes v).length = 4 := Words.length_bytes _ _ _

@[simp] theorem u16Value_u16Bytes (v : UInt16) : u16Value (u16Bytes v) = v := by
  rw [u16Value, u16Bytes, Words.value_bytes _ v.toNat_lt, UInt16.ofNat_toNat]

@[simp] theorem u32Value_u32Bytes (v : UInt32) : u32Value (u32Bytes v) = v := by
  rw [u32Value, u32Bytes, Words.value_bytes _ v.toNat_lt, UInt32.ofNat_toNat]

@[simp] theorem u64Value_u64Bytes (v : UInt64) : u64Value (u64Bytes v) = v := by
  rw [u64Value, u64Bytes, Words.value_bytes _ v.toNat_lt, UInt64.ofNat_toNat]

theorem u16Bytes_u16Value {bs : List UInt8} (h : bs.length = 2) : u16Bytes (u16Value bs) = bs := by
  have hlt := Words.value_lt Native.endian h
  rw [u16Bytes, u16Value, UInt16.toNat_ofNat_of_lt' hlt, Words.bytes_value _ h]

theorem u32Bytes_u32Value {bs : List UInt8} (h : bs.length = 4) : u32Bytes (u32Value bs) = bs := by
  have hlt := Words.value_lt Native.endian h
  rw [u32Bytes, u32Value, UInt32.toNat_ofNat_of_lt' hlt, Words.bytes_value _ h]

theorem u64Bytes_u64Value {bs : List UInt8} (h : bs.length = 8) : u64Bytes (u64Value bs) = bs := by
  have hlt := Words.value_lt Native.endian h
  rw [u64Bytes, u64Value, UInt64.toNat_ofNat_of_lt' hlt, Words.bytes_value _ h]

@[simp] theorem usizeValue_usizeBytes {w : Width} (v : Usize w) :
    usizeValue w (usizeBytes v) = v := by
  have hlt : v.toNat < 256 ^ w.bytes := by
    cases w with
    | w32 => exact v.isLt
    | w64 => exact v.isLt
  rw [usizeValue, usizeBytes, Words.value_bytes _ hlt, BitVec.ofNat_toNat, BitVec.setWidth_eq]

@[simp] theorem i32Value_i32Bytes (v : Int32) : i32Value (i32Bytes v) = v := by
  rw [i32Value, i32Bytes, u32Value_u32Bytes, Int32.toInt32_toUInt32]

end Words

/-- The memory of the process, and the ranges that were read and written. -/
structure Memory where
  bytes : Nat → UInt8
  reads : List Range
  writes : List Range

namespace Memory

/-- A memory of which nothing was touched yet. -/
def of (bytes : Nat → UInt8) : Memory where
  bytes := bytes
  reads := []
  writes := []

/-- Read `len` bytes. -/
def read (m : Memory) (addr len : Nat) : List UInt8 × Memory :=
  (Bytes.load m.bytes addr len, { m with reads := m.reads ++ [⟨addr, len⟩] })

/-- Write bytes. -/
def write (m : Memory) (addr : Nat) (data : List UInt8) : Memory :=
  { m with
    bytes := Bytes.store m.bytes addr data
    writes := m.writes ++ [⟨addr, data.length⟩] }

/-- Write the fields of a record, each at its offset; the gaps between them stay. -/
def writeAll (m : Memory) (addr : Nat) (fields : List (Nat × List UInt8)) : Memory :=
  fields.foldl (fun m f => m.write (addr + f.1) f.2) m

variable [Native]

/-- Read a word of 32 bits. -/
def readU32 (m : Memory) (addr : Nat) : UInt32 × Memory :=
  let (data, m) := m.read addr 4
  (u32Value data, m)

/-- Write a word of 32 bits. -/
def writeU32 (m : Memory) (addr : Nat) (v : UInt32) : Memory := m.write addr (u32Bytes v)

end Memory

end Ququmatz
