import Ququmatz.Lib.Layout
import Ququmatz.Native
import Ququmatz.Types

/-!
# `Ququmatz.Types.Fs`: opening files

`OpenFlags`, `FileMode`, `DirFd`, `OpenHow` and `ResolveFlags` of `src/types/fs.rs`. The module
imposes no restriction on the values of a flag type: every `u32`, or `u64`, is one.
-/

set_option autoImplicit false

namespace Ququmatz

open Lib

abbrev OpenFlags := Bitflags .fileOpen
abbrev FileMode := Bitflags .fileMode

namespace OpenFlags

def WRONLY : OpenFlags := ⟨1⟩
def RDWR : OpenFlags := ⟨2⟩
def CREAT : OpenFlags := ⟨0o100⟩
def EXCL : OpenFlags := ⟨0o200⟩
def TRUNC : OpenFlags := ⟨0o1000⟩
def APPEND : OpenFlags := ⟨0o2000⟩
def NONBLOCK : OpenFlags := ⟨0o4000⟩
def DIRECT : OpenFlags := ⟨0o40000⟩
def NOFOLLOW : OpenFlags := ⟨0o400000⟩
def CLOEXEC : OpenFlags := ⟨0o2000000⟩
def DIRECTORY : OpenFlags := ⟨0o200000⟩
def PATH : OpenFlags := ⟨0o10000000⟩
def TMPFILE : OpenFlags := ⟨0o20200000⟩

/-- The constants of the type. -/
def named : List OpenFlags :=
  [WRONLY, RDWR, CREAT, EXCL, TRUNC, APPEND, NONBLOCK, DIRECT, NOFOLLOW, CLOEXEC, DIRECTORY,
    PATH, TMPFILE]

end OpenFlags

/-- `AT_FDCWD`. -/
def AT_FDCWD : Int32 := -100

/-- `DirFd`. -/
inductive DirFd
  | cwd
  | fd (dir : RawFd)
deriving DecidableEq, Repr

/-- `DirFd::as_raw`. -/
def DirFd.asRaw : DirFd → Int32
  | .cwd => AT_FDCWD
  | .fd dir => dir.asI32

/-- `ResolveFlags`, a newtype over `u64` with the operators of `bitflags!`. -/
structure ResolveFlags where
  bits : UInt64
deriving DecidableEq, Repr

namespace ResolveFlags

instance : EmptyCollection ResolveFlags := ⟨⟨0⟩⟩

instance : OrOp ResolveFlags := ⟨fun a b => ⟨a.bits ||| b.bits⟩⟩

instance : AndOp ResolveFlags := ⟨fun a b => ⟨a.bits &&& b.bits⟩⟩

instance : Complement ResolveFlags := ⟨fun a => ⟨~~~a.bits⟩⟩

def NO_XDEV : ResolveFlags := ⟨0x01⟩
def NO_MAGICLINKS : ResolveFlags := ⟨0x02⟩
def NO_SYMLINKS : ResolveFlags := ⟨0x04⟩
def BENEATH : ResolveFlags := ⟨0x08⟩
def IN_ROOT : ResolveFlags := ⟨0x10⟩
def CACHED : ResolveFlags := ⟨0x20⟩

/-- The constants of the type. -/
def named : List ResolveFlags :=
  [NO_XDEV, NO_MAGICLINKS, NO_SYMLINKS, BENEATH, IN_ROOT, CACHED]

end ResolveFlags

/-- `OpenHow`. -/
structure OpenHow where
  flags : UInt64
  mode : UInt64
  resolve : UInt64
deriving DecidableEq, Repr

/-- `OpenHow` in memory: three words of eight bytes. -/
def OpenHow.layout [Native] : Layout OpenHow where
  size := 24
  align := 8
  fields := fun how => [(0, u64Bytes how.flags), (8, u64Bytes how.mode), (16, u64Bytes how.resolve)]
  load := fun bytes addr =>
    { flags := u64Value (Bytes.load bytes addr 8)
      mode := u64Value (Bytes.load bytes (addr + 8) 8)
      resolve := u64Value (Bytes.load bytes (addr + 16) 8) }
  apart := fun how => by simp [Bytes.FieldsApart]
  inside := fun how => by simp
  load_eq := fun how bytes addr h => by
    simp only [List.forall_mem_cons, length_u64Bytes] at h
    obtain ⟨hflags, hmode, hresolve, -⟩ := h
    rw [Nat.add_zero] at hflags
    rw [hflags, hmode, hresolve, u64Value_u64Bytes, u64Value_u64Bytes, u64Value_u64Bytes]

end Ququmatz
