import Mathlib.Algebra.Group.Nat.Defs

/-!
# `Ququmatz.Types`: the kernel-domain types of the crate

The parts of `src/types/` and `src/error.rs` that the modelled functions read and return:
the submission and completion queue entries with all their fields, the flag newtypes of
the `bitflags!` macro, file descriptors, and the error enums. Fixed-width integers keep
their width; `usize` is `Nat` where no operation on it can overflow.
-/

set_option autoImplicit false

namespace Ququmatz

/-! ### Flag newtypes -/

/-- The flag types that `bitflags!` generates over a `u32`. -/
inductive FlagKind
  | cqe
  | enter
  | setup
  | msg
  | msgRing
  | fileOpen
  | fileMode
  | timeout
  | epollEvents
  | accept
  | socket
  | futex2
deriving DecidableEq, Repr

/-- One `bitflags!` newtype: a raw `u32`, any value of which can be held. -/
structure Bitflags (kind : FlagKind) where
  bits : UInt32
deriving DecidableEq, Repr

namespace Bitflags

variable {kind : FlagKind}

/-- `contains`: all bits of `flag` are set. -/
def contains (self flag : Bitflags kind) : Bool := self.bits &&& flag.bits == flag.bits

/-- `empty`: the flags with no bit set. -/
def empty : Bitflags kind := ⟨0⟩

instance : EmptyCollection (Bitflags kind) := ⟨empty⟩

/-- `union_const`, and the operator `|`. -/
instance : OrOp (Bitflags kind) := ⟨fun a b => ⟨a.bits ||| b.bits⟩⟩

/-- The operator `&`. -/
instance : AndOp (Bitflags kind) := ⟨fun a b => ⟨a.bits &&& b.bits⟩⟩

/-- The operator `!`, which sets every bit that the value has not. -/
instance : Complement (Bitflags kind) := ⟨fun a => ⟨~~~a.bits⟩⟩

end Bitflags

abbrev CqeFlags := Bitflags .cqe
abbrev EnterFlags := Bitflags .enter
abbrev SetupFlags := Bitflags .setup
abbrev MsgFlags := Bitflags .msg
abbrev MsgRingFlags := Bitflags .msgRing

namespace CqeFlags

/-- The buffer id is stored in the upper 16 bits. -/
def BUFFER : CqeFlags := ⟨(1 : UInt32) <<< 0⟩
/-- More completions of this request will follow. -/
def MORE : CqeFlags := ⟨(1 : UInt32) <<< 1⟩
/-- The completed buffer is only partially consumed. -/
def BUF_MORE : CqeFlags := ⟨(1 : UInt32) <<< 4⟩

end CqeFlags

namespace EnterFlags

def GETEVENTS : EnterFlags := ⟨(1 : UInt32) <<< 0⟩
def SQ_WAKEUP : EnterFlags := ⟨(1 : UInt32) <<< 1⟩

end EnterFlags

namespace SetupFlags

def SQPOLL : SetupFlags := ⟨(1 : UInt32) <<< 1⟩
def SINGLE_ISSUER : SetupFlags := ⟨(1 : UInt32) <<< 12⟩
def DEFER_TASKRUN : SetupFlags := ⟨(1 : UInt32) <<< 13⟩
def NO_SQARRAY : SetupFlags := ⟨(1 : UInt32) <<< 16⟩

end SetupFlags

/-- `CqeFlags::buffer_id`: the provided-buffer id in the upper 16 bits, when `BUFFER` is
set. -/
def CqeFlags.bufferId (self : CqeFlags) : Option UInt16 :=
  if self.contains CqeFlags.BUFFER then some (self.bits >>> 16).toUInt16 else none

/-! ### Descriptors and queue entries -/

/-- A raw file descriptor, a newtype over `usize`. -/
structure RawFd where
  raw : Nat
deriving DecidableEq, Repr

/-- `RawFd::as_i32`: the wrapping cast of the `usize`. -/
def RawFd.asI32 (self : RawFd) : Int32 := Int32.ofNat self.raw

/-- The opcodes of the operations modelled here. -/
inductive Opcode
  | nop
  | readv
  | writev
  | sendMsg
  | recvMsg
  | timeout
  | accept
  | connect
  | openat
  | filesUpdate
  | read
  | write
  | send
  | recv
  | openat2
  | epollCtl
  | msgRing
  | socket
  | sendZc
  | sendmsgZc
  | readMultishot
  | futexWaitv
  | bind
deriving DecidableEq, Repr

/-- The kernel's number of an opcode. -/
def Opcode.toU8 : Opcode → UInt8
  | .nop => 0
  | .readv => 1
  | .writev => 2
  | .sendMsg => 9
  | .recvMsg => 10
  | .timeout => 11
  | .accept => 13
  | .connect => 16
  | .openat => 18
  | .filesUpdate => 20
  | .read => 22
  | .write => 23
  | .send => 26
  | .recv => 27
  | .openat2 => 28
  | .epollCtl => 29
  | .msgRing => 40
  | .socket => 45
  | .sendZc => 47
  | .sendmsgZc => 48
  | .readMultishot => 49
  | .futexWaitv => 53
  | .bind => 56

/-! The numbers of further opcodes. -/

def Opcode.ASYNC_CANCEL : UInt8 := 14
def Opcode.STATX : UInt8 := 21
def Opcode.RENAMEAT : UInt8 := 35
def Opcode.UNLINKAT : UInt8 := 36
def Opcode.MKDIRAT : UInt8 := 37
def Opcode.SYMLINKAT : UInt8 := 38
def Opcode.LINKAT : UInt8 := 39
def Opcode.WAIT_ID : UInt8 := 50
def Opcode.FUTEX_WAIT : UInt8 := 51
def Opcode.FUTEX_WAKE : UInt8 := 52
def Opcode.FIXED_FD_INSTALL : UInt8 := 54
def Opcode.EPOLL_WAIT : UInt8 := 59
def Opcode.PIPE : UInt8 := 62

/-- A submission queue entry: `IoUringSqe`, and `Sqe` around it. -/
structure Sqe where
  opcode : UInt8
  flags : UInt8
  ioprio : UInt16
  fd : Int32
  off : UInt64
  addr : UInt64
  len : UInt32
  opFlags : UInt32
  userData : UInt64
  bufIndex : UInt16
  personality : UInt16
  spliceFdIn : Int32
  addr3 : UInt64
  pad2 : UInt64
deriving DecidableEq, Repr

namespace Sqe

/-- `ZEROED`, the entry every constructor starts from. -/
def ZEROED : Sqe where
  opcode := 0
  flags := 0
  ioprio := 0
  fd := 0
  off := 0
  addr := 0
  len := 0
  opFlags := 0
  userData := 0
  bufIndex := 0
  personality := 0
  spliceFdIn := 0
  addr3 := 0
  pad2 := 0

/-- `Sqe::user_data`: set the value that the completion echoes. -/
def withUserData (self : Sqe) (data : UInt64) : Sqe := { self with userData := data }

/-- `Sqe::nop`. -/
def nop : Sqe := { ZEROED with opcode := Opcode.nop.toU8 }

end Sqe

/-- A completion queue entry: `IoUringCqe`. -/
structure Cqe where
  userData : UInt64
  res : Int32
  flags : UInt32
deriving DecidableEq, Repr

/-! ### Errors -/

/-- A positive errno. -/
structure Errno where
  raw : Int32
deriving DecidableEq, Repr

inductive SubmitError
  | queueFull
  | syscall (e : Errno)
deriving DecidableEq, Repr

inductive CompletionError
  | noCompletion
  | failed (e : Errno)
  | unexpectedCompletion (expected found : UInt64)
deriving DecidableEq, Repr

inductive InvalidArgKind
  | bufferCountZero
  | bufferSizeZero
  | bufferCountNotPowerOfTwo
  | bufferCountTooLarge
  | bufferRingSizeOverflow
  | unsupportedSetupFlags (bits : UInt32)
  | incompatibleSplit (bits : UInt32)
deriving DecidableEq, Repr

inductive SetupError
  | invalidArg (kind : InvalidArgKind)
  | syscall (e : Errno)
deriving DecidableEq, Repr

/-- The crate's top-level error. -/
inductive Error
  | submit (e : SubmitError)
  | completion (e : CompletionError)
  | setup (e : SetupError)
  | syscall (e : Errno)
deriving DecidableEq, Repr

/-- The parts of a completion handed to the caller: `Completion`. -/
structure Completion where
  userData : UInt64
  result : Int32
  flags : CqeFlags
deriving DecidableEq, Repr

/-- `Completion` as `complete` builds it from a queue entry. -/
def Completion.ofCqe (cqe : Cqe) : Completion where
  userData := cqe.userData
  result := cqe.res
  flags := ⟨cqe.flags⟩

/-- `Completion::into_result`: the count, or the negated errno as an error. -/
def Completion.intoResult (self : Completion) : Except Error UInt32 :=
  if self.result < 0 then .error (.completion (.failed ⟨-self.result⟩))
  else .ok self.result.toUInt32

end Ququmatz
