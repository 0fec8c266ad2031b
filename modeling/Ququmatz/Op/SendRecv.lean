import Ququmatz.Op

/-!
# `Ququmatz.Op.SendRecv`: the modifiers of the send and receive family

`SendRecvFlag` of `src/types/sendrecv.rs` and `Sqe::with` of `src/op/mod.rs`, over the eight
constructors of `src/op/net.rs` that the modifiers are for. All of them meet in one field,
`ioprio`: the modifiers set bits of it, and so do the multishot constructors.
-/

set_option autoImplicit false

namespace Ququmatz

def IORING_RECVSEND_POLL_FIRST : UInt16 := (1 : UInt16) <<< 0
def IORING_RECVSEND_FIXED_BUF : UInt16 := (1 : UInt16) <<< 1
def IORING_SEND_ZC_REPORT_USAGE : UInt16 := (1 : UInt16) <<< 3
def IORING_RECVSEND_BUNDLE : UInt16 := (1 : UInt16) <<< 4
def IORING_SEND_VECTORIZED : UInt16 := (1 : UInt16) <<< 5

/-- `SendRecvFlag`. -/
inductive SendRecvFlag
  | pollFirst
  | fixedBuf (idx : UInt16)
  | reportUsage
  | bundle
  | vectorized
deriving DecidableEq, Repr

/-- A `SendRecvFlag` without its argument. -/
inductive SendRecvKind
  | pollFirst
  | fixedBuf
  | reportUsage
  | bundle
  | vectorized
deriving DecidableEq, Repr

def SendRecvFlag.kind : SendRecvFlag → SendRecvKind
  | .pollFirst => .pollFirst
  | .fixedBuf _ => .fixedBuf
  | .reportUsage => .reportUsage
  | .bundle => .bundle
  | .vectorized => .vectorized

/-- The kinds of modifiers in a sequence. -/
def kinds (flags : List SendRecvFlag) : List SendRecvKind := flags.map SendRecvFlag.kind

namespace Sqe

/-- `Sqe::with`. -/
def withFlag (self : Sqe) : SendRecvFlag → Sqe
  | .pollFirst => { self with ioprio := self.ioprio ||| IORING_RECVSEND_POLL_FIRST }
  | .fixedBuf idx =>
      { self with ioprio := self.ioprio ||| IORING_RECVSEND_FIXED_BUF, bufIndex := idx }
  | .reportUsage => { self with ioprio := self.ioprio ||| IORING_SEND_ZC_REPORT_USAGE }
  | .bundle => { self with ioprio := self.ioprio ||| IORING_RECVSEND_BUNDLE }
  | .vectorized => { self with ioprio := self.ioprio ||| IORING_SEND_VECTORIZED }

/-- The modifiers of a sequence, one after the other. -/
def withFlags (self : Sqe) (flags : List SendRecvFlag) : Sqe := flags.foldl withFlag self

/-- What the kernel arms as a multishot receive. -/
def armsMultishot (self : Sqe) : Bool :=
  (self.opcode == Opcode.recv.toU8 || self.opcode == Opcode.recvMsg.toU8) &&
    self.ioprio &&& IORING_RECV_MULTISHOT != 0

end Sqe

/-- A call of a constructor of the family. -/
inductive SendRecvOp
  | send (fd : RawFd) (buf : UInt64) (len : UInt32) (flags : MsgFlags)
  | recv (fd : RawFd) (buf : UInt64) (len : UInt32) (flags : MsgFlags)
  | sendmsg (fd : RawFd) (msg : UInt64) (flags : MsgFlags)
  | recvmsg (fd : RawFd) (msg : UInt64) (flags : MsgFlags)
  | sendZc (fd : RawFd) (buf : UInt64) (len : UInt32) (flags : MsgFlags)
  | sendmsgZc (fd : RawFd) (msg : UInt64) (flags : MsgFlags)
  | recvMultishot (fd : RawFd) (flags : MsgFlags)
  | recvmsgMultishot (fd : RawFd) (msg : UInt64) (flags : MsgFlags)
deriving DecidableEq, Repr

namespace SendRecvOp

/-- The SQE that the constructor makes. -/
def sqe : SendRecvOp → Sqe
  | .send fd buf len flags => Sqe.sendPtr fd buf len flags
  | .recv fd buf len flags => Sqe.recvPtr fd buf len flags
  | .sendmsg fd msg flags => Sqe.sendmsgPtr fd msg flags
  | .recvmsg fd msg flags => Sqe.recvmsgPtr fd msg flags
  | .sendZc fd buf len flags => Sqe.sendZcPtr fd buf len flags
  | .sendmsgZc fd msg flags => Sqe.sendmsgZcPtr fd msg flags
  | .recvMultishot fd flags => Sqe.recvMultishot fd flags
  | .recvmsgMultishot fd msg flags => Sqe.recvmsgMultishot fd msg flags

/-- The SQE after the modifiers. -/
def build (self : SendRecvOp) (flags : List SendRecvFlag) : Sqe := self.sqe.withFlags flags

/-- The constructor is one of the two multishot ones. -/
def isMultishot : SendRecvOp → Bool
  | .recvMultishot _ _ => true
  | .recvmsgMultishot _ _ _ => true
  | _ => false

/-- The operation receives. -/
def isReceive : SendRecvOp → Bool
  | .recv _ _ _ _ => true
  | .recvmsg _ _ _ => true
  | .recvMultishot _ _ => true
  | .recvmsgMultishot _ _ _ => true
  | _ => false

end SendRecvOp

/-- The index of the last `FixedBuf` of a sequence. -/
def lastFixedBuf : List SendRecvFlag → Option UInt16
  | [] => none
  | .fixedBuf idx :: flags => some ((lastFixedBuf flags).getD idx)
  | _ :: flags => lastFixedBuf flags

/-- The encoding of the call with these modifiers says what was asked for. -/
structure SaysWhatItIs (op : SendRecvOp) (flags : List SendRecvFlag) : Prop where
  /-- Whatever has the same opcode and `ioprio` has the same modifiers, and is multishot or
  not alike. -/
  determined : ∀ (op' : SendRecvOp) (flags' : List SendRecvFlag),
    (op'.build flags').opcode = (op.build flags).opcode →
    (op'.build flags').ioprio = (op.build flags).ioprio →
    (∀ k, k ∈ kinds flags' ↔ k ∈ kinds flags) ∧ op'.isMultishot = op.isMultishot
  bufIndex : (op.build flags).bufIndex = (lastFixedBuf flags).getD 0
  /-- The modifiers neither arm nor disarm multishot. -/
  multishot : (op.build flags).armsMultishot = op.isMultishot

end Ququmatz
