import Ququmatz.Types

/-!
# `Ququmatz.Op`: the SQE constructors of the owned requests

The constructors of `src/op/` that the owned requests call, over raw addresses. Each sets
the fields the source sets and leaves the others zero.
-/

set_option autoImplicit false

namespace Ququmatz.Sqe

/-- `Sqe::read_ptr`. -/
def readPtr (fd : RawFd) (buf : UInt64) (len : UInt32) (offset : UInt64) : Sqe :=
  { ZEROED with opcode := Opcode.read.toU8, fd := fd.asI32, addr := buf, len := len, off := offset }

/-- `Sqe::write_ptr`. -/
def writePtr (fd : RawFd) (buf : UInt64) (len : UInt32) (offset : UInt64) : Sqe :=
  { ZEROED with
    opcode := Opcode.write.toU8, fd := fd.asI32, addr := buf, len := len, off := offset }

/-- `Sqe::readv_ptr`. -/
def readvPtr (fd : RawFd) (iovecs : UInt64) (nrVecs : UInt32) (offset : UInt64) : Sqe :=
  { ZEROED with
    opcode := Opcode.readv.toU8, fd := fd.asI32, addr := iovecs, len := nrVecs, off := offset }

/-- `Sqe::writev_ptr`. -/
def writevPtr (fd : RawFd) (iovecs : UInt64) (nrVecs : UInt32) (offset : UInt64) : Sqe :=
  { ZEROED with
    opcode := Opcode.writev.toU8, fd := fd.asI32, addr := iovecs, len := nrVecs, off := offset }

/-- `Sqe::send_ptr`. -/
def sendPtr (fd : RawFd) (buf : UInt64) (len : UInt32) (flags : MsgFlags) : Sqe :=
  { ZEROED with
    opcode := Opcode.send.toU8, fd := fd.asI32, addr := buf, len := len, opFlags := flags.bits }

/-- `Sqe::recv_ptr`. -/
def recvPtr (fd : RawFd) (buf : UInt64) (len : UInt32) (flags : MsgFlags) : Sqe :=
  { ZEROED with
    opcode := Opcode.recv.toU8, fd := fd.asI32, addr := buf, len := len, opFlags := flags.bits }

/-- `Sqe::send_zc_ptr`. -/
def sendZcPtr (fd : RawFd) (buf : UInt64) (len : UInt32) (flags : MsgFlags) : Sqe :=
  { ZEROED with
    opcode := Opcode.sendZc.toU8, fd := fd.asI32, addr := buf, len := len, opFlags := flags.bits }

/-- `Sqe::sendmsg_ptr`: `len` is the number of headers. -/
def sendmsgPtr (fd : RawFd) (msg : UInt64) (flags : MsgFlags) : Sqe :=
  { ZEROED with
    opcode := Opcode.sendMsg.toU8, fd := fd.asI32, addr := msg, len := 1, opFlags := flags.bits }

/-- `Sqe::recvmsg_ptr`: `len` is the number of headers. -/
def recvmsgPtr (fd : RawFd) (msg : UInt64) (flags : MsgFlags) : Sqe :=
  { ZEROED with
    opcode := Opcode.recvMsg.toU8, fd := fd.asI32, addr := msg, len := 1, opFlags := flags.bits }

/-- `Sqe::sendmsg_zc_ptr`. -/
def sendmsgZcPtr (fd : RawFd) (msg : UInt64) (flags : MsgFlags) : Sqe :=
  { ZEROED with
    opcode := Opcode.sendmsgZc.toU8, fd := fd.asI32, addr := msg, len := 1, opFlags := flags.bits }

/-- `Sqe::msg_ring_with_flags`. -/
def msgRingWithFlags (targetRing : RawFd) (len : UInt32) (data : UInt64) (flags : MsgRingFlags) :
    Sqe :=
  { ZEROED with
    opcode := Opcode.msgRing.toU8, fd := targetRing.asI32, len := len, off := data,
    opFlags := flags.bits }

/-- `Sqe::files_update_ptr`: `len` is the number of descriptors, `off` the first slot. -/
def filesUpdatePtr (fds : UInt64) (nrFds offset : UInt32) : Sqe :=
  { ZEROED with
    opcode := Opcode.filesUpdate.toU8, addr := fds, len := nrFds, off := offset.toUInt64 }

/-- `IORING_RECV_MULTISHOT`. -/
def IORING_RECV_MULTISHOT : UInt16 := (1 : UInt16) <<< 1

/-- `Sqe::buffer_select`: `SqeFlags::BUFFER_SELECT` and the group. -/
def bufferSelect (self : Sqe) (groupId : UInt16) : Sqe :=
  { self with flags := self.flags ||| ((1 : UInt8) <<< 5), bufIndex := groupId }

/-- `Sqe::recv_multishot`. -/
def recvMultishot (fd : RawFd) (flags : MsgFlags) : Sqe :=
  { ZEROED with
    opcode := Opcode.recv.toU8, fd := fd.asI32, opFlags := flags.bits,
    ioprio := IORING_RECV_MULTISHOT }

/-- `Sqe::recvmsg_multishot`. -/
def recvmsgMultishot (fd : RawFd) (msg : UInt64) (flags : MsgFlags) : Sqe :=
  { ZEROED with
    opcode := Opcode.recvMsg.toU8, fd := fd.asI32, addr := msg, len := 1, opFlags := flags.bits,
    ioprio := IORING_RECV_MULTISHOT }

/-- `Sqe::read_multishot`. -/
def readMultishot (fd : RawFd) (offset : UInt64) (bgid : UInt16) : Sqe :=
  bufferSelect
    { ZEROED with opcode := Opcode.readMultishot.toU8, fd := fd.asI32, off := offset } bgid

end Ququmatz.Sqe
