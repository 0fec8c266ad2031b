import Ququmatz.Owned.Kinds
import Ququmatz.Owned.Staging

/-!
# `Ququmatz.Owned.Reached`: where the kernel gets from an SQE

`PushMethod.reached` follows an SQE through the bytes of the process: a path up to its zero byte,
and the header of a message to its descriptors, and these and the iovecs of an array to the
buffers. What is at the addresses is found in memory and not in the ticket. The words of futexes
are left out here too.
-/

set_option autoImplicit false

namespace Ququmatz

open Lib

variable {w : Width}

/-- What the kernel reads for the path at an address, when it gives up after `fuel` bytes. -/
def kernelPathReads (fuel : Nat) (bytes : Nat → UInt8) (addr : Nat) : List Range :=
  (kernelPath fuel (Memory.of bytes) addr).2.reads

/-- What the header of a message at an address leads to: itself, the descriptors, the address slot
if it is not null, the control data, and the buffers. -/
def kernelMessageRanges [Native] (w : Width) (bytes : Nat → UInt8) (addr : Nat) : List Range :=
  let hdr := Width.MsgHdr.load w bytes addr
  [⟨addr, w.sizeofMsgHdr⟩, ⟨hdr.msgIov.toNat, w.sizeofIoVec * hdr.msgIovlen.toNat⟩,
    ⟨hdr.msgName.toNat, if hdr.msgName = 0 then 0 else hdr.msgNamelen.toNat⟩,
    ⟨hdr.msgControl.toNat, hdr.msgControllen.toNat⟩] ++
    (kernelWalk w bytes addr).vecs.map fun vec => ⟨vec.base.toNat, vec.len.toNat⟩

/-- What an array of iovecs at an address leads to: itself and the buffers. -/
def kernelArrayRanges [Native] (bytes : Nat → UInt8) (addr count : Nat) : List Range :=
  ⟨addr, sizeofIoVec * count⟩ ::
    (kernelVecs bytes addr count).map fun vec => ⟨vec.base.toNat, vec.len.toNat⟩

/-- The ranges that the kernel comes to for a request over buffers. Which kind of request it is
stands in the opcode of the SQE. -/
def Ticket.reached [Native] {B R : Type} {N : Nat} (bytes : Nat → UInt8) :
    Ticket B R N → Sqe → List Range
  | .single _, sqe | .zc _, sqe => [⟨sqe.addr.toNat, sqe.len.toNat⟩]
  | .vectored _, sqe => kernelArrayRanges bytes sqe.addr.toNat sqe.len.toNat
  | .sendmsg _, sqe | .sendmsgZc _, sqe => kernelMessageRanges .w64 bytes sqe.addr.toNat

section Methods

variable [Native] {B R : Type} [StableBufferMut B] [StableBufferMut R] {packed : Bool}

/-- The ranges that the kernel comes to from an SQE, with these bytes in memory. The SQEs that
name no path, no array of iovecs and no message header name the ranges themselves. -/
def PushMethod.reached (fuel : Nat) (bytes : Nat → UInt8) :
    (k : PushMethod) → (PushMethod.kind B R w packed k).Pending → Sqe → List Range
  | .buffers _ => Ticket.reached bytes
  | .openat | .directOpen | .pathOp => fun _ sqe => kernelPathReads fuel bytes sqe.addr.toNat
  | .rename | .link => fun _ sqe =>
      kernelPathReads fuel bytes sqe.addr.toNat ++ kernelPathReads fuel bytes sqe.off.toNat
  | .openat2 => fun _ sqe =>
      kernelPathReads fuel bytes sqe.addr.toNat ++ [⟨sqe.off.toNat, sqe.len.toNat⟩]
  | .statx => fun _ sqe =>
      kernelPathReads fuel bytes sqe.addr.toNat ++ [⟨sqe.off.toNat, Statx.layout.size⟩]
  | .recvmsg _ => fun _ sqe => kernelMessageRanges w bytes sqe.addr.toNat
  | k => (PushMethod.kind B R w packed k).named

end Methods

end Ququmatz
