import Ququmatz.Lib.Prog
import Ququmatz.Pool.Basic

/-!
# `Ququmatz.Pool.Register`: registering a provided-buffer pool

`register_provided_buffers_on` of `src/ring/pbuf.rs`, behind `register_provided_buffers`
and `register_incremental_buffers` of both the `IoUring` and the `Submitter`. It is a
program over the system calls it makes; `answerMachine` lets the kernel answer each of
them in any way and keeps the calls in order.
-/

set_option autoImplicit false

namespace Ququmatz

open Lib

/-- `PbufRingFlags`, over a `u16`. -/
structure PbufRingFlags where
  bits : UInt16
deriving DecidableEq, Repr

namespace PbufRingFlags

def empty : PbufRingFlags := ⟨0⟩
/-- Incremental buffer consumption. -/
def INC : PbufRingFlags := ⟨(1 : UInt16) <<< 1⟩

end PbufRingFlags

/-- `IoUringBufReg`, less its reserved words. -/
structure IoUringBufReg where
  ringAddr : UInt64
  ringEntries : UInt32
  bgid : UInt16
  flags : UInt16
deriving DecidableEq, Repr

/-- The system calls of a registration, and the share it takes of the ring. -/
inductive PoolCall
  /-- An anonymous private mapping at an address of the kernel's choice. -/
  | mmap (len : Nat)
  | munmap (addr len : Nat)
  /-- `io_uring_register` with `RegisterPbufRing`. -/
  | register (fd : RawFd) (reg : IoUringBufReg)
  /-- `RingResources::retain`. -/
  | retain
deriving DecidableEq, Repr

/-- The answer type of each call. -/
def PoolCall.Ans : PoolCall → Type
  | .mmap _ => Except Errno Nat
  | .munmap _ _ => Except Errno Nat
  | .register _ _ => Except Errno Nat
  | .retain => Unit

/-- The signature of the registration. -/
abbrev poolSig : Sig := ⟨PoolCall, PoolCall.Ans⟩

/-- The program that makes one call. -/
def sys (c : PoolCall) : Prog poolSig c.Ans := Prog.lift (S := poolSig) c

/-- `checked_ring_bytes` on a target whose `usize` has `usizeBits` bits. -/
def checkedRingBytes (usizeBits : Nat) (count : UInt32) (elemSize : Nat) :
    Except InvalidArgKind Nat :=
  if count.toNat * elemSize < 2 ^ usizeBits then .ok (count.toNat * elemSize)
  else .error .bufferRingSizeOverflow

/-- `u32::is_power_of_two`. -/
def isPowerOfTwo (n : UInt32) : Bool := n != 0 && n &&& (n - 1) == 0

/-- The size of one `IoUringBuf`. -/
def sizeofIoUringBuf : Nat := 16

namespace ProvidedBufferRing

/-- The pool before it is populated, over two fresh mappings, whose bytes are zero. -/
def mapped (fd : RawFd) (bgid : UInt16) (count bufSize : UInt32)
    (ringAddr ringBytes bufsAddr bufsBytes : Nat) : ProvidedBufferRing where
  fd := fd
  bgid := bgid
  mask := count - 1
  entries := count
  ringAddr := ringAddr
  ringBytes := ringBytes
  bufsAddr := bufsAddr
  bufsBytes := bufsBytes
  bufSize := bufSize
  tailLocal := 0
  delivered := fun _ => 0
  ring := fun _ => ⟨0, 0, 0, 0⟩
  bufs := fun _ => 0
  produced := []

/-- One round of the loop that populates the ring: buffer `i` goes to the producer ring. -/
def populateOne (self : ProvidedBufferRing) (i : Nat) : ProvidedBufferRing :=
  self.recycleRaw (self.slotAddr i) self.bufSize (UInt16.ofNat i)

/-- The loop that populates the ring with buffers `0` to `count - 1`. -/
def populate (self : ProvidedBufferRing) (count : Nat) : ProvidedBufferRing :=
  (List.range count).foldl populateOne self

end ProvidedBufferRing

/-- `register_provided_buffers_on`. -/
def registerProvidedBuffersOn (usizeBits : Nat) (fd : RawFd) (bgid : UInt16)
    (count bufSize : UInt32) (flags : PbufRingFlags) :
    Prog poolSig (Except Error ProvidedBufferRing) :=
  if count = 0 then return .error (.setup (.invalidArg .bufferCountZero))
  else if bufSize = 0 then return .error (.setup (.invalidArg .bufferSizeZero))
  else if !isPowerOfTwo count then
    return .error (.setup (.invalidArg .bufferCountNotPowerOfTwo))
  else if count > MAX_PBUF_RING_ENTRIES then
    return .error (.setup (.invalidArg .bufferCountTooLarge))
  else
    match checkedRingBytes usizeBits count sizeofIoUringBuf with
    | .error kind => return .error (.setup (.invalidArg kind))
    | .ok ringBytes => do
        match ← sys (.mmap ringBytes) with
        | .error e => return .error (.setup (.syscall e))
        | .ok ringAddr =>
            match checkedRingBytes usizeBits count bufSize.toNat with
            | .error kind => do
                let _ ← sys (.munmap ringAddr ringBytes)
                return .error (.setup (.invalidArg kind))
            | .ok bufsBytes => do
                match ← sys (.mmap bufsBytes) with
                | .error e => do
                    let _ ← sys (.munmap ringAddr ringBytes)
                    return .error (.setup (.syscall e))
                | .ok bufsAddr => do
                    let reg : IoUringBufReg :=
                      { ringAddr := UInt64.ofNat ringAddr, ringEntries := count, bgid := bgid,
                        flags := flags.bits }
                    match ← sys (.register fd reg) with
                    | .error e => do
                        let _ ← sys (.munmap bufsAddr bufsBytes)
                        let _ ← sys (.munmap ringAddr ringBytes)
                        return .error (.setup (.syscall e))
                    | .ok _ => do
                        sys .retain
                        let pbuf := ProvidedBufferRing.mapped fd bgid count bufSize ringAddr
                          ringBytes bufsAddr bufsBytes
                        return .ok (pbuf.populate count.toNat).commit

/-- `register_provided_buffers`, of the `IoUring` and of the `Submitter`. -/
def registerProvidedBuffers (usizeBits : Nat) (fd : RawFd) (bgid : UInt16)
    (count bufSize : UInt32) : Prog poolSig (Except Error ProvidedBufferRing) :=
  registerProvidedBuffersOn usizeBits fd bgid count bufSize PbufRingFlags.empty

/-- `register_incremental_buffers`, of the `IoUring` and of the `Submitter`. -/
def registerIncrementalBuffers (usizeBits : Nat) (fd : RawFd) (bgid : UInt16)
    (count bufSize : UInt32) : Prog poolSig (Except Error ProvidedBufferRing) :=
  registerProvidedBuffersOn usizeBits fd bgid count bufSize PbufRingFlags.INC

/-- The answers of the kernel to the calls of a registration, and the calls so far. -/
abbrev answerMachine : Machine poolSig where
  State := List PoolCall
  Env := Empty
  env := fun e _ => e.elim
  Reply := Except Errno Nat
  access := fun c r calls =>
    match c with
    | .mmap len => some (r, calls ++ [.mmap len])
    | .munmap addr len => some (r, calls ++ [.munmap addr len])
    | .register fd reg => some (r, calls ++ [.register fd reg])
    | .retain => some ((), calls ++ [.retain])

/-- A pool that `register_provided_buffers_on` returns for some arguments and some answers
of the kernel. -/
def Registered (flags : PbufRingFlags) (pool : ProvidedBufferRing) : Prop :=
  ∃ usizeBits fd bgid count bufSize rs calls,
    (registerProvidedBuffersOn usizeBits fd bgid count bufSize flags).run answerMachine rs []
      = some (.ok pool, calls)

end Ququmatz
