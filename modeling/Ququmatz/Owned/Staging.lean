import Ququmatz.Owned.Footprint
import Ququmatz.Owned.MsgRegion

/-!
# `Ququmatz.Owned.Staging`: what a request writes in its storage

`Ququmatz.Owned.Vectored` keeps the descriptors, the header and the address of a request as values
beside the storage. Here are the bytes that the same functions write, on a 64-bit target:
`Request.built` is what a constructor writes, and `Request.step` an operation after that. A message
is written through the region of `Ququmatz.Owned.MsgRegion`.
-/

set_option autoImplicit false

namespace Ququmatz

open Lib

variable {B R : Type} {N : Nat}

/-! ### Values and bytes -/

/-- The storage of an owner as an address and a length. -/
def storageOf [StableBufferMut R] (store : R) : Storage .w64 where
  addr := (StableBufferMut.stableMutPtr store).toBitVec
  len := StableBuffer.stableLen store
  fits := by
    rw [StableBufferMut.mutPtr_eq]
    exact StableBuffer.fits store

/-- The region over the bytes of the store. -/
def MsgRegion.onBytes [StableBufferMut R] (self : MsgRegion R) : StagedRegion .w64 where
  store := storageOf self.store
  hdr := self.hdr.toBitVec
  vecs := self.vecs.toBitVec
  name := self.name.toBitVec
  count := self.count

/-- The descriptor as it stands in memory. -/
def IoVec.onBytes (self : IoVec) : Width.IoVec .w64 :=
  ⟨self.base.toBitVec, BitVec.ofNat 64 self.len⟩

/-- The message that the values of a region say. -/
def MsgRegion.message [Native] (self : MsgRegion R) : KernelMessage .w64 where
  vecs := (List.range self.header.msgIovlen).map fun i => (self.descriptors i).onBytes
  name := if self.header.msgName = 0 then none else some self.stagedName.toBytes

/-- `matches!(target, SendTarget::To(_))`. -/
def SendTarget.named : SendTarget → Bool
  | .toAddr _ => true
  | .connected => false

/-- The descriptor that is stamped at an index. -/
def stampAt [StableBuffer B] (bufs : Fin N → B) (lens : Fin N → Nat) (i : Nat) :
    Width.IoVec .w64 :=
  if h : i < N then (stamp bufs lens ⟨i, h⟩).onBytes else ⟨0, 0⟩

/-! ### What is written -/

section Writes

variable [Native] [StableBuffer B]

/-- The bytes of `PreparedVectored::write_array`. -/
def PreparedVectored.writeArrayIn (self : PreparedVectored B R N) (lens : Fin N → Nat)
    (m : Memory) : Memory :=
  m.writeAll self.array.toNat
    ((List.range N).map fun i => (sizeofIoVec * i, (stampAt self.bufs lens i).toBytes))

namespace MsgRequest

variable [StableBufferMut R]

/-- The calls of the loop in `write_descriptors` of both requests. -/
def descriptorCalls (self : MsgRequest B R N) (lens : Fin N → Nat) :
    List (RegionCall .w64 self.region.onBytes.count) :=
  (List.finRange self.region.onBytes.count).map fun i =>
    .writeDescriptor i (stampAt self.bufs lens i)

/-- The bytes of `write_descriptors` of both requests. -/
def writeDescriptorsIn (self : MsgRequest B R N) (lens : Fin N → Nat) (m : Memory) : Memory :=
  self.region.onBytes.calls (self.descriptorCalls lens) m

/-- The bytes of `publish` of both requests. -/
def publishIn (self : MsgRequest B R N) (m : Memory) : Memory :=
  let region := self.region.onBytes
  let m :=
    match self.target with
    | .toAddr addr => region.writeName addr m
    | .connected => m
  region.publishHeader self.target.named m

end MsgRequest

namespace Request

variable [StableBufferMut R]

/-- What a constructor writes for the request that it makes. -/
def built (self : Request B R N) (m : Memory) : Memory :=
  match self with
  | .single _ | .zc _ => m
  | .vectored r => r.writeArrayIn (fullLens r.bufs) m
  | .sendmsg r | .sendmsgZc r => r.publishIn (r.writeDescriptorsIn (fullLens r.bufs) m)

/-- What an operation writes: only `with_lens` of several buffers writes anything. -/
def edited (self : Request B R N) (op : RequestOp B N) (m : Memory) : Memory :=
  match op, self with
  | .withLens lens, .vectored r => r.writeArrayIn (clampLens r.bufs lens) m
  | .withLens lens, .sendmsg r => r.writeDescriptorsIn (clampLens r.bufs lens) m
  | .withLens lens, .sendmsgZc r => r.writeDescriptorsIn (clampLens r.bufs lens) m
  | _, _ => m

/-- One operation on a request, and on the memory. -/
def step (x : Request B R N × Memory) (op : RequestOp B N) : Request B R N × Memory :=
  (x.1.apply op, x.1.edited op x.2)

/-- The storage that a request writes to. -/
def staging (self : Request B R N) : Option (Storage .w64) :=
  match self with
  | .single _ | .zc _ => none
  | .vectored r => some (storageOf r.vecs)
  | .sendmsg r | .sendmsgZc r => some (storageOf r.region.store)

end Request

end Writes

/-! ### What the kernel finds -/

/-- The iovecs of an array in memory. -/
def kernelVecs [Native] (bytes : Nat → UInt8) (addr count : Nat) : List (Width.IoVec .w64) :=
  (List.range count).map fun i => Width.IoVec.load .w64 bytes (addr + sizeofIoVec * i)

/-- What the kernel finds in memory from the SQE of a request is what the values of the request
say. A transfer of one buffer has nothing in memory but the buffer. -/
def Request.Finds [Native] (self : Request B R N) (bytes : Nat → UInt8) (sqe : Sqe) : Prop :=
  match self with
  | .single _ | .zc _ => True
  | .vectored r =>
      kernelVecs bytes sqe.addr.toNat N = List.ofFn fun i => (r.descriptors i).onBytes
  | .sendmsg r | .sendmsgZc r => kernelWalk .w64 bytes sqe.addr.toNat = r.region.message

end Ququmatz
