import Mathlib.Data.List.FinRange
import Ququmatz.Owned.Staging
import Ququmatz.Proofs.Owned.Footprint
import Ququmatz.Proofs.Owned.Recvmsg

/-!
# `Ququmatz.Proofs.Owned.Staging`: the values of a request stand in its storage

`Request.InMemory` says that the descriptors, the header and the address that a request keeps as
values stand in the bytes of its storage. A constructor makes it so, whatever the memory held, every
operation keeps it so, and the kernel then finds in the bytes what the values say
(`request_in_memory`). On a 64-bit target `stage` is the same on values and on bytes
(`stage_onBytes`).
-/

set_option autoImplicit false

namespace Ququmatz

open Lib

variable {B R : Type} {N : Nat}

/-- Both models accept the same stores, refuse the others for the same reason, and lay out the
same parts. -/
theorem stage_onBytes [StableBufferMut R] (store : R) (count : Nat) (m : Memory) :
    StagedRegion.stage (storageOf store) count m =
      (match MsgRegion.stage store count with
        | .error (s, e) => .error (storageOf s, e)
        | .ok region => .ok region.onBytes, m) := by
  unfold StagedRegion.stage MsgRegion.stage
  by_cases hcount : count > MAX_IOV
  · rw [if_pos hcount, if_pos hcount]
  rw [if_neg hcount, if_neg hcount]
  dsimp only
  have hlen : (storageOf store).len < Width.w64.bytesFor count ↔
      StableBuffer.stableLen store < MsgRegion.bytesFor count := Iff.rfl
  by_cases hroom : StableBuffer.stableLen store < MsgRegion.bytesFor count
  · rw [if_pos (hlen.mpr hroom), if_pos hroom]
    rfl
  rw [if_neg (mt hlen.mp hroom), if_neg hroom]
  have hbase : (storageOf store).addr.toNat % Width.w64.alignofMsgHdr ≠ 0 ↔
      (StableBufferMut.stableMutPtr store).toNat % alignofMsgHdr ≠ 0 := Iff.rfl
  by_cases haligned : (StableBufferMut.stableMutPtr store).toNat % alignofMsgHdr ≠ 0
  · rw [if_pos (hbase.mpr haligned), if_pos haligned]
    rfl
  · rw [if_neg (mt hbase.mp haligned), if_neg haligned]
    rfl

/-! ### The array of a vectored request -/

section Array

variable [StableBuffer B]

theorem stampAt_of_lt (bufs : Fin N → B) (lens : Fin N → Nat) {i : Nat} (hi : i < N) :
    stampAt bufs lens i = (stamp bufs lens ⟨i, hi⟩).onBytes := dif_pos hi

variable [Native]

/-- The iovecs of an array are in order, and share no byte. -/
theorem stampAt_apart (bufs : Fin N → B) (lens : Fin N → Nat) :
    Bytes.FieldsApart
      ((List.range N).map fun i => (sizeofIoVec * i, (stampAt bufs lens i).toBytes)) := by
  refine List.pairwise_map.mpr (List.pairwise_lt_range.imp fun {i j} hlt => ?_)
  have hend : sizeofIoVec * i + sizeofIoVec ≤ sizeofIoVec * j := Bytes.elem_end_le hlt
  simpa [Width.sizeofIoVec, Width.bytes, sizeofIoVec] using hend

/-- After `write_array` each iovec is the one that was stamped. -/
theorem PreparedVectored.load_writeArrayIn (self : PreparedVectored B R N) (lens : Fin N → Nat)
    (m : Memory) (i : Fin N) :
    Width.IoVec.load .w64 (self.writeArrayIn lens m).bytes
        (self.array.toNat + sizeofIoVec * i) =
      (stamp self.bufs lens i).onBytes := by
  rw [writeArrayIn, Memory.writeAll_bytes]
  have hmem : (sizeofIoVec * i.val, (stampAt self.bufs lens i).toBytes) ∈
      (List.range N).map fun i => (sizeofIoVec * i, (stampAt self.bufs lens i).toBytes) :=
    List.mem_map.mpr ⟨i, List.mem_range.mpr i.isLt, rfl⟩
  rw [← stampAt_of_lt self.bufs lens i.isLt]
  refine Width.IoVec.load_of_bytes ?_
  rw [← Width.IoVec.length_toBytes (stampAt self.bufs lens i)]
  exact Bytes.load_storeAll_mem (stampAt_apart self.bufs lens) hmem

/-- The constructors of a vectored request put its descriptors in the bytes. -/
theorem PreparedVectored.load_build [StableBufferMut R] {fd : RawFd} {bufs : Fin N → B}
    {vecs : R} {offset : UInt64} {direction : Direction} {r : PreparedVectored B R N}
    (h : build fd bufs vecs offset direction (fullLens bufs) = .ok r) (m : Memory) (i : Fin N) :
    Width.IoVec.load .w64 (r.writeArrayIn (fullLens r.bufs) m).bytes
        (r.array.toNat + sizeofIoVec * i) =
      (r.descriptors i).onBytes := by
  unfold build at h
  dsimp only at h
  split at h
  · cases h
  · split at h <;> cases h
    exact load_writeArrayIn _ (fullLens bufs) m i

end Array

/-! ### The region of a message -/

namespace MsgRequest

theorem descriptorCalls_only [StableBuffer B] [StableBufferMut R] (request : MsgRequest B R N)
    (lens : Fin N → Nat) :
    ∀ c ∈ request.descriptorCalls lens, ∃ index vec, c = .writeDescriptor index vec := by
  intro c hc
  obtain ⟨i, -, rfl⟩ := List.mem_map.mp hc
  exact ⟨_, _, rfl⟩

variable [Native] [StableBufferMut R] {request : MsgRequest B R N} {m : Memory}

/-- What the values of a request say of its header, its descriptors and its address is what
stands in the bytes of the region. -/
structure InMemory (request : MsgRequest B R N) (m : Memory) : Prop where
  staged : request.region.onBytes.Staged (storageOf request.region.store) N
  iovlen : request.region.header.msgIovlen = N
  named : request.region.header.msgName = 0 ↔ request.target.named = false
  header : request.region.onBytes.header m = request.region.onBytes.headerFor request.target.named
  vecs : ∀ i < N, request.region.onBytes.descriptor i m = (request.region.descriptors i).onBytes
  slot : request.target.named = true →
    Bytes.load m.bytes request.region.onBytes.name.toNat sizeofSockAddrIn =
      request.region.stagedName.toBytes

/-- The kernel finds the message that the values say. -/
theorem InMemory.walk (h : request.InMemory m) :
    kernelWalk .w64 m.bytes request.region.hdr.toNat = request.region.message := by
  have hheader : Width.MsgHdr.load .w64 m.bytes request.region.hdr.toNat =
      request.region.onBytes.headerFor request.target.named := h.header
  have hvecs : ∀ i ∈ List.range N, request.region.onBytes.descriptor i m =
      (request.region.descriptors i).onBytes := fun i hi => h.vecs i (List.mem_range.mp hi)
  simp only [kernelWalk, hheader, StagedRegion.headerFor_msgIov,
    StagedRegion.headerFor_msgIovlen h.staged, StagedRegion.headerFor_msgName,
    StagedRegion.headerFor_msgNamelen, MsgRegion.message, KernelMessage.mk.injEq, h.iovlen,
    h.staged.countEq]
  refine ⟨List.map_congr_left hvecs, ?_⟩
  cases hnamed : request.target.named with
  | false => rw [if_pos (h.named.mpr hnamed)]; exact if_pos rfl
  | true =>
      have hvalue : request.region.header.msgName ≠ 0 := fun hzero =>
        Bool.false_ne_true ((h.named.mp hzero).symm.trans hnamed)
      -- the address slot is not at the null address
      simp only [if_true, if_neg (StagedRegion.name_ne_zero h.staged), if_neg hvalue]
      exact congrArg some (h.slot hnamed)

/-- `publish` puts the values in the bytes, once the descriptors are there. -/
theorem inMemory_publish
    (h : request.region.onBytes.Staged (storageOf request.region.store) N)
    (hvecs : ∀ i < N, request.region.onBytes.descriptor i m =
      (request.region.descriptors i).onBytes) :
    request.publish.InMemory (request.publishIn m) := by
  have hname : request.region.name ≠ 0 := fun hzero =>
    StagedRegion.name_ne_zero h (congrArg UInt64.toBitVec hzero)
  have hcount : request.region.count = N := h.countEq
  have hcall : ∀ (i : Nat), i < N → ∀ m c,
      request.region.onBytes.descriptor i (request.region.onBytes.call m c) =
        (c.vecFor i).getD (request.region.onBytes.descriptor i m) :=
    fun i hi m c => StagedRegion.call_descriptor h (Nat.lt_of_lt_of_eq hi h.countEq.symm) m c
  unfold publish publishIn
  cases htarget : request.target with
  | connected =>
      refine ⟨h, hcount, ⟨fun _ => rfl, fun _ => rfl⟩, StagedRegion.header_publish false m,
        fun i hi => ?_, nofun⟩
      exact (hcall i hi m (.publishHeader false)).trans (hvecs i hi)
  | toAddr addr =>
      refine ⟨h, hcount, ⟨fun hzero => absurd hzero hname, nofun⟩,
        StagedRegion.header_publish true _, fun i hi => ?_, fun _ => ?_⟩
      · have hbefore := (hcall i hi m (.writeName addr)).trans (hvecs i hi)
        exact (hcall i hi _ (.publishHeader true)).trans hbefore
      · have hwritten := StagedRegion.call_name h m (.writeName addr)
        exact (StagedRegion.call_name h _ (.publishHeader true)).trans hwritten

variable [StableBuffer B]

/-- After the loop every descriptor is the one that was stamped. -/
theorem descriptor_writeDescriptorsIn
    (h : request.region.onBytes.Staged (storageOf request.region.store) N) (lens : Fin N → Nat)
    (m : Memory) {i : Nat} (hi : i < N) :
    request.region.onBytes.descriptor i (request.writeDescriptorsIn lens m) =
      ((request.writeDescriptors lens).region.descriptors i).onBytes := by
  have hvalue : (request.writeDescriptors lens).region.descriptors i =
      stamp request.bufs lens ⟨i, hi⟩ := dif_pos hi
  have hcount : i < request.region.onBytes.count := Nat.lt_of_lt_of_eq hi h.countEq.symm
  have hlast := vecFor_loop rfl (fun j : Fin request.region.onBytes.count =>
    stampAt request.bufs lens j) ⟨i, hcount⟩
  rw [hvalue, ← stampAt_of_lt, writeDescriptorsIn, StagedRegion.calls_descriptor h hcount]
  exact congrArg (Option.getD · _) hlast

/-- `with_lens` keeps the values in the bytes. -/
theorem InMemory.writeDescriptors (h : request.InMemory m) (lens : Fin N → Nat) :
    (request.writeDescriptors lens).InMemory (request.writeDescriptorsIn lens m) := by
  obtain ⟨hheader, hslot⟩ :=
    StagedRegion.calls_vec_outside h.staged (request.descriptorCalls_only lens) m
  exact ⟨h.staged, h.iovlen, h.named, hheader.trans h.header,
    fun i hi => descriptor_writeDescriptorsIn h.staged lens m hi,
    fun hnamed => hslot.trans (h.slot hnamed)⟩

/-- The constructors put the values of a message in the bytes. -/
theorem inMemory_build {fd : RawFd} {bufs : Fin N → B} {store : R} {target : SendTarget}
    {flags : MsgFlags} (h : build fd bufs store target flags (fullLens bufs) = .ok request)
    (m : Memory) :
    request.InMemory
      (request.publishIn (request.writeDescriptorsIn (fullLens request.bufs) m)) := by
  have hboth := stage_onBytes store N m
  unfold build at h
  cases hstage : MsgRegion.stage store N with
  | error e =>
      rw [hstage] at h
      cases h
  | ok region =>
      rw [hstage] at h hboth
      dsimp only at h hboth
      have hstaged := stage_staged hboth
      have hstore : storageOf region.store = storageOf store := hstaged.storeEq
      rw [← hstore] at hstaged
      let prepared : MsgRequest B R N :=
        { bufs := bufs, region := region, fd := fd, flags := flags, target := target }
      let described := prepared.writeDescriptors (fullLens bufs)
      have hvecs : ∀ i < N,
          region.onBytes.descriptor i (prepared.writeDescriptorsIn (fullLens bufs) m) =
            (described.region.descriptors i).onBytes :=
        fun i hi => descriptor_writeDescriptorsIn hstaged (fullLens bufs) m hi
      have hpublished : described.publish.InMemory
          (described.publishIn (prepared.writeDescriptorsIn (fullLens bufs) m)) :=
        inMemory_publish hstaged hvecs
      cases target with
      | connected =>
          cases h
          exact hpublished
      | toAddr addr =>
          cases h
          exact hpublished

end MsgRequest

/-! ### All requests over buffers -/

namespace Request

variable [Native] [StableBufferMut R]

/-- What the values of a request say is what stands in the bytes of its storage. -/
def InMemory (self : Request B R N) (m : Memory) : Prop :=
  match self with
  | .single _ | .zc _ => True
  | .vectored r => ∀ i : Fin N,
      Width.IoVec.load .w64 m.bytes (r.array.toNat + sizeofIoVec * i) =
        (r.descriptors i).onBytes
  | .sendmsg r | .sendmsgZc r => MsgRequest.InMemory r m

/-- The kernel finds what the values say. -/
theorem InMemory.finds {r : Request B R N} {m : Memory} (h : r.InMemory m) (ring : RingId)
    (id : RequestId) : r.Finds m.bytes (r.intoPending ring id).1 := by
  cases r with
  | single r => trivial
  | zc r => trivial
  | vectored r =>
      show kernelVecs m.bytes (r.intoPending ring id).1.addr.toNat N = _
      rw [(r.names_array ring id).1, kernelVecs, ← List.map_coe_finRange_eq_range, List.map_map,
        List.ofFn_eq_map]
      exact List.map_congr_left fun i _ => h i
  | sendmsg r => exact MsgRequest.InMemory.walk h
  | sendmsgZc r => exact MsgRequest.InMemory.walk h

variable [StableBufferMut B]

/-- The constructors put the values in the bytes, whatever the memory held. -/
theorem inMemory_built {b : Build B R N} {r : Request B R N} (h : b.run = some r) (m : Memory) :
    r.InMemory (r.built m) := by
  cases b with
  | read fd buf offset => cases h; trivial
  | write fd buf offset => cases h; trivial
  | send fd buf flags => cases h; trivial
  | readv fd bufs vecs offset =>
      obtain ⟨r, hr, rfl⟩ := Option.map_eq_some_iff.mp h
      exact PreparedVectored.load_build (ok_of_toOption hr) m
  | writev fd bufs vecs offset =>
      obtain ⟨r, hr, rfl⟩ := Option.map_eq_some_iff.mp h
      exact PreparedVectored.load_build (ok_of_toOption hr) m
  | sendmsg fd bufs region target flags =>
      obtain ⟨r, hr, rfl⟩ := Option.map_eq_some_iff.mp h
      exact MsgRequest.inMemory_build (ok_of_toOption hr) m
  | sendmsgZc fd bufs region target flags =>
      obtain ⟨r, hr, rfl⟩ := Option.map_eq_some_iff.mp h
      exact MsgRequest.inMemory_build (ok_of_toOption hr) m

/-- An operation keeps the values in the bytes. -/
theorem InMemory.step {x : Request B R N × Memory} (h : x.1.InMemory x.2) (op : RequestOp B N) :
    (Request.step x op).1.InMemory (Request.step x op).2 := by
  obtain ⟨r, m⟩ := x
  cases op with
  | withLens lens =>
      cases r with
      | vectored r => exact r.load_writeArrayIn _ m
      | sendmsg r => exact MsgRequest.InMemory.writeDescriptors h _
      | sendmsgZc r => exact MsgRequest.InMemory.writeDescriptors h _
      | single r => trivial
      | zc r => trivial
  | withLen len => cases r <;> exact h
  | bufferMut use => cases r <;> exact h
  | buffersMut use =>
      cases r with
      | sendmsg r => exact ⟨h.staged, h.iovlen, h.named, h.header, h.vecs, h.slot⟩
      | sendmsgZc r => exact ⟨h.staged, h.iovlen, h.named, h.header, h.vecs, h.slot⟩
      | _ => exact h
  | refusedPush ring id => cases r <;> exact h

/-- Every sequence of operations keeps the values in the bytes. -/
theorem InMemory.run {x : Request B R N × Memory} (h : x.1.InMemory x.2)
    (ops : List (RequestOp B N)) :
    (ops.foldl Request.step x).1.InMemory (ops.foldl Request.step x).2 := by
  induction ops generalizing x with
  | nil => exact h
  | cons op ops ih => exact ih (h.step op)

/-- The operations on the memory do not change what they make of the request. -/
theorem foldl_step (x : Request B R N × Memory) (ops : List (RequestOp B N)) :
    (ops.foldl Request.step x).1 = ops.foldl Request.apply x.1 := by
  induction ops generalizing x with
  | nil => rfl
  | cons op ops ih => exact ih (Request.step x op)

end Request

/-- For every constructor that succeeds, every sequence of safe operations on the request and
whatever the memory held: what the kernel finds in the bytes, from the SQE on, is what the values
of the request say. -/
theorem request_in_memory [Native] {B R : Type} {N : Nat} [StableBufferMut B] [StableBufferMut R]
    (b : Build B R N) (r : Request B R N) (h : b.run = some r) (ops : List (RequestOp B N))
    (ring : RingId) (id : RequestId) (m : Memory) :
    (ops.foldl Request.apply r).Finds (ops.foldl Request.step (r, r.built m)).2.bytes
      ((ops.foldl Request.apply r).intoPending ring id).1 := by
  have hbuilt : (r, r.built m).1.InMemory (r, r.built m).2 := Request.inMemory_built h m
  have hrun := hbuilt.run ops
  rw [Request.foldl_step] at hrun
  exact hrun.finds ring id

section Restamped

local instance stagingEndian : Native := ⟨.little⟩

/-- A message of two buffers with an address. -/
def twoPageMessage : Build MmapBuffer MmapBuffer 2 :=
  .sendmsg ⟨4⟩ (fun i => if i.val = 0 then onePage else otherPage) stagingPage
    (.toAddr ⟨2, 0x901F, 0x0100007F, 0⟩) ⟨0⟩

/-- The buffers are swapped and one is replaced, and both descriptors are set after that: the
kernel finds the last ones, and the address as it was. -/
theorem request_in_memory_restamped :
    ∃ r, twoPageMessage.run = some r ∧
      kernelWalk .w64 (restamped.foldl Request.step (r, r.built (Memory.of fun _ => 1))).2.bytes
          0x30000 =
        { vecs := [⟨0x10000, 32⟩, ⟨0x10000, 32⟩]
          name := some [2, 0, 0x1F, 0x90, 127, 0, 0, 1, 0, 0, 0, 0, 0, 0, 0, 0] } := by
  obtain ⟨r, hr⟩ : ∃ r, twoPageMessage.run = some r := ⟨_, rfl⟩
  have hfinds := request_in_memory twoPageMessage r hr restamped ⟨1⟩ ⟨2⟩ (Memory.of fun _ => 1)
  have hrun := hr
  cases hr
  exact ⟨_, hrun, Eq.trans hfinds (by decide +kernel)⟩

end Restamped

end Ququmatz
