import Ququmatz.Owned.Reached
import Ququmatz.Proofs.Owned.Kinds
import Ququmatz.Proofs.Owned.Staging

/-!
# `Ququmatz.Proofs.Owned.Reached`: the kernel stays in the memory of the ticket

`PushMethod.ConstructedIn` is a request that its constructors can make, in a memory in which
nobody else has written to its storage. There a path still ends at its zero byte
(`OwnedPath.MadeIn.holds`), and the header of a message and an array of iovecs still lead to the
request's own buffers (`kernelMessage_inside`, `kernelArray_inside`). `constructed_owns` is the law
for all push methods: wherever the kernel gets from the SQE, by the bytes that it finds, it is in
memory that the ticket owns.
-/

set_option autoImplicit false

namespace Ququmatz

open Lib

variable {w : Width}

/-! ### Paths -/

/-- The paths that safe code made, and in whose storage nobody has written since. -/
inductive OwnedPath.MadeIn (m : Memory) : OwnedPath w → Prop
  | copyInto {storage : Storage w} {path : List UInt8} {m0 m1 : Memory} {q : OwnedPath w} :
      OwnedPath.copyInto storage path m0 = (.ok q, m1) → Untouched storage m1 m → MadeIn m q
  | adopt {storage : Storage w} {m0 m1 : Memory} {q : OwnedPath w} :
      OwnedPath.adopt storage m0 = (.ok q, m1) → Untouched storage m1 m → MadeIn m q

theorem OwnedPath.MadeIn.holds {m : Memory} {q : OwnedPath w} (h : q.MadeIn m) :
    q.Holds q.storage m := by
  cases h with
  | copyInto h hm =>
      obtain ⟨hfits, rfl, rfl⟩ := copyInto_eq_ok h
      exact ((copied_holds hfits).1.untouched hm).1
  | adopt h hm =>
      obtain ⟨hholds, hbytes⟩ := adopt_eq_ok h
      have hsame : Untouched _ _ m := fun a ha => (hm a ha).trans (congrFun hbytes a)
      have hheld := (hholds.untouched hsame).1
      rwa [← hheld.storageEq] at hheld

/-- The scan of a path does not leave its storage. -/
theorem OwnedPath.MadeIn.reads_inside {m : Memory} {q : OwnedPath w} (h : q.MadeIn m)
    {addr : Usize w} (haddr : addr = q.stablePtr) (fuel : Nat) :
    ∀ r ∈ kernelPathReads fuel m.bytes (asField addr).toNat, r.Inside q.storage.memory := by
  have hsame : Untouched q.storage m (Memory.of m.bytes) := fun _ _ => rfl
  have hholds := (h.holds.untouched hsame).1
  obtain ⟨rs, hrs, hinside⟩ := hholds.scan_reads fuel
  rw [kernelPathReads, toNat_asField, haddr, hrs]
  exact hinside

/-- The scan of a path is in the memory of a request that owns the path. -/
theorem OwnedPath.MadeIn.reads_owned {path : OwnedPath w} {m : Memory} (h : path.MadeIn m)
    {addr : Usize w} (haddr : addr = path.stablePtr) {owned : List Range}
    (howned : path.storage.memory ∈ owned) (fuel : Nat) :
    Range.AllInside (kernelPathReads fuel m.bytes (asField addr).toNat) owned :=
  fun r hr => ⟨_, howned, h.reads_inside haddr fuel r hr⟩

/-! ### The descriptors of a message -/

section Described

variable {N : Nat}

variable [Native]

/-- Each descriptor in memory is for the buffer at its place, as far as its length goes. -/
def Described (x : PreparedRecvmsg w N × Memory) : Prop :=
  ∀ i : Fin N, ∃ len ≤ (x.1.bufs i).len,
    x.1.region.descriptor i x.2 = ⟨(x.1.bufs i).addr, BitVec.ofNat w.bits len⟩

/-- Whatever the storage held, stamping describes the buffers. -/
theorem described_writeDescriptors {store : Storage w} {q : PreparedRecvmsg w N}
    (h : q.region.Staged store N) {lens : Fin N → Nat} (hlens : ∀ i, lens i ≤ (q.bufs i).len)
    (m : Memory) : Described (q, q.writeDescriptors lens m) := by
  intro i
  have hi : i.val < q.region.count := Nat.lt_of_lt_of_eq i.isLt q.counted.symm
  refine ⟨lens i, hlens i, ?_⟩
  have hlast := vecFor_loop q.counted.symm (fun j =>
    (⟨(q.bufs j).addr, BitVec.ofNat w.bits (lens j)⟩ : w.IoVec)) i
  rw [PreparedRecvmsg.writeDescriptors, StagedRegion.calls_descriptor h hi]
  exact congrArg (Option.getD · _) hlast

/-- Publishing the header does not touch the descriptors. -/
theorem Described.publish {store : Storage w} {q : PreparedRecvmsg w N} {m : Memory}
    (h : q.region.Staged store N) (hd : Described (q, m)) : Described (q, q.publish m) := by
  intro i
  obtain ⟨len, hlen, hdesc⟩ := hd i
  have hi : i.val < q.region.count := Nat.lt_of_lt_of_eq i.isLt q.counted.symm
  have hcall := StagedRegion.call_descriptor h hi
  refine ⟨len, hlen, ?_⟩
  unfold PreparedRecvmsg.publish
  cases q.peer with
  | no => exact (hcall m (.publishHeader false)).trans hdesc
  | yes =>
      have hname := hcall m (.writeName SockAddrIn.default)
      exact (hcall _ (.publishHeader true)).trans (hname.trans hdesc)

theorem described_new {fd : RawFd} {bufs : Fin N → Storage w} {store : Storage w}
    {peer : PeerWanted} {flags : MsgFlags} {m m' : Memory} {q : PreparedRecvmsg w N}
    (h : PreparedRecvmsg.new fd bufs store peer flags m = (.ok q, m')) : Described (q, m') := by
  have hstaged := (ready_new h).staged
  unfold PreparedRecvmsg.new PreparedRecvmsg.build at h
  split at h
  · cases h
  · cases h
    exact (described_writeDescriptors hstaged (fun i => Nat.le_refl _) _).publish hstaged

/-- `with_lens` describes the buffers anew, and no further than they reach. -/
theorem Described.edits {store : Storage w} {peer : PeerWanted}
    {x : PreparedRecvmsg w N × Memory} (hready : Ready store peer x) (h : Described x)
    (es : List (RecvmsgEdit N)) : Described (es.foldl (fun x e => e.apply x) x) := by
  induction es generalizing x with
  | nil => exact h
  | cons e es ih =>
      refine ih (hready.edit e) ?_
      cases e with
      | withLens lens =>
          exact described_writeDescriptors hready.staged (fun i => Nat.min_le_right _ _) _
      | refusedPush ring id => exact h

end Described

/-! ### What the header of a message leads to -/

section Message

variable {N : Nat} {store : Storage w} {peer : PeerWanted}

/-- Loads from the storage do not see what was done elsewhere. -/
theorem OwnedPath.Untouched.load {m m' : Memory} (h : Untouched store m m') {r : Range}
    (hin : r.Inside store.memory) :
    Bytes.load m'.bytes r.start r.len = Bytes.load m.bytes r.start r.len := by
  refine List.map_congr_left fun i hi => h _ ?_
  have hlt := List.mem_range.mp hi
  exact Range.inside_iff.mp hin _ ⟨Nat.le_add_right _ _, Nat.add_lt_add_left hlt _⟩

variable [Native]

/-- From the header of a message that was published the kernel gets to the parts of the region,
and to what the descriptors name. -/
theorem kernelMessage_inside {region : StagedRegion w} {count : Nat}
    (hstaged : region.Staged store count) {named : Bool} {m m' : Memory}
    (hheader : region.header m = region.headerFor named) {owned : List Range}
    (hstore : store.memory ∈ owned)
    (hdesc : ∀ i < count, ∃ r ∈ owned, Range.Inside
      ⟨(region.descriptor i m).base.toNat, (region.descriptor i m).len.toNat⟩ r)
    (hm : OwnedPath.Untouched store m m') :
    Range.AllInside (kernelMessageRanges w m'.bytes region.hdr.toNat) owned := by
  have hinside : ∀ r ∈ region.parts, r.Inside store.memory := by
    rw [← hstaged.storeEq]
    exact hstaged.laidOut.inside
  have hvecs := hinside region.vecsRange (by simp [StagedRegion.parts])
  -- the header and the descriptors are as they were
  have hheader' : Width.MsgHdr.load w m'.bytes region.hdr.toNat = region.headerFor named :=
    (Width.MsgHdr.load_congr (hm.load (hinside region.hdrRange
      (by simp [StagedRegion.parts])))).trans hheader
  have hvec : ∀ i < region.count, Width.IoVec.load w m'.bytes
      (region.vecs.toNat + w.sizeofIoVec * i) = region.descriptor i m := by
    intro i hi
    have hle : w.sizeofIoVec * i + w.sizeofIoVec ≤ w.sizeofIoVec * region.count :=
      Bytes.elem_end_le hi
    have hpart : Range.Inside ⟨region.vecs.toNat + w.sizeofIoVec * i, w.sizeofIoVec⟩
        region.vecsRange :=
      Or.inr ⟨Nat.le_add_right _ _, by
        show _ ≤ region.vecs.toNat + w.sizeofIoVec * region.count
        dsimp only
        omega⟩
    exact Width.IoVec.load_congr (hm.load (Range.Inside.trans hpart hvecs))
  rw [kernelMessageRanges, kernelWalk]
  simp only [hheader', StagedRegion.headerFor_msgIovlen hstaged, StagedRegion.headerFor_msgIov,
    StagedRegion.headerFor_msgName, StagedRegion.headerFor_msgNamelen]
  rw [Range.allInside_append]
  constructor
  · intro r hr
    refine ⟨_, hstore, ?_⟩
    simp only [List.mem_cons, List.not_mem_nil, or_false] at hr
    rcases hr with rfl | rfl | rfl | rfl
    · exact hinside region.hdrRange (by simp [StagedRegion.parts])
    · exact hvecs
    · -- the address slot, if the header names it
      cases named with
      | false => exact Or.inl rfl
      | true =>
          show Range.Inside ⟨region.name.toNat,
            if region.name = 0 then 0 else sizeofSockAddrIn⟩ _
          rw [if_neg (StagedRegion.name_ne_zero hstaged)]
          exact hinside region.nameRange (by simp [StagedRegion.parts])
    · -- a header has no control data
      cases named <;> exact Or.inl (BitVec.toNat_zero)
  · intro r hr
    obtain ⟨vec, hvecmem, rfl⟩ := List.mem_map.mp hr
    obtain ⟨i, hi, rfl⟩ := List.mem_map.mp hvecmem
    rw [hvec i (List.mem_range.mp hi)]
    exact hdesc i (Nat.lt_of_lt_of_eq (List.mem_range.mp hi) hstaged.countEq)

/-- Each descriptor of a receive names a part of its own buffer. -/
theorem Described.inside {q : PreparedRecvmsg w N} {m : Memory} (h : Described (q, m)) :
    ∀ i < N, ∃ r ∈ store.memory :: List.ofFn fun i => (q.bufs i).memory, Range.Inside
      ⟨(q.region.descriptor i m).base.toNat, (q.region.descriptor i m).len.toNat⟩ r := by
  intro i hi
  obtain ⟨len, hlen, hdesc⟩ := h ⟨i, hi⟩
  refine ⟨(q.bufs ⟨i, hi⟩).memory,
    List.mem_cons_of_mem _ ((List.mem_ofFn' _ _).mpr ⟨⟨i, hi⟩, rfl⟩), Or.inr ?_⟩
  have hload : q.region.descriptor i m = ⟨(q.bufs ⟨i, hi⟩).addr, BitVec.ofNat w.bits len⟩ := hdesc
  rw [hload]
  refine ⟨Nat.le_refl _, Nat.add_le_add_left (Nat.le_trans ?_ hlen) _⟩
  show (BitVec.ofNat w.bits len).toNat ≤ len
  rw [BitVec.toNat_ofNat]
  exact Nat.mod_le _ _

end Message

/-! ### Requests over buffers -/

section Buffers

variable {B R : Type} {N : Nat} [StableBufferMut R] {m m' : Memory}

theorem storageOf_memory (store : R) : (storageOf store).memory = memoryOf store := by
  show (⟨(StableBufferMut.stableMutPtr store).toNat, _⟩ : Range) = _
  rw [StableBufferMut.mutPtr_eq]
  rfl

/-- A descriptor names no more in memory than it does as a value. -/
theorem IoVec.onBytes_inside {v : IoVec} {r : Range} (h : v.range.Inside r) :
    Range.Inside ⟨v.onBytes.base.toNat, v.onBytes.len.toNat⟩ r := by
  have hlen : v.onBytes.len.toNat ≤ v.len := by
    show (BitVec.ofNat 64 v.len).toNat ≤ v.len
    rw [BitVec.toNat_ofNat]
    exact Nat.mod_le _ _
  have hshorter : Range.Inside ⟨v.onBytes.base.toNat, v.onBytes.len.toNat⟩ v.range :=
    Or.inr ⟨Nat.le_refl _, Nat.add_le_add_left hlen v.base.toNat⟩
  exact hshorter.trans h

variable [Native]

/-- From an array of iovecs the kernel gets to what the descriptors name as values. -/
theorem kernelArray_inside [StableBuffer B] {r : PreparedVectored B R N} {captured : Fin N → Range}
    {bufs : Fin N → B} {vecs : R} (htracks : Tracks (.vectored r) (.many captured bufs vecs))
    (hmem : (Request.vectored r).InMemory m)
    (hm : OwnedPath.Untouched (storageOf r.vecs) m m') {owned : List Range}
    (hown : Range.AllInside (⟨r.array.toNat, sizeofIoVec * (N % 2 ^ 32)⟩ ::
      ((List.ofFn r.descriptors).take (N % 2 ^ 32)).map IoVec.range) owned) :
    Range.AllInside (kernelArrayRanges m'.bytes r.array.toNat (N % 2 ^ 32)) owned := by
  obtain ⟨-, hvecs, harray, hroom, -⟩ := htracks
  -- the array is as it was
  have hload : ∀ i (hi : i < N), Width.IoVec.load .w64 m'.bytes
      (r.array.toNat + sizeofIoVec * i) = (r.descriptors ⟨i, hi⟩).onBytes := by
    intro i hi
    have hend : sizeofIoVec * i + sizeofIoVec ≤ sizeofIoVec * N := Bytes.elem_end_le hi
    have hinside : Range.Inside ⟨r.array.toNat + sizeofIoVec * i, Width.w64.sizeofIoVec⟩
        (storageOf r.vecs).memory := by
      rw [storageOf_memory, hvecs, harray]
      refine Or.inr ⟨Nat.le_add_right _ _, ?_⟩
      show _ + sizeofIoVec * i + sizeofIoVec ≤ _
      dsimp only [memoryOf]
      omega
    exact (Width.IoVec.load_congr (hm.load hinside)).trans (hmem ⟨i, hi⟩)
  intro range hrange
  rcases List.mem_cons.mp hrange with rfl | hrange
  · exact hown _ List.mem_cons_self
  · obtain ⟨vec, hvec, rfl⟩ := List.mem_map.mp hrange
    obtain ⟨i, hi, rfl⟩ := List.mem_map.mp hvec
    have hlt : i < N % 2 ^ 32 := List.mem_range.mp hi
    have hlt' : i < N := Nat.lt_of_lt_of_le hlt (Nat.mod_le _ _)
    have hnamed : (r.descriptors ⟨i, hlt'⟩).range ∈
        ((List.ofFn r.descriptors).take (N % 2 ^ 32)).map IoVec.range :=
      List.mem_map.mpr ⟨_, List.mem_take_iff_getElem.mpr
        ⟨i, by rw [List.length_ofFn]; omega, List.getElem_ofFn _⟩, rfl⟩
    obtain ⟨s, hs, hinside⟩ := hown _ (List.mem_cons_of_mem _ hnamed)
    rw [hload i hlt']
    exact ⟨s, hs, IoVec.onBytes_inside hinside⟩

/-- From the header of a message the kernel gets to what the request names as values. -/
theorem MsgRequest.InMemory.reached {r : MsgRequest B R N} (h : r.InMemory m)
    (hm : OwnedPath.Untouched (storageOf r.region.store) m m') {owned : List Range}
    (hstore : memoryOf r.region.store ∈ owned) (hown : Range.AllInside r.region.followed owned) :
    Range.AllInside (kernelMessageRanges .w64 m'.bytes r.region.hdr.toNat) owned := by
  rw [← storageOf_memory] at hstore
  refine kernelMessage_inside h.staged h.header hstore (fun i hi => ?_) hm
  have hnamed : (r.region.descriptors i).range ∈ r.region.followed :=
    List.mem_append_right _ (List.mem_map.mpr
      ⟨i, List.mem_range.mpr (Nat.lt_of_lt_of_eq hi h.iovlen.symm), rfl⟩)
  obtain ⟨s, hs, hinside⟩ := hown _ hnamed
  rw [h.vecs i hi]
  exact ⟨s, hs, IoVec.onBytes_inside hinside⟩

/-- Wherever the kernel gets from the SQE of a request over buffers, it is in memory of the
ticket, if this is so of what the request names as values. -/
theorem Request.InMemory.reached [StableBuffer B] {q : Request B R N} {f : Footprint B R N}
    (htracks : Tracks q f) (h : q.InMemory m)
    (hm : ∀ s ∈ q.staging, OwnedPath.Untouched s m m') (ring : RingId) (id : RequestId)
    (hown : q.AddressesOwned ring id) :
    Range.AllInside ((q.intoPending ring id).2.reached m'.bytes (q.intoPending ring id).1)
      (q.intoPending ring id).2.memory := by
  cases q with
  | single r => exact hown
  | zc r => exact hown
  | vectored r =>
      cases f with
      | one => exact htracks.elim
      | many captured bufs vecs =>
          obtain ⟨haddr, hlen⟩ := r.names_array ring id
          have hnamed : Range.AllInside (⟨(r.intoPending ring id).1.addr.toNat,
                sizeofIoVec * (r.intoPending ring id).1.len.toNat⟩ ::
              ((List.ofFn r.descriptors).take (r.intoPending ring id).1.len.toNat).map IoVec.range)
            _ := hown
          show Range.AllInside (kernelArrayRanges m'.bytes (r.intoPending ring id).1.addr.toNat
            (r.intoPending ring id).1.len.toNat) _
          rw [haddr, hlen, UInt32.toNat_ofNat'] at hnamed ⊢
          exact kernelArray_inside htracks h (hm _ rfl) hnamed
  | sendmsg r =>
      exact MsgRequest.InMemory.reached h (hm _ rfl) List.mem_cons_self
        fun s hs => hown s (List.mem_cons_of_mem _ hs)
  | sendmsgZc r =>
      exact MsgRequest.InMemory.reached h (hm _ rfl) List.mem_cons_self
        fun s hs => hown s (List.mem_cons_of_mem _ hs)

end Buffers

/-! ### All push methods -/

section Methods

variable [Native] {B R : Type} [StableBufferMut B] [StableBufferMut R] {packed : Bool} {m : Memory}

/-- The requests that the constructors make, where nobody but their owner has written since to
the storage that the kernel follows: paths, and the region of a message. -/
def PushMethod.ConstructedIn (m : Memory) :
    (k : PushMethod) → (PushMethod.kind B R w packed k).Prepared → Prop
  | .buffers n => fun q : Request B R n => ∃ (b : Build B R n) (r : Request B R n)
      (ops : List (RequestOp B n)) (m0 : Memory), b.run = some r ∧
        (∀ op ∈ ops, op.lendsNone = true) ∧ q = ops.foldl Request.apply r ∧
        ∀ s ∈ q.staging, OwnedPath.Untouched s (ops.foldl Request.step (r, r.built m0)).2 m
  | .openat => fun q : PreparedOpen w => ∃ dir path flags mode,
      path.MadeIn m ∧ q = PreparedOpen.at dir path flags mode
  | .pathOp => fun q : PreparedPathOp w => ∃ dir path kind,
      path.MadeIn m ∧ q = PreparedPathOp.new dir path kind
  | .rename => fun q : PreparedRename w => ∃ fromDir fromPath toDir toPath mode,
      fromPath.MadeIn m ∧ toPath.MadeIn m ∧
        q = PreparedRename.new fromDir fromPath toDir toPath mode
  | .link => fun q : PreparedLink w => ∃ oldPath newPath kind,
      oldPath.MadeIn m ∧ newPath.MadeIn m ∧ q = PreparedLink.new oldPath newPath kind
  | .directOpen => fun q : PreparedDirectOpen w => ∃ dir path flags mode target,
      path.MadeIn m ∧ PreparedDirectOpen.at dir path flags mode target = .ok q
  | .openat2 => fun q : PreparedOpenat2 w => ∃ dir path flags mode resolve store m0 m1,
      path.MadeIn m ∧ PreparedOpenat2.at dir path flags mode resolve store m0 = (.ok q, m1)
  | .statx => fun q : PreparedStatx w => ∃ dir path flags mask dest,
      path.MadeIn m ∧ PreparedStatx.at dir path flags mask dest = .ok q
  | .recvmsg n => fun q : PreparedRecvmsg w n => ∃ fd bufs store peer flags m0 made m1 edits m2,
      PreparedRecvmsg.new fd bufs store peer flags m0 = (.ok made, m1) ∧
        List.foldl (fun x e => RecvmsgEdit.apply e x) (made, m1) edits = (q, m2) ∧
        OwnedPath.Untouched store m2 m
  | k => k.Constructed

/-- For every push method, every request that its constructors can make and every identity of the
push, wherever the kernel gets from the SQE by following the bytes in memory, it is in memory that
the ticket owns. The words of futexes stay with the caller and are not among these ranges. -/
theorem constructed_owns (k : PushMethod) (q : (PushMethod.kind B R w packed k).Prepared)
    (m : Memory) (h : k.ConstructedIn m q) (fuel : Nat) (ring : RingId) (id : RequestId) :
    Range.AllInside
      (PushMethod.reached fuel m.bytes k
        ((PushMethod.kind B R w packed k).intoPending q ring id).2
        ((PushMethod.kind B R w packed k).intoPending q ring id).1)
      ((PushMethod.kind B R w packed k).keeps
        ((PushMethod.kind B R w packed k).intoPending q ring id).2) := by
  -- what an SQE names itself is in the memory of a sound request
  have hnamed : k.Constructed q → Range.AllInside
      ((PushMethod.kind B R w packed k).named
        ((PushMethod.kind B R w packed k).intoPending q ring id).2
        ((PushMethod.kind B R w packed k).intoPending q ring id).1)
      ((PushMethod.kind B R w packed k).keeps
        ((PushMethod.kind B R w packed k).intoPending q ring id).2) := by
    intro hmade
    rw [(PushMethod.kind B R w packed k).keeps_intoPending]
    exact (PushMethod.kind B R w packed k).named_inside q ring id (constructed_sound k q hmade)
  cases k with
  | buffers n =>
      obtain ⟨b, r, ops, m0, hrun, hops, rfl, hm⟩ := h
      have hbuilt : (r, r.built m0).1.InMemory (r, r.built m0).2 := Request.inMemory_built hrun m0
      have hmem := hbuilt.run ops
      rw [Request.foldl_step] at hmem
      exact hmem.reached ((tracks_build hrun).applyAll ops) hm ring id
        (hnamed ⟨b, r, ops, hrun, hops, rfl⟩)
  | openat =>
      obtain ⟨dir, path, flags, mode, hpath, rfl⟩ := h
      exact hpath.reads_owned rfl List.mem_cons_self fuel
  | pathOp =>
      obtain ⟨dir, path, kind, hpath, rfl⟩ := h
      cases kind <;> exact hpath.reads_owned rfl List.mem_cons_self fuel
  | rename =>
      obtain ⟨fromDir, fromPath, toDir, toPath, mode, hfrom, hto, rfl⟩ := h
      exact Range.allInside_append.mpr ⟨hfrom.reads_owned rfl List.mem_cons_self fuel,
        hto.reads_owned rfl (List.mem_cons_of_mem _ List.mem_cons_self) fuel⟩
  | link =>
      obtain ⟨oldPath, newPath, kind, hold, hnew, rfl⟩ := h
      cases kind <;> exact Range.allInside_append.mpr
        ⟨hold.reads_owned rfl List.mem_cons_self fuel,
          hnew.reads_owned rfl (List.mem_cons_of_mem _ List.mem_cons_self) fuel⟩
  | directOpen =>
      obtain ⟨dir, path, flags, mode, target, hpath, hat⟩ := h
      unfold PreparedDirectOpen.at at hat
      split at hat <;> cases hat
      exact hpath.reads_owned rfl List.mem_cons_self fuel
  | openat2 =>
      obtain ⟨dir, path, flags, mode, resolve, store, m0, m1, hpath, hat⟩ := h
      by_cases hfits : PreparedOpenat2.Adequate mode store
      · rw [PreparedOpenat2.at_ok dir path flags resolve m0 hfits] at hat
        cases hat
        exact (hpath.reads_owned rfl List.mem_cons_self fuel).concat
          (List.mem_cons_of_mem _ List.mem_cons_self) (Storage.start_inside rfl hfits.room)
      · obtain ⟨e, he⟩ := PreparedOpenat2.at_refused dir path flags resolve m0 hfits
        rw [he] at hat
        cases hat
  | statx =>
      obtain ⟨dir, path, flags, mask, dest, hpath, hat⟩ := h
      unfold PreparedStatx.at at hat
      split at hat
      · cases hat
      · split at hat <;> cases hat
        exact (hpath.reads_owned rfl List.mem_cons_self fuel).concat
          (List.mem_cons_of_mem _ List.mem_cons_self) (Destination.written_inside _)
  | recvmsg n =>
      obtain ⟨fd, bufs, store, peer, flags, m0, made, m1, edits, m2, hnew, hedits, hm⟩ := h
      -- the region is ready and describes the buffers, after every edit
      have hready := (ready_new hnew).edits edits
      have hdesc := (described_new hnew).edits (ready_new hnew) edits
      rw [hedits] at hready hdesc
      have hinside := kernelMessage_inside hready.staged hready.header List.mem_cons_self
        hdesc.inside hm
      rw [← recvmsg_sqe_addr q ring id, ← hready.staged.storeEq] at hinside
      exact hinside
  | filesUpdate n => exact hnamed h
  | multishot => exact hnamed h
  | readMultishot => exact hnamed h
  | accept => exact hnamed h
  | directAccept => exact hnamed h
  | directSocket => exact hnamed h
  | cancel => exact hnamed h
  | msgRing => exact hnamed h
  | fixedFdInstall => exact hnamed h
  | futexWait => exact hnamed h
  | futexWake => exact hnamed h
  | futexWaitv => exact hnamed h
  | waitid => exact hnamed h
  | epollCtl => exact hnamed h
  | epollWait => exact hnamed h
  | pipe => exact hnamed h
  | bind => exact hnamed h
  | connect => exact hnamed h
  | timeout => exact hnamed h

end Methods

/-! ### A receive -/

local instance reachedEndian : Native := ⟨.little⟩

/-- A receive into one buffer of 64 bytes, in a region with no byte to spare. -/
def oneBufferReceive : PreparedRecvmsg .w64 1 where
  bufs := fun _ => ⟨8192, 64, by decide⟩
  region :=
    { store := ⟨4096, 88, by decide⟩, hdr := 4096, vecs := 4152, name := 4168, count := 1 }
  fd := ⟨4⟩
  flags := ⟨0⟩
  peer := .yes
  counted := rfl

/-- The buffer is shortened, and a push is refused. -/
def receiveEdits : List (RecvmsgEdit 1) := [.withLens fun _ => 32, .refusedPush ⟨7⟩ ⟨1⟩]

/-- The kernel gets to the header, the descriptor, the address slot and half of the buffer,
although the region was full of other bytes before. -/
theorem constructed_owns_receive :
    ∃ m0 m1 m, PreparedRecvmsg.new ⟨4⟩ oneBufferReceive.bufs oneBufferReceive.region.store .yes ⟨0⟩
        m0 = (.ok oneBufferReceive, m1) ∧
      receiveEdits.foldl (fun x e => e.apply x) (oneBufferReceive, m1) = (oneBufferReceive, m) ∧
      let K := PreparedRecvmsg.requestKind .w64 1
      let (sqe, t) := K.intoPending oneBufferReceive ⟨7⟩ ⟨2⟩
      kernelMessageRanges .w64 m.bytes sqe.addr.toNat
        = [⟨4096, 56⟩, ⟨4152, 16⟩, ⟨4168, 16⟩, ⟨0, 0⟩, ⟨8192, 32⟩] ∧
      Range.AllInside (kernelMessageRanges .w64 m.bytes sqe.addr.toNat) (K.keeps t) := by
  let m0 := Memory.of fun _ => 0xFF
  let m1 := oneBufferReceive.publish (oneBufferReceive.writeDescriptors (fun _ => 64) m0)
  let m := oneBufferReceive.writeDescriptors (fun _ => 32) m1
  have hnew : PreparedRecvmsg.new ⟨4⟩ oneBufferReceive.bufs oneBufferReceive.region.store .yes ⟨0⟩
      m0 = (.ok oneBufferReceive, m1) := rfl
  have hedits : receiveEdits.foldl (fun x e => e.apply x) (oneBufferReceive, m1)
      = (oneBufferReceive, m) := rfl
  refine ⟨m0, m1, m, hnew, hedits, by decide +kernel, ?_⟩
  exact @constructed_owns .w64 reachedEndian MmapBuffer MmapBuffer _ _ true (.recvmsg 1)
    oneBufferReceive m ⟨_, _, _, _, _, m0, _, m1, receiveEdits, m, hnew, hedits, fun _ _ => rfl⟩
    0 ⟨7⟩ ⟨2⟩

end Ququmatz
