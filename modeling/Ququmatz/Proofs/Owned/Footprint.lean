import Mathlib.Data.List.OfFn
import Ququmatz.Owned.Footprint

/-!
# `Ququmatz.Proofs.Owned.Footprint`: a ticket names what was captured

`Tracks` relates a request to its footprint: cached addresses and stamped descriptors are
what was captured, and the staging area lies in the store. Every constructor establishes it
(`tracks_build`), every operation keeps it (`Tracks.apply`), and at the push it says what the
SQE names (`Tracks.owned_iff`). So the ticket owns all of it if and only if the buffers then
in place still cover what was captured. `buffer_mut` does not capture anew, which is how they
can fail to.
-/

set_option autoImplicit false

namespace Ququmatz

open Lib

variable {B R : Type} {N : Nat}

/-! ### The relation -/

/-- The region is staged in `store` for `N` descriptors, and its header is published. -/
structure Staged [StableBuffer R] (region : MsgRegion R) (store : R) (N : Nat) : Prop where
  store_eq : region.store = store
  count_le : N ≤ MAX_IOV
  room : MsgRegion.bytesFor N ≤ StableBuffer.stableLen store
  hdr_eq : region.hdr = StableBuffer.stablePtr store
  iov_eq : region.header.msgIov = StableBuffer.stablePtr store + UInt64.ofNat sizeofMsgHdr
  iovlen_eq : region.header.msgIovlen = N
  name : region.header.msgNamelen = 0 ∨
    (region.header.msgNamelen = UInt32.ofNat sizeofSockAddrIn ∧
      region.header.msgName
        = StableBuffer.stablePtr store + UInt64.ofNat (MsgRegion.nameOffset N))
  control : region.header.msgControllen = 0

/-- A message request and its footprint. -/
structure MsgTracks [StableBuffer R] (r : MsgRequest B R N) (captured : Fin N → Range)
    (bufs : Fin N → B) (store : R) : Prop where
  bufs_eq : r.bufs = bufs
  staged : Staged r.region store N
  descriptors : ∀ i : Fin N, (r.region.descriptors i.val).range = captured i

/-- A request and its footprint. -/
def Tracks [StableBuffer B] [StableBuffer R] : Request B R N → Footprint B R N → Prop
  | .single r, .one captured buf => r.buf = buf ∧ captured = ⟨r.addr.toNat, r.len.toNat⟩
  | .zc r, .one captured buf => r.buf = buf ∧ captured = ⟨r.addr.toNat, r.len.toNat⟩
  | .vectored r, .many captured bufs store =>
      r.bufs = bufs ∧ r.vecs = store ∧ r.array = StableBuffer.stablePtr store ∧
        sizeofIoVec * N ≤ StableBuffer.stableLen store ∧
        ∀ i, (r.descriptors i).range = captured i
  | .sendmsg r, .many captured bufs store => MsgTracks r captured bufs store
  | .sendmsgZc r, .many captured bufs store => MsgTracks r captured bufs store
  | _, _ => False

/-! ### Construction -/

theorem ok_of_toOption {ε α : Type} {x : Except ε α} {a : α} (h : x.toOption = some a) :
    x = .ok a := by
  cases x with
  | ok b =>
      cases h
      rfl
  | error e => cases h

theorem clampLen_toNat (n : Nat) : (clampLen n).toNat = min 4294967295 n := by
  unfold clampLen
  by_cases h : n > 4294967295
  · rw [if_pos h]
    show 4294967295 = _
    omega
  · rw [if_neg h, UInt32.toNat_ofNat']
    omega

theorem stamp_fullLens [StableBuffer B] (bufs : Fin N → B) (i : Fin N) :
    (stamp bufs (fullLens bufs) i).range = memoryOf (bufs i) := rfl

theorem tracks_vectored [StableBuffer B] [StableBufferMut R] {fd : RawFd} {bufs : Fin N → B}
    {vecs : R} {offset : UInt64} {direction : Direction} {r : PreparedVectored B R N}
    (h : PreparedVectored.build fd bufs vecs offset direction (fullLens bufs) = .ok r) :
    Tracks (.vectored r) (.many (fun i => memoryOf (bufs i)) bufs vecs) := by
  unfold PreparedVectored.build at h
  by_cases hlen : StableBuffer.stableLen vecs < sizeofIoVec * N
  · rw [if_pos hlen] at h
    cases h
  · rw [if_neg hlen] at h
    by_cases halign : (StableBufferMut.stableMutPtr vecs).toNat % alignofIoVec ≠ 0
    · rw [if_pos halign] at h
      cases h
    · rw [if_neg halign] at h
      cases h
      exact ⟨rfl, rfl, StableBufferMut.mutPtr_eq vecs, Nat.not_lt.mp hlen,
        stamp_fullLens bufs⟩

/-- A region that was staged, described and published. -/
theorem staged_publish [StableBuffer B] [StableBufferMut R] {region : R} {staged : MsgRegion R}
    (h : MsgRegion.stage region N = .ok staged) (fd : RawFd) (bufs : Fin N → B)
    (target : SendTarget) (flags : MsgFlags) (lens : Fin N → Nat) :
    MsgTracks (MsgRequest.publish
        (MsgRequest.writeDescriptors ⟨bufs, staged, fd, flags, target⟩ lens))
      (fun i => (stamp bufs lens i).range) bufs region := by
  unfold MsgRegion.stage at h
  by_cases hcount : N > MAX_IOV
  · rw [if_pos hcount] at h
    cases h
  rw [if_neg hcount] at h
  by_cases hlen : StableBuffer.stableLen region < MsgRegion.bytesFor N
  · rw [if_pos hlen] at h
    cases h
  rw [if_neg hlen] at h
  by_cases halign : (StableBufferMut.stableMutPtr region).toNat % alignofMsgHdr ≠ 0
  · rw [if_pos halign] at h
    cases h
  rw [if_neg halign] at h
  cases h
  have hptr := StableBufferMut.mutPtr_eq region
  -- the two targets publish different headers over the same layout
  cases target with
  | connected =>
      refine ⟨rfl, ⟨rfl, Nat.not_lt.mp hcount, Nat.not_lt.mp hlen, hptr, ?_, rfl, Or.inl rfl, rfl⟩,
        fun i => ?_⟩
      · exact congrArg (· + _) hptr
      · show IoVec.range (if h : i.val < N then _ else _) = _
        rw [dif_pos i.isLt]
  | toAddr addr =>
      refine ⟨rfl, ⟨rfl, Nat.not_lt.mp hcount, Nat.not_lt.mp hlen, hptr, ?_, rfl,
        Or.inr ⟨rfl, ?_⟩, rfl⟩, fun i => ?_⟩
      · exact congrArg (· + _) hptr
      · exact congrArg (· + _) hptr
      · show IoVec.range (if h : i.val < N then _ else _) = _
        rw [dif_pos i.isLt]

theorem tracks_msg [StableBuffer B] [StableBufferMut R] {fd : RawFd} {bufs : Fin N → B}
    {region : R} {target : SendTarget} {flags : MsgFlags} {r : MsgRequest B R N}
    (h : MsgRequest.build fd bufs region target flags (fullLens bufs) = .ok r) :
    MsgTracks r (fun i => memoryOf (bufs i)) bufs region := by
  unfold MsgRequest.build at h
  cases hs : MsgRegion.stage region N with
  | error e =>
      rw [hs] at h
      cases h
  | ok staged =>
      rw [hs] at h
      cases h
      exact staged_publish hs fd bufs target flags (fullLens bufs)

/-- Every constructor starts with the footprint of its arguments. -/
theorem tracks_build [StableBufferMut B] [StableBufferMut R] {b : Build B R N}
    {r : Request B R N} (h : b.run = some r) : Tracks r b.footprint := by
  cases b with
  | read fd buf offset =>
      -- the kernel writes through the other pointer of the buffer
      cases h
      refine ⟨rfl, ?_⟩
      show firstBytes buf 4294967295
        = ⟨(StableBufferMut.stableMutPtr buf).toNat, (clampLen _).toNat⟩
      rw [StableBufferMut.mutPtr_eq, clampLen_toNat]
      rfl
  | write fd buf offset =>
      cases h
      refine ⟨rfl, ?_⟩
      show firstBytes buf 4294967295 = ⟨(StableBuffer.stablePtr buf).toNat, (clampLen _).toNat⟩
      rw [clampLen_toNat]
      rfl
  | send fd buf flags =>
      cases h
      refine ⟨rfl, ?_⟩
      show firstBytes buf 4294967295 = ⟨(StableBuffer.stablePtr buf).toNat, (clampLen _).toNat⟩
      rw [clampLen_toNat]
      rfl
  | readv fd bufs vecs offset =>
      obtain ⟨p, hp, rfl⟩ := Option.map_eq_some_iff.mp h
      exact tracks_vectored (ok_of_toOption hp)
  | writev fd bufs vecs offset =>
      obtain ⟨p, hp, rfl⟩ := Option.map_eq_some_iff.mp h
      exact tracks_vectored (ok_of_toOption hp)
  | sendmsg fd bufs region target flags =>
      obtain ⟨p, hp, rfl⟩ := Option.map_eq_some_iff.mp h
      exact tracks_msg (ok_of_toOption hp)
  | sendmsgZc fd bufs region target flags =>
      obtain ⟨p, hp, rfl⟩ := Option.map_eq_some_iff.mp h
      exact tracks_msg (ok_of_toOption hp)

/-! ### The operations -/

theorem withLen_toNat (old len : UInt32) :
    (if len < old then len else old).toNat = min len.toNat old.toNat := by
  by_cases h : len < old
  · rw [if_pos h]
    have := UInt32.lt_iff_toNat_lt.mp h
    omega
  · rw [if_neg h]
    have := UInt32.le_iff_toNat_le.mp (UInt32.not_lt.mp h)
    omega

theorem Prepared.withLen_eq (r : Prepared B) (len : UInt32) :
    r.withLen len = { r with len := if len < r.len then len else r.len } := by
  unfold Prepared.withLen
  split <;> rfl

theorem PreparedZc.withLen_eq (r : PreparedZc B) (len : UInt32) :
    r.withLen len = { r with len := if len < r.len then len else r.len } := by
  unfold PreparedZc.withLen
  split <;> rfl

theorem MsgTracks.withLens [StableBuffer B] [StableBuffer R] {r : MsgRequest B R N}
    {captured : Fin N → Range} {bufs : Fin N → B} {store : R}
    (h : MsgTracks r captured bufs store) (lens : Fin N → Nat) :
    MsgTracks (r.withLens lens) (fun i => firstBytes (bufs i) (lens i)) bufs store where
  bufs_eq := h.bufs_eq
  staged := { h.staged with }
  descriptors := by
    intro i
    show IoVec.range (if hi : i.val < N then _ else _) = _
    rw [dif_pos i.isLt]
    rw [← h.bufs_eq]
    rfl

/-- Every operation keeps the footprint. -/
theorem Tracks.apply [StableBuffer B] [StableBuffer R] {r : Request B R N}
    {f : Footprint B R N} (h : Tracks r f) (op : RequestOp B N) :
    Tracks (r.apply op) (f.apply op) := by
  -- `with_len` shrinks what is captured, `buffer_mut` changes what is owned and not what is
  -- captured, and the other operations are not of this request.
  cases r with
  | single r =>
      cases f with
      | many => exact h.elim
      | one captured buf =>
          obtain ⟨rfl, rfl⟩ := h
          cases op with
          | withLen len =>
              show Tracks (.single (r.withLen len)) _
              rw [Prepared.withLen_eq]
              exact ⟨rfl, congrArg (Range.mk _) (withLen_toNat r.len len).symm⟩
          | withLens lens => exact ⟨rfl, rfl⟩
          | bufferMut use => exact ⟨rfl, rfl⟩
          | buffersMut use => exact ⟨rfl, rfl⟩
          | refusedPush ring id => exact ⟨rfl, rfl⟩
  | zc r =>
      cases f with
      | many => exact h.elim
      | one captured buf =>
          obtain ⟨rfl, rfl⟩ := h
          cases op with
          | withLen len =>
              show Tracks (.zc (r.withLen len)) _
              rw [PreparedZc.withLen_eq]
              exact ⟨rfl, congrArg (Range.mk _) (withLen_toNat r.len len).symm⟩
          | withLens lens => exact ⟨rfl, rfl⟩
          | bufferMut use => exact ⟨rfl, rfl⟩
          | buffersMut use => exact ⟨rfl, rfl⟩
          | refusedPush ring id => exact ⟨rfl, rfl⟩
  | vectored r =>
      cases f with
      | one => exact h.elim
      | many captured bufs store =>
          obtain ⟨rfl, rfl, harray, hroom, hdesc⟩ := h
          cases op with
          | withLen len => exact ⟨rfl, rfl, harray, hroom, hdesc⟩
          | withLens lens => exact ⟨rfl, rfl, harray, hroom, fun i => rfl⟩
          | bufferMut use => exact ⟨rfl, rfl, harray, hroom, hdesc⟩
          | buffersMut use => exact ⟨rfl, rfl, harray, hroom, hdesc⟩
          | refusedPush ring id => exact ⟨rfl, rfl, harray, hroom, hdesc⟩
  | sendmsg r =>
      cases f with
      | one => exact h.elim
      | many captured bufs store =>
          cases op with
          | withLen len => exact h
          | withLens lens => exact h.withLens lens
          | bufferMut use => exact h
          | buffersMut use => exact ⟨congrArg use h.bufs_eq, h.staged, h.descriptors⟩
          | refusedPush ring id => exact h
  | sendmsgZc r =>
      cases f with
      | one => exact h.elim
      | many captured bufs store =>
          cases op with
          | withLen len => exact h
          | withLens lens => exact h.withLens lens
          | bufferMut use => exact h
          | buffersMut use => exact ⟨congrArg use h.bufs_eq, h.staged, h.descriptors⟩
          | refusedPush ring id => exact h

theorem Tracks.applyAll [StableBuffer B] [StableBuffer R] {r : Request B R N}
    {f : Footprint B R N} (h : Tracks r f) (ops : List (RequestOp B N)) :
    Tracks (ops.foldl Request.apply r) (ops.foldl Footprint.apply f) := by
  induction ops generalizing r f with
  | nil => exact h
  | cons op ops ih => exact ih (h.apply op)

/-! ### The push -/

/-- An offset into a store that lies in the address space does not wrap. -/
theorem store_offset [StableBuffer R] (store : R) (off : Nat)
    (h : off < StableBuffer.stableLen store) :
    (StableBuffer.stablePtr store + UInt64.ofNat off).toNat
      = (StableBuffer.stablePtr store).toNat + off := by
  have hfits := StableBuffer.fits store
  rw [UInt64.toNat_add, UInt64.toNat_ofNat']
  omega

/-- Ranges that lie in the store, followed by one range for each of the first `n` buffers. -/
theorem allInside_store_iff [StableBuffer B] [StableBuffer R] {bufs : Fin N → B} {store : R}
    {fixed : List Range} (hfixed : ∀ r ∈ fixed, r.Inside (memoryOf store))
    {captured : Fin N → Range} {n : Nat} {descs : List Range}
    (hdescs : ∀ r, r ∈ descs ↔ ∃ i : Fin N, i.val < n ∧ captured i = r) :
    Range.AllInside (fixed ++ descs)
        (memoryOf store :: List.ofFn fun i => memoryOf (bufs i)) ↔
      ∀ i : Fin N, i.val < n →
        (captured i).Inside (memoryOf store) ∨ ∃ j, (captured i).Inside (memoryOf (bufs j)) := by
  rw [Range.allInside_append]
  constructor
  · rintro ⟨-, h⟩ i hi
    obtain ⟨s, hs, hin⟩ := h (captured i) ((hdescs _).mpr ⟨i, hi, rfl⟩)
    cases List.mem_cons.mp hs with
    | inl hs =>
        subst hs
        exact Or.inl hin
    | inr hs =>
        obtain ⟨j, rfl⟩ := List.mem_ofFn.mp hs
        exact Or.inr ⟨j, hin⟩
  · intro h
    refine ⟨fun r hr => ⟨_, List.mem_cons_self .., hfixed r hr⟩, fun r hr => ?_⟩
    obtain ⟨i, hi, rfl⟩ := (hdescs r).mp hr
    cases h i hi with
    | inl hin => exact ⟨_, List.mem_cons_self .., hin⟩
    | inr hin =>
        obtain ⟨j, hin⟩ := hin
        exact ⟨_, List.mem_cons_of_mem _ (List.mem_ofFn.mpr ⟨j, rfl⟩), hin⟩

/-- The header of a staged region, and all that it names but the buffers, lies in the
store. -/
theorem Staged.inside [StableBuffer R] {region : MsgRegion R} {store : R}
    (h : Staged region store N) :
    ∀ r ∈ [(⟨region.hdr.toNat, sizeofMsgHdr⟩ : Range),
        ⟨region.header.msgIov.toNat, sizeofIoVec * region.header.msgIovlen⟩,
        ⟨region.header.msgName.toNat, region.header.msgNamelen.toNat⟩,
        ⟨region.header.msgControl.toNat, region.header.msgControllen⟩],
      r.Inside (memoryOf store) := by
  have hroom := h.room
  have hbytes : MsgRegion.bytesFor N = 56 + 16 * N + 16 := rfl
  have hiov := store_offset store sizeofMsgHdr (by
    show 56 < _
    omega)
  have hname := store_offset store (MsgRegion.nameOffset N) (by
    show 56 + 16 * N < _
    omega)
  intro r hr
  simp only [List.mem_cons, List.not_mem_nil, or_false] at hr
  -- the header, the descriptors, the name (none, or the slot behind the descriptors), the control
  -- data (none)
  rcases hr with rfl | rfl | rfl | rfl
  · right
    rw [h.hdr_eq]
    exact ⟨Nat.le_refl _, Nat.add_le_add_left (show 56 ≤ StableBuffer.stableLen store by omega) _⟩
  · right
    rw [h.iov_eq, hiov, h.iovlen_eq]
    show (StableBuffer.stablePtr store).toNat ≤ _ + 56 ∧
      _ + 56 + 16 * N ≤ (StableBuffer.stablePtr store).toNat + StableBuffer.stableLen store
    omega
  · cases h.name with
    | inl hnone =>
        left
        show region.header.msgNamelen.toNat = 0
        rw [hnone]
        rfl
    | inr hsome =>
        right
        rw [hsome.1, hsome.2, hname]
        show (StableBuffer.stablePtr store).toNat ≤ _ + (56 + 16 * N) ∧
          _ + (56 + 16 * N) + 16
            ≤ (StableBuffer.stablePtr store).toNat + StableBuffer.stableLen store
        omega
  · left
    exact h.control

/-- What a message names, in the terms of its footprint. -/
theorem MsgTracks.owned_iff [StableBuffer B] [StableBuffer R] {r : MsgRequest B R N}
    {captured : Fin N → Range} {bufs : Fin N → B} {store : R}
    (h : MsgTracks r captured bufs store) :
    Range.AllInside (⟨r.region.hdr.toNat, sizeofMsgHdr⟩ :: r.region.followed)
        (memoryOf r.region.store :: List.ofFn fun i => memoryOf (r.bufs i)) ↔
      (Footprint.many captured bufs store).Covered := by
  have hcount : N % 2 ^ 32 = N := by
    have : N ≤ 1024 := h.staged.count_le
    exact Nat.mod_eq_of_lt (by omega)
  rw [h.bufs_eq, h.staged.store_eq]
  show Range.AllInside ([_, _, _, _] ++ _) _ ↔
    ∀ i : Fin N, i.val < N % 2 ^ 32 → (captured i).Inside (memoryOf store) ∨
      ∃ j, (captured i).Inside (memoryOf (bufs j))
  rw [hcount]
  refine allInside_store_iff h.staged.inside fun r' => ?_
  rw [h.staged.iovlen_eq]
  simp only [List.mem_map, List.mem_range]
  constructor
  · rintro ⟨i, hi, rfl⟩
    exact ⟨⟨i, hi⟩, hi, (h.descriptors ⟨i, hi⟩).symm⟩
  · rintro ⟨i, hi, rfl⟩
    exact ⟨i.val, hi, h.descriptors i⟩

/-- Both directions of a vectored request name the array in the same way. -/
theorem PreparedVectored.names_array (r : PreparedVectored B R N) (ring : RingId)
    (id : RequestId) :
    (r.intoPending ring id).1.addr = r.array ∧ (r.intoPending ring id).1.len = UInt32.ofNat N := by
  cases hd : r.direction with
  | read => simp [PreparedVectored.intoPending, hd, Sqe.readvPtr, Sqe.withUserData]
  | write => simp [PreparedVectored.intoPending, hd, Sqe.writevPtr, Sqe.withUserData]

/-- The SQE of a request names memory of the ticket only, if and only if the buffers in place
cover what was captured. -/
theorem Tracks.owned_iff [StableBuffer B] [StableBuffer R] {r : Request B R N}
    {f : Footprint B R N} (h : Tracks r f) (ring : RingId) (id : RequestId) :
    r.AddressesOwned ring id ↔ f.Covered := by
  unfold Request.AddressesOwned
  cases r with
  | single r =>
      cases f with
      | many => exact h.elim
      | one captured buf =>
          obtain ⟨rfl, rfl⟩ := h
          cases hd : r.direction with
          | read => simp [Request.intoPending, Prepared.intoPending, hd, Ticket.named,
              Ticket.memory, Range.AllInside, Footprint.Covered, Sqe.readPtr, Sqe.withUserData]
          | write => simp [Request.intoPending, Prepared.intoPending, hd, Ticket.named,
              Ticket.memory, Range.AllInside, Footprint.Covered, Sqe.writePtr, Sqe.withUserData]
  | zc r =>
      cases f with
      | many => exact h.elim
      | one captured buf =>
          obtain ⟨rfl, rfl⟩ := h
          simp [Request.intoPending, PreparedZc.intoPending, Ticket.named, Ticket.memory,
            Range.AllInside, Footprint.Covered, Sqe.sendZcPtr, Sqe.withUserData]
  | vectored r =>
      cases f with
      | one => exact h.elim
      | many captured bufs store =>
          obtain ⟨rfl, rfl, harray, hroom, hdesc⟩ := h
          have hsqe := r.names_array ring id
          show Range.AllInside
            ([⟨(r.intoPending ring id).1.addr.toNat,
                sizeofIoVec * (r.intoPending ring id).1.len.toNat⟩] ++
              ((List.ofFn r.descriptors).take (r.intoPending ring id).1.len.toNat).map IoVec.range)
            (memoryOf r.vecs :: List.ofFn fun i => memoryOf (r.bufs i)) ↔ _
          rw [hsqe.1, hsqe.2, UInt32.toNat_ofNat']
          refine allInside_store_iff (fun r' hr' => ?_) fun r' => ?_
          · rw [List.mem_singleton.mp hr', harray]
            right
            have hle : sizeofIoVec * (N % 2 ^ 32) ≤ sizeofIoVec * N :=
              Nat.mul_le_mul_left _ (Nat.mod_le _ _)
            exact ⟨Nat.le_refl _, Nat.add_le_add_left (Nat.le_trans hle hroom) _⟩
          · simp only [List.mem_map, List.mem_take_iff_getElem, List.getElem_ofFn, List.length_ofFn]
            constructor
            · rintro ⟨v, ⟨i, hi, rfl⟩, rfl⟩
              exact ⟨⟨i, by omega⟩, by show i < _; omega, (hdesc _).symm⟩
            · rintro ⟨i, hi, rfl⟩
              exact ⟨_, ⟨i.val, by omega, rfl⟩, hdesc i⟩
  | sendmsg r =>
      cases f with
      | one => exact h.elim
      | many captured bufs store => exact MsgTracks.owned_iff h
  | sendmsgZc r =>
      cases f with
      | one => exact h.elim
      | many captured bufs store => exact MsgTracks.owned_iff h

/-- For every constructor that succeeds and every sequence of safe operations on the request,
all that the SQE names lies in memory of the ticket, if and only if the buffers in place at
the push cover what was captured from the buffers in place when the request was made or, for
several buffers, when their lengths were last set. -/
theorem addresses_owned_iff {B R : Type} {N : Nat} [StableBufferMut B] [StableBufferMut R]
    (b : Build B R N) (r : Request B R N) (h : b.run = some r) (ops : List (RequestOp B N))
    (ring : RingId) (id : RequestId) :
    (ops.foldl Request.apply r).AddressesOwned ring id ↔
      (ops.foldl Footprint.apply b.footprint).Covered :=
  ((tracks_build h).applyAll ops).owned_iff ring id

/-- A mapping of one page. -/
def onePage : MmapBuffer := ⟨0x10000, 64, 4096, by decide, by decide⟩

/-- Another mapping, with fewer bytes in use. -/
def otherPage : MmapBuffer := ⟨0x20000, 16, 4096, by decide, by decide⟩

/-- A page for descriptors. -/
def stagingPage : MmapBuffer := ⟨0x30000, 4096, 4096, by decide, by decide⟩

/-- A gather write of two buffers. -/
def gatherWrite : Build MmapBuffer MmapBuffer 2 :=
  .writev ⟨4⟩ (fun i => if i = 0 then onePage else otherPage) stagingPage 0

/-- The buffers are swapped, one is replaced, and the lengths are set after that. -/
def restamped : List (RequestOp MmapBuffer 2) :=
  [.buffersMut fun bufs i => bufs (1 - i), .buffersMut fun bufs => Function.update bufs 0 onePage,
    .withLens fun _ => 32, .refusedPush ⟨1⟩ ⟨1⟩]

theorem addresses_owned_restamped :
    ∃ r, gatherWrite.run = some r ∧ (restamped.foldl Request.apply r).AddressesOwned ⟨1⟩ ⟨2⟩ :=
  ⟨_, rfl, (addresses_owned_iff gatherWrite _ rfl restamped ⟨1⟩ ⟨2⟩).mpr (by decide +kernel)⟩

/-- A read whose buffer is replaced through `buffer_mut`, and a gather write one of whose
buffers is: both SQEs go on naming the buffer that is gone. -/
theorem addresses_owned_replaced :
    ¬ ((Request.single (R := MmapBuffer) (N := 0) (Prepared.read ⟨4⟩ onePage 0)).apply
      (.bufferMut fun _ => otherPage)).AddressesOwned ⟨1⟩ ⟨1⟩ ∧
    ∃ r, gatherWrite.run = some r ∧
      ¬ (r.apply (.buffersMut fun bufs =>
        Function.update bufs 0 otherPage)).AddressesOwned ⟨1⟩ ⟨1⟩ :=
  ⟨by decide +kernel, _, rfl, by decide +kernel⟩

end Ququmatz
