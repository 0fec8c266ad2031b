import Mathlib.Data.List.Nodup
import Mathlib.Data.List.Perm.Subperm
import Ququmatz.Lib.Spsc
import Ququmatz.Pool.Producer
import Ququmatz.Proofs.Pool.Ledger

/-!
# `Ququmatz.Proofs.Pool.Producer`: the producer ring never shows an id twice

The producer ring is a ring queue whose tail is kept in 32 bits and published in 16, in the
spare half-word of its first slot. `ProducerAt` ties a pool to the library's queue over the
words that `recycle_raw` writes, so that publishing the tail is no write to a slot and
writing a slot is no change of the tail (`recycleRaw_resv`).

`ProducerSys.Inv` adds the kernel and the application. The ids written so far are those of
the registration, each once, followed by the recycled ones; the ids taken are a prefix of
them. From this `Inv.law` reads off the invariant by counting. The discipline of the caller
bounds the ring: no more ids were recycled than taken, so a write never meets an unread
slot.
-/

set_option autoImplicit false

namespace Ququmatz

open Lib

/-- The words of a descriptor that `recycle_raw` writes. -/
def IoUringBuf.core (e : IoUringBuf) : UInt64 × UInt32 × UInt16 := (e.addr, e.len, e.bid)

namespace ProvidedBufferRing

/-- Writing an entry, also entry `0`, leaves every reserved half-word as it is. -/
theorem recycleRaw_resv (p : ProvidedBufferRing) (addr : UInt64) (len : UInt32) (bid : UInt16)
    (i : Nat) : ((p.recycleRaw addr len bid).ring i).resv = (p.ring i).resv := by
  show (Function.update p.ring _ _ i).resv = _
  by_cases hi : i = (p.tailLocal &&& p.mask).toNat
  · subst hi
    rw [Function.update_self]
  · rw [Function.update_of_ne hi]

theorem commit_resv (p : ProvidedBufferRing) :
    (p.commit.ring 0).resv = p.tailLocal.toUInt16 := by
  unfold commit
  simp only [Function.update_self]

/-- The descriptor of a slot. -/
def Describes (p : ProvidedBufferRing) (e : IoUringBuf) : Prop :=
  e.bid.toUInt32 < p.entries ∧ e.len = p.bufSize ∧ e.addr = p.slotAddr e.bid.toNat

/-- The pool's producer ring is a queue of `n` slots, from which `got` was read and whose
published tail covers `p` entries. -/
structure ProducerAt (n : RingSize) (got : List (UInt64 × UInt32 × UInt16)) (p : Nat)
    (pool : ProvidedBufferRing) : Prop where
  log_le : n.log ≤ 15
  mask : pool.mask = n.mask
  entries : pool.entries = n.val
  tailLocal : pool.tailLocal = UInt32.ofNat pool.produced.length
  tail : (pool.ring 0).resv = UInt16.ofNat p
  queue : Spsc n 0 (fun i => (pool.ring i).core) (pool.produced.map IoUringBuf.core) got p
    got.length
  describes : ∀ e ∈ pool.produced, pool.Describes e

namespace ProducerAt

variable {n : RingSize} {got : List (UInt64 × UInt32 × UInt16)} {p : Nat}
  {pool : ProvidedBufferRing}

theorem size_le (h : ProducerAt n got p pool) : n.size ≤ 2 ^ 15 := by
  rw [n.size_eq]
  exact Nat.pow_le_pow_right (by decide) h.log_le

theorem hasSlot_iff (h : ProducerAt n got p pool) (bufId : UInt16) :
    bufId.toUInt32 < pool.entries ↔ bufId.toNat < n.size := by
  rw [h.entries, UInt32.lt_iff_toNat_lt, UInt16.toNat_toUInt32]
  rfl

/-- `recycle_raw` with the address and the length of a slot, when the ring has room. -/
theorem recycleRaw (h : ProducerAt n got p pool) {bufId : UInt16}
    (hslot : bufId.toUInt32 < pool.entries)
    (hroom : pool.produced.length < got.length + n.size) :
    ProducerAt n got p (pool.recycleRaw (pool.slotAddr bufId.toNat) pool.bufSize bufId) where
  log_le := h.log_le
  mask := h.mask
  entries := h.entries
  tailLocal := by
    show pool.tailLocal + 1 = UInt32.ofNat (pool.produced ++ [_]).length
    rw [h.tailLocal, List.length_append, List.length_singleton, ofNat_succ]
  tail := by
    rw [recycleRaw_resv]
    exact h.tail
  queue := by
    have hidx : (pool.tailLocal &&& pool.mask).toNat
        = (0 + (pool.produced.map IoUringBuf.core).length) % n.size := by
      rw [h.tailLocal, h.mask, and_mask_toNat, List.length_map, Nat.zero_add]
    have hwrite := h.queue.write (by rw [List.length_map]; exact hroom)
      (pool.slotAddr bufId.toNat, pool.bufSize, bufId)
    rw [← hidx] at hwrite
    -- Writing an entry of the ring writes its core.
    have hmem : (fun i => ((pool.recycleRaw (pool.slotAddr bufId.toNat) pool.bufSize
        bufId).ring i).core) = Function.update (fun i => (pool.ring i).core)
        (pool.tailLocal &&& pool.mask).toNat
        (pool.slotAddr bufId.toNat, pool.bufSize, bufId) := by
      funext i
      show (Function.update pool.ring _ _ i).core = _
      by_cases hi : i = (pool.tailLocal &&& pool.mask).toNat
      · subst hi
        rw [Function.update_self, Function.update_self]
        rfl
      · rw [Function.update_of_ne hi, Function.update_of_ne hi]
    rw [hmem]
    show Spsc _ _ _ ((pool.produced ++ [_]).map IoUringBuf.core) _ _ _
    rw [List.map_append]
    exact hwrite
  describes := by
    intro e he
    rcases List.mem_append.mp he with hold | hnew
    · exact h.describes e hold
    · rw [List.mem_singleton.mp hnew]
      exact ⟨hslot, rfl, rfl⟩

/-- `commit` publishes everything that was written. -/
theorem commit (h : ProducerAt n got p pool) :
    ProducerAt n got pool.produced.length pool.commit where
  log_le := h.log_le
  mask := h.mask
  entries := h.entries
  tailLocal := h.tailLocal
  tail := by
    rw [commit_resv, h.tailLocal]
    exact UInt32.toUInt16_ofNat' _
  queue := by
    have hpub := h.queue.publishTail
    rw [List.length_map] at hpub
    -- The tail is not part of what a slot holds.
    have hmem : (fun i => (pool.commit.ring i).core) = fun i => (pool.ring i).core := by
      funext i
      show (Function.update pool.ring 0 _ i).core = _
      by_cases hi : i = 0
      · subst hi
        rw [Function.update_self]
        rfl
      · rw [Function.update_of_ne hi]
    rw [hmem]
    exact hpub
  describes := h.describes

/-- The loop of the registration writes the slots in order, and publishes nothing. -/
theorem populate (fd : RawFd) (bgid : UInt16) (bufSize : UInt32)
    (ringAddr ringBytes bufsAddr bufsBytes : Nat) (hlog : n.log ≤ 15) {i : Nat}
    (hi : i ≤ n.size) :
    ProducerAt n [] 0 ((mapped fd bgid n.val bufSize ringAddr ringBytes bufsAddr
        bufsBytes).populate i) ∧
      ((mapped fd bgid n.val bufSize ringAddr ringBytes bufsAddr bufsBytes).populate i).produced.map
        IoUringBuf.bid = (List.range i).map UInt16.ofNat := by
  induction i with
  | zero =>
      refine ⟨⟨hlog, rfl, rfl, rfl, rfl, Spsc.empty n 0 _, ?_⟩, rfl⟩
      intro e he
      cases he
  | succ i ih =>
      obtain ⟨hat, hids⟩ := ih (by omega)
      have hlen := congrArg List.length hids
      rw [List.length_map, List.length_map, List.length_range] at hlen
      have hsize := hat.size_le
      have hnat : (UInt16.ofNat i).toNat = i := UInt16.toNat_ofNat_of_lt' (by
        show i < 2 ^ 16
        omega)
      have hslot := (hat.hasSlot_iff (UInt16.ofNat i)).mpr (by omega)
      have hnext := hat.recycleRaw hslot (by rw [List.length_nil]; omega)
      rw [hnat] at hnext
      rw [ProvidedBufferRing.populate, List.range_succ, List.foldl_append]
      refine ⟨hnext, ?_⟩
      rw [List.map_append, ← hids]
      exact List.map_append

/-- The unread entries are where the indices say. -/
theorem entries_core (h : ProducerAt n got p pool) {s : ProducerSys} (hs : s.pool = pool)
    {a m : Nat} (ha : got.length ≤ a) (hm : a + m ≤ pool.produced.length) :
    (s.entriesFrom (UInt16.ofNat a) m).map IoUringBuf.core
      = ((pool.produced.map IoUringBuf.core).drop a).take m := by
  have hsize := h.size_le
  refine List.ext_getElem? fun i => ?_
  by_cases hi : i < m
  · rw [List.getElem?_take_of_lt hi, List.getElem?_drop, ProducerSys.entriesFrom,
      List.map_map, List.getElem?_map, List.getElem?_range hi]
    -- The slot of position `a + i` holds what was written there.
    have hget : (pool.produced.map IoUringBuf.core)[a + i]?
        = some ((pool.produced.map IoUringBuf.core).get ⟨a + i, by rw [List.length_map]; omega⟩) :=
      List.getElem?_eq_getElem _
    have hslot := h.queue.slots (a + i) _ (by omega) hget
    rw [hget, ← hslot]
    show some (ProducerSys.entryAt s (UInt16.ofNat a + UInt16.ofNat i)).core = _
    rw [ProducerSys.entryAt, hs, h.mask, ← UInt16.ofNat_add,
      and_mask16_toNat n (by have := h.log_le; omega), Nat.zero_add]
  · rw [List.getElem?_eq_none, List.getElem?_eq_none]
    · rw [List.length_take]
      omega
    · rw [List.length_map, ProducerSys.entriesFrom, List.length_map, List.length_range]
      omega

end ProducerAt

end ProvidedBufferRing

/-- A registered pool, whatever its flags, has its slots on the ring in order. -/
theorem Registered.producerAt {flags : PbufRingFlags} {pool : ProvidedBufferRing}
    (h : Registered flags pool) :
    ∃ n, pool.ProducerAt n [] pool.produced.length ∧
      pool.produced.map IoUringBuf.bid = (List.range n.size).map UInt16.ofNat := by
  obtain ⟨fd, bgid, count, bufSize, ringAddr, ringBytes, bufsAddr, bufsBytes, -, hpow, hmax,
    rfl⟩ := h.eq_populate
  -- The checks of the registration: a power of two, and at most `2 ^ 15`.
  have hpow' : count.toNat.isPowerOfTwo := by
    simp only [isPowerOfTwo, Bool.and_eq_true, bne_iff_ne, ne_eq, beq_iff_eq] at hpow
    obtain ⟨hne, hand⟩ := hpow
    have hne' : count.toNat ≠ 0 := fun h0 => hne (UInt32.toNat_inj.mp h0)
    have hnat := congrArg UInt32.toNat hand
    rw [UInt32.toNat_and, UInt32.toNat_sub_of_le _ _ (by
      rw [UInt32.le_iff_toNat_le]
      exact Nat.one_le_iff_ne_zero.mpr hne')] at hnat
    exact (Nat.and_sub_one_eq_zero_iff_isPowerOfTwo hne').mp hnat
  obtain ⟨n, rfl⟩ := RingSize.exists_of_isPowerOfTwo hpow'
  have hlog : n.log ≤ 15 := by
    have hle : n.size ≤ 2 ^ 15 := UInt32.le_iff_toNat_le.mp hmax
    rw [n.size_eq] at hle
    exact (Nat.pow_le_pow_iff_right (by decide)).mp hle
  obtain ⟨hat, hids⟩ := ProvidedBufferRing.ProducerAt.populate fd bgid bufSize ringAddr ringBytes
    bufsAddr bufsBytes hlog (Nat.le_refl n.size)
  exact ⟨n, hat.commit, hids⟩

/-! ### The kernel and the application -/

namespace ProducerSys

variable {n : RingSize} {got : List (UInt64 × UInt32 × UInt16)} {p : Nat} {s s' : ProducerSys}

/-- The state of the system: the ring is a queue from which the kernel took `got`, and the
ids on it are those of the registration followed by the recycled ones. -/
structure Inv (n : RingSize) (got : List (UInt64 × UInt32 × UInt16)) (p : Nat)
    (s : ProducerSys) : Prop where
  ring : s.pool.ProducerAt n got p
  head : s.head = UInt16.ofNat got.length
  taken : s.taken = got.map fun d => d.2.2
  ids : s.pool.produced.map IoUringBuf.bid = (List.range n.size).map UInt16.ofNat ++ s.recycled
  balance : ∀ bufId, s.recycled.count bufId ≤ s.taken.count bufId

theorem init_inv {flags : PbufRingFlags} {pool : ProvidedBufferRing} (h : Registered flags pool) :
    ∃ n, (init pool).Inv n [] pool.produced.length := by
  obtain ⟨n, hat, hids⟩ := h.producerAt
  exact ⟨n, hat, rfl, rfl, hids.trans (List.append_nil _).symm, fun bufId => Nat.le_refl 0⟩

/-- The number of ids that were recycled or registered. -/
theorem Inv.length_produced (h : s.Inv n got p) :
    s.pool.produced.length = n.size + s.recycled.length := by
  have hlen := congrArg List.length h.ids
  simpa using hlen

/-- An id that the kernel took names a slot. -/
theorem Inv.slot_of_taken (h : s.Inv n got p) {bufId : UInt16} (hmem : bufId ∈ s.taken) :
    bufId.toUInt32 < s.pool.entries := by
  rw [h.taken] at hmem
  obtain ⟨d, hd, rfl⟩ := List.mem_map.mp hmem
  obtain ⟨e, he, rfl⟩ := List.mem_map.mp (h.ring.queue.got_prefix.subset hd)
  exact (h.ring.describes e he).1

/-- The ring has room for an id that the application may recycle. -/
theorem Inv.room (h : s.Inv n got p) {bufId : UInt16}
    (hent : s.recycled.count bufId < s.taken.count bufId) :
    (∀ b, (s.recycled ++ [bufId]).count b ≤ s.taken.count b) ∧
      s.pool.produced.length < got.length + n.size := by
  have hbal : ∀ b, (s.recycled ++ [bufId]).count b ≤ s.taken.count b := by
    intro b
    have hle := h.balance b
    rw [List.count_append, List.count_singleton]
    split
    · rename_i heq
      rw [beq_iff_eq] at heq
      subst heq
      omega
    · omega
  -- every id that is recycled was taken as often, so the ring holds fewer than `n`
  have hsub : (s.recycled ++ [bufId]).Subperm s.taken :=
    List.subperm_ext_iff.mpr fun b _ => hbal b
  have hlen := hsub.length_le
  rw [List.length_append, List.length_singleton, h.taken, List.length_map] at hlen
  refine ⟨hbal, ?_⟩
  rw [h.length_produced]
  omega

theorem Inv.recycleRaw (h : s.Inv n got p) {bufId : UInt16}
    (hent : s.recycled.count bufId < s.taken.count bufId) :
    (s.gaveBack bufId (s.pool.recycled bufId)).Inv n got p := by
  obtain ⟨hbal, hroom⟩ := h.room hent
  have hslot := h.slot_of_taken (List.count_pos_iff.mp (Nat.lt_of_le_of_lt (Nat.zero_le _) hent))
  refine ⟨h.ring.recycleRaw hslot hroom, h.head, h.taken, ?_, hbal⟩
  show (s.pool.produced ++ [_]).map IoUringBuf.bid = _ ++ (s.recycled ++ [bufId])
  rw [List.map_append, h.ids, List.append_assoc]
  rfl

theorem Inv.commit (h : s.Inv n got p) :
    ({ s with pool := s.pool.commit } : ProducerSys).Inv n got s.pool.produced.length :=
  ⟨h.ring.commit, h.head, h.taken, h.ids, h.balance⟩

/-- The kernel's test for an empty ring compares positions. -/
theorem Inv.head_eq_tail_iff (h : s.Inv n got p) : s.head = s.tail ↔ got.length = p := by
  have hsize := h.ring.size_le
  have hle := h.ring.queue.got_le
  have hpub := h.ring.queue.pub_le
  have hroom := h.ring.queue.room
  rw [h.head, show s.tail = _ from h.ring.tail, ofNat16_inj_window hle (by omega)]

/-- The kernel takes the next entry. -/
theorem Inv.consume (h : s.Inv n got p) (hne : s.head ≠ s.tail) :
    ({ s with head := s.head + 1, taken := s.taken ++ [(s.entryAt s.head).bid] } :
      ProducerSys).Inv n (got ++ [(s.entryAt s.head).core]) p := by
  have hle := h.ring.queue.got_le
  have hlt : got.length < p := by
    have := mt h.head_eq_tail_iff.mpr hne
    omega
  -- the masked head is the slot of the next position
  have hslot : (s.entryAt s.head).core = (s.pool.ring ((0 + got.length) % n.size)).core := by
    rw [entryAt, h.head, h.ring.mask, and_mask16_toNat n (by have := h.ring.log_le; omega),
      Nat.zero_add]
  refine ⟨{ h.ring with queue := ?_ }, ?_, ?_, h.ids, ?_⟩
  · rw [hslot]
    exact (h.ring.queue.read hlt).publishHead
  · rw [List.length_append, List.length_singleton, UInt16.ofNat_add, ← h.head]
    rfl
  · rw [List.map_append, ← h.taken]
    rfl
  · intro bufId
    have hbal := h.balance bufId
    show s.recycled.count bufId ≤ (s.taken ++ [_]).count bufId
    rw [List.count_append]
    omega

/-- The step lemma. -/
theorem Inv.step (h : s.Inv n got p) {a : ProducerStep} (ha : s.entitled a = true)
    (hs : s.step a = some s') : ∃ got' p', s'.Inv n got' p' := by
  cases a with
  | consume =>
      simp only [ProducerSys.step] at hs
      split at hs
      · cases hs
      · rename_i hne
        cases hs
        exact ⟨_, p, h.consume hne⟩
  | recycle bufId =>
      -- an id that is owed is a slot, so the assertion holds
      have hent := of_decide_eq_true ha
      have hslot := h.slot_of_taken
        (List.count_pos_iff.mp (Nat.lt_of_le_of_lt (Nat.zero_le _) hent))
      simp only [ProducerSys.step, ProvidedBufferRing.recycle_eq hslot] at hs
      cases hs
      exact ⟨got, p, h.recycleRaw hent⟩
  | recycleRaw bufId =>
      cases hs
      exact ⟨got, p, h.recycleRaw (of_decide_eq_true ha)⟩
  | recycleAndCommit bufId =>
      have hent := of_decide_eq_true ha
      have hslot := h.slot_of_taken
        (List.count_pos_iff.mp (Nat.lt_of_le_of_lt (Nat.zero_le _) hent))
      simp only [ProducerSys.step, ProvidedBufferRing.recycleAndCommit,
        ProvidedBufferRing.recycle_eq hslot] at hs
      cases hs
      exact ⟨got, _, (h.recycleRaw hent).commit⟩
  | commit =>
      cases hs
      exact ⟨got, _, h.commit⟩

/-- The run lemma. -/
theorem Inv.run {as : List ProducerStep} (h : s.Inv n got p) (hd : disciplined as s = true)
    (hr : s.run as = some s') : ∃ got' p', s'.Inv n got' p' := by
  induction as generalizing s got p with
  | nil =>
      cases hr
      exact ⟨got, p, h⟩
  | cons a as ih =>
      obtain ⟨s1, h1, h2⟩ := Option.bind_eq_some_iff.mp hr
      simp only [disciplined, h1, Bool.and_eq_true] at hd
      obtain ⟨got1, p1, hi⟩ := h.step hd.1 h1
      exact ih hi hd.2 h2

/-! ### The law -/

theorem bid_eq_core (es : List IoUringBuf) :
    es.map IoUringBuf.bid = (es.map IoUringBuf.core).map fun d => d.2.2 := by
  rw [List.map_map]
  rfl

/-- The window is the published part of what was written and not taken. -/
theorem Inv.window_core (h : s.Inv n got p) :
    s.window.map IoUringBuf.core
      = ((s.pool.produced.map IoUringBuf.core).drop got.length).take (p - got.length) := by
  have hsize := h.ring.size_le
  have hle := h.ring.queue.got_le
  have hpub := h.ring.queue.pub_le
  have hroom := h.ring.queue.room
  rw [List.length_map] at hpub hroom
  unfold window
  rw [h.head, show s.tail = _ from h.ring.tail, ofNat16_sub_ofNat16 hle (by omega)]
  exact h.ring.entries_core rfl (Nat.le_refl _) (by omega)

/-- The batch is the rest of it. -/
theorem Inv.batch_core (h : s.Inv n got p) :
    s.batch.map IoUringBuf.core = (s.pool.produced.map IoUringBuf.core).drop p := by
  have hsize := h.ring.size_le
  have hle := h.ring.queue.got_le
  have hpub := h.ring.queue.pub_le
  have hroom := h.ring.queue.room
  rw [List.length_map] at hpub hroom
  unfold batch
  rw [h.ring.tailLocal, show s.tail = _ from h.ring.tail, UInt32.toUInt16_ofNat',
    ofNat16_sub_ofNat16 hpub (by omega), h.ring.entries_core rfl hle (by omega)]
  refine List.take_of_length_le ?_
  rw [List.length_drop, List.length_map]

/-- Everything written was taken, is in the window, or is in the batch. -/
theorem Inv.count_produced (h : s.Inv n got p) (bufId : UInt16) :
    (s.pool.produced.map IoUringBuf.bid).count bufId = s.taken.count bufId +
      (s.window.map IoUringBuf.bid).count bufId + (s.batch.map IoUringBuf.bid).count bufId := by
  have hle := h.ring.queue.got_le
  have hsplit : s.pool.produced.map IoUringBuf.core
      = got ++ s.window.map IoUringBuf.core ++ s.batch.map IoUringBuf.core := by
    rw [h.window_core, h.batch_core]
    conv_lhs => rw [← List.take_append_drop p (s.pool.produced.map IoUringBuf.core)]
    congr 1
    -- The published part starts with what was taken.
    conv_lhs => rw [← List.take_append_drop got.length
      ((s.pool.produced.map IoUringBuf.core).take p)]
    rw [List.take_take, Nat.min_eq_left hle, List.drop_take]
    congr 1
    exact (List.prefix_iff_eq_take.mp h.ring.queue.got_prefix).symm
  rw [bid_eq_core, hsplit, List.map_append, List.map_append, List.count_append,
    List.count_append, h.taken, ← bid_eq_core, ← bid_eq_core]

/-- The registration wrote each id once. -/
theorem Inv.count_registered (h : s.Inv n got p) {bufId : UInt16}
    (hslot : bufId.toUInt32 < s.pool.entries) :
    (s.pool.produced.map IoUringBuf.bid).count bufId = 1 + s.recycled.count bufId := by
  have hlt := (h.ring.hasSlot_iff bufId).mp hslot
  have hsize := h.ring.size_le
  have hnodup : ((List.range n.size).map UInt16.ofNat).Nodup := by
    refine List.Nodup.map_on ?_ List.nodup_range
    intro i hi j hj heq
    rw [List.mem_range] at hi hj
    rw [← UInt16.toNat_inj, UInt16.toNat_ofNat', UInt16.toNat_ofNat'] at heq
    omega
  have hmem : bufId ∈ (List.range n.size).map UInt16.ofNat :=
    List.mem_map.mpr ⟨bufId.toNat, List.mem_range.mpr hlt, UInt16.ofNat_toNat⟩
  rw [h.ids, List.count_append, List.count_eq_one_of_mem hnodup hmem]

/-- What the kernel can see was written by `recycle_raw` for a slot. -/
theorem Inv.window_describes (h : s.Inv n got p) {e : IoUringBuf} (he : e ∈ s.window) :
    s.pool.Describes e := by
  have hmem : e.core ∈ s.pool.produced.map IoUringBuf.core := by
    have hw : e.core ∈ s.window.map IoUringBuf.core := List.mem_map_of_mem he
    rw [h.window_core] at hw
    exact List.mem_of_mem_drop (List.mem_of_mem_take hw)
  obtain ⟨e', he', hcore⟩ := List.mem_map.mp hmem
  simp only [IoUringBuf.core, Prod.mk.injEq] at hcore
  obtain ⟨haddr, hlen, hbid⟩ := hcore
  have hd := h.ring.describes e' he'
  unfold ProvidedBufferRing.Describes at hd ⊢
  rw [← haddr, ← hlen, ← hbid]
  exact hd

/-- The kernel can see every slot of a registered pool. -/
theorem exists_window {flags : PbufRingFlags} {pool : ProvidedBufferRing}
    (h : Registered flags pool) {bufId : UInt16} (hslot : bufId.toUInt32 < pool.entries) :
    ∃ e ∈ (init pool).window, e.bid = bufId := by
  obtain ⟨n, hinv⟩ := init_inv h
  -- everything is published, and nothing was taken
  have hbatch : ((init pool).batch.map IoUringBuf.core) = [] := by
    rw [hinv.batch_core]
    exact List.drop_eq_nil_of_le (Nat.le_of_eq (List.length_map _))
  have hcount := hinv.count_produced bufId
  rw [hinv.count_registered hslot, List.map_eq_nil_iff.mp hbatch] at hcount
  have hmem : bufId ∈ (init pool).window.map IoUringBuf.bid := by
    refine List.count_pos_iff.mp ?_
    have htaken : (init pool).taken.count bufId = 0 := rfl
    rw [htaken, List.map_nil, List.count_nil] at hcount
    omega
  exact List.mem_map.mp hmem

theorem Inv.account (h : s.Inv n got p) {bufId : UInt16}
    (hslot : bufId.toUInt32 < s.pool.entries) :
    (s.window.map IoUringBuf.bid).count bufId + s.held bufId = 1 := by
  have hcount := h.count_produced bufId
  have hreg := h.count_registered hslot
  have hbal := h.balance bufId
  unfold held
  omega

theorem Inv.law (h : s.Inv n got p) : s.Law where
  nodup := by
    refine List.nodup_iff_count_le_one.mpr fun bufId => ?_
    by_cases hmem : bufId ∈ s.window.map IoUringBuf.bid
    · obtain ⟨e, he, rfl⟩ := List.mem_map.mp hmem
      have hacc := h.account (h.window_describes he).1
      omega
    · rw [List.count_eq_zero_of_not_mem hmem]
      exact Nat.zero_le 1
  slot := fun _ he => h.window_describes he
  account := fun _ hslot => h.account hslot

end ProducerSys

/-- The producer ring of a registered pool, after any disciplined run. -/
theorem producer_ring_law (pool : ProvidedBufferRing) (as : List ProducerStep)
    (s : ProducerSys) (hreg : Registered PbufRingFlags.empty pool)
    (hd : ProducerSys.disciplined as (ProducerSys.init pool) = true)
    (hr : (ProducerSys.init pool).run as = some s) :
    s.Law ∧ ∀ addr len bid,
      ((s.pool.recycleRaw addr len bid).ring 0).resv = (s.pool.ring 0).resv := by
  obtain ⟨n, h⟩ := ProducerSys.init_inv hreg
  obtain ⟨got, p', h'⟩ := h.run hd hr
  exact ⟨h'.law, fun addr len bid => ProvidedBufferRing.recycleRaw_resv _ addr len bid 0⟩

/-- Both buffers of the small pool are taken and come back as one batch, in the other order;
then the first of them goes round once more. -/
def batchedRecycles : List ProducerStep :=
  [.consume, .consume, .recycle 1, .recycleRaw 0, .commit, .consume, .recycleAndCommit 1,
    .consume, .recycle 0]

theorem producer_ring_batched :
    ∃ s, (ProducerSys.init (twoPools false)).run batchedRecycles = some s ∧
      s.window.map IoUringBuf.bid = [1] ∧ s.held 0 = 1 ∧ s.Law := by
  have hreg : Registered PbufRingFlags.empty (twoPools false) :=
    ⟨64, ⟨3⟩, 0, 2, 64, accepting 4096 8192, _, rfl⟩
  have heval : ((ProducerSys.init (twoPools false)).run batchedRecycles).map
      (fun s => (s.window.map IoUringBuf.bid, s.held 0)) = some ([1], 1) := by decide +kernel
  obtain ⟨s, hs, hx⟩ := Option.map_eq_some_iff.mp heval
  obtain ⟨hwindow, hheld⟩ := Prod.mk.inj hx
  exact ⟨s, hs, hwindow, hheld,
    (producer_ring_law (twoPools false) batchedRecycles s hreg (by decide +kernel) hs).1⟩

end Ququmatz
