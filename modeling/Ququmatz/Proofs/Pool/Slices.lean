import Ququmatz.Lib.Run
import Ququmatz.Pool.Slices
import Ququmatz.Proofs.Pool.Producer

/-!
# `Ququmatz.Proofs.Pool.Slices`: the slices of a pool lie in its slots

`Sized` is what `checked_ring_bytes` and a mapping that does not wrap say together: the slots of
the pool end where the mapping does, and the mapping ends in the address space. From it every
product and every sum of the code comes out exact, so that on a target the code does what
`Ququmatz.Pool.Basic` says (`recycleOn_eq`, `populateOn_eq`), and a slice is a prefix of its slot
(`bufferOn_eq`). No action writes the fields that this is about (`Sized.geometry_runOn`).

A pointer is moved by less than the size of the mapping (`Sized.slice_inside`). On 64 bits that
always fits an `isize`; on 32 bits it does for mappings up to two gigabytes.
-/

set_option autoImplicit false

namespace Ququmatz

open Lib

namespace ProvidedBufferRing

/-! ### The sizes of a pool -/

/-- The slots fill the mapping, and the mapping does not wrap the address space. -/
structure Sized (t : Target) (p : ProvidedBufferRing) : Prop where
  bytes : p.bufsBytes = p.entries.toNat * p.bufSize.toNat
  fits : p.bufsBytes < 2 ^ t.usize.bits
  bufSize_pos : 0 < p.bufSize.toNat
  unwrapped : p.bufsAddr + p.bufsBytes ≤ 2 ^ t.usize.bits

/-- The fields that say where the two regions and the slots are. -/
def geometry (p : ProvidedBufferRing) : UInt32 × UInt32 × Nat × Nat × Nat × Nat :=
  (p.entries, p.bufSize, p.ringAddr, p.ringBytes, p.bufsAddr, p.bufsBytes)

theorem geometry_populate (p : ProvidedBufferRing) (n : Nat) :
    (p.populate n).geometry = p.geometry := by
  induction n with
  | zero => rfl
  | succ n ih =>
      rw [populate, List.range_succ, List.foldl_append]
      exact ih

/-- A slot of the pool, by its number. -/
def slotRange (p : ProvidedBufferRing) (bufId : Nat) : Range :=
  Range.slot p.bufsAddr p.bufSize.toNat bufId

theorem hasSlot_iff_lt {p : ProvidedBufferRing} {bufId : UInt16} :
    p.HasSlot bufId ↔ bufId.toNat < p.entries.toNat := by
  rw [HasSlot, UInt32.lt_iff_toNat_lt, UInt16.toNat_toUInt32]

section Addresses

variable {t : Target} {p q : ProvidedBufferRing} {i : Nat}

theorem Sized.congr (h : p.Sized t) (heq : q.geometry = p.geometry) : q.Sized t := by
  simp only [geometry, Prod.mk.injEq] at heq
  obtain ⟨hentries, hsize, -, -, haddr, hbytes⟩ := heq
  refine ⟨?_, ?_, ?_, ?_⟩
  · rw [hbytes, hentries, hsize]
    exact h.bytes
  · rw [hbytes]
    exact h.fits
  · rw [hsize]
    exact h.bufSize_pos
  · rw [haddr, hbytes]
    exact h.unwrapped

/-- A slot ends in the mapping. -/
theorem Sized.slot_end_le (h : p.Sized t) (hi : i < p.entries.toNat) :
    i * p.bufSize.toNat + p.bufSize.toNat ≤ p.bufsBytes := by
  rw [h.bytes]
  exact Range.slot_end_le _ hi

/-- The product does not overflow. -/
theorem Sized.slotOffset_eq (h : p.Sized t) (hi : i < p.entries.toNat) :
    t.slotOffset p.bufSize i = some (i * p.bufSize.toNat) := by
  have hend := h.slot_end_le hi
  have hfits := h.fits
  exact Target.arith_of_lt (by omega)

/-- A slot starts in the address space. -/
theorem Sized.start_lt (h : p.Sized t) (hi : i < p.entries.toNat) :
    p.bufsAddr + i * p.bufSize.toNat < 2 ^ t.usize.bits := by
  have hend := h.slot_end_le hi
  have hpos := h.bufSize_pos
  have hwrap := h.unwrapped
  omega

/-- Neither does the sum. -/
theorem Sized.slotAddrOn_eq (h : p.Sized t) (hi : i < p.entries.toNat) :
    p.slotAddrOn t i = some (p.slotAddr i) := by
  rw [slotAddrOn, h.slotOffset_eq hi]
  show (t.arith t.usize _).bind _ = _
  rw [Target.arith_of_lt (h.start_lt hi)]
  rfl

/-- The address of a slot is that of the slot, also as a `u64`. -/
theorem Sized.slotAddr_toNat (h : p.Sized t) (hi : i < p.entries.toNat) :
    (p.slotAddr i).toNat = (p.slotRange i).start := by
  refine UInt64.toNat_ofNat_of_lt' (Nat.lt_of_lt_of_le (h.start_lt hi) ?_)
  cases t.usize with
  | w32 => decide
  | w64 => decide

/-! ### The calls -/

theorem Sized.recycleOn_eq (h : p.Sized t) (bufId : UInt16) :
    p.recycleOn t bufId = some (p.recycle bufId) := by
  by_cases hslot : p.HasSlot bufId
  · rw [recycle_eq hslot]
    refine (if_pos hslot).trans ?_
    rw [h.slotAddrOn_eq (hasSlot_iff_lt.mp hslot)]
    rfl
  · rw [recycle_panics hslot]
    exact if_neg hslot

/-- The loop of the registration, over the slots that the pool has. -/
theorem Sized.populateOn_eq (h : p.Sized t) {n : Nat} (hn : n ≤ p.entries.toNat) :
    p.populateOn t n = some (p.populate n) := by
  induction n with
  | zero => rfl
  | succ n ih =>
      have hloop := ih (by omega)
      have hgeo := p.geometry_populate n
      have hentries : (p.populate n).entries = p.entries := congrArg Prod.fst hgeo
      have hnext := (h.congr hgeo).slotAddrOn_eq (i := n) (by rw [hentries]; omega)
      rw [populateOn, populate, List.range_succ, List.foldlM_append, List.foldl_append]
      rw [populateOn] at hloop
      rw [hloop]
      -- the round after the first `n`
      show ((p.populate n).populateOneOn t n).bind _ = _
      rw [populateOneOn, hnext]
      rfl

/-- A slice is given exactly within the bounds, and it starts where its slot does. -/
theorem Sized.bufferOn_eq (h : p.Sized t) (bufId : UInt16) (len : UInt32) :
    p.bufferOn t bufId len = some
      (if p.HasSlot bufId ∧ len ≤ p.bufSize then some ⟨(p.slotRange bufId.toNat).start, len.toNat⟩
      else none) := by
  rw [bufferOn, Target.bufferSlice]
  by_cases hgiven : p.HasSlot bufId ∧ len ≤ p.bufSize
  · have hlt := hasSlot_iff_lt.mp hgiven.1
    -- the offset is exact, and the moved pointer does not wrap
    have hin : ¬ (bufId.toUInt32 ≥ p.entries ∨ len > p.bufSize) := by
      rintro (hid | hlen)
      · exact UInt32.not_le.mpr hgiven.1 hid
      · exact UInt32.not_lt.mpr hgiven.2 hlen
    rw [if_neg hin, if_pos hgiven, h.slotOffset_eq hlt]
    show some (some (Range.mk (_ % _) _)) = _
    rw [Nat.mod_eq_of_lt (h.start_lt hlt)]
    rfl
  · have hout : bufId.toUInt32 ≥ p.entries ∨ len > p.bufSize := by
      refine Classical.byContradiction fun hno => hgiven ?_
      rw [not_or] at hno
      exact ⟨UInt32.not_le.mp hno.1, UInt32.not_lt.mp hno.2⟩
    rw [if_pos hout, if_neg hgiven]

end Addresses

/-! ### Runs -/

theorem isRun (t : Target) : IsRun (actOn t) (runOn t) := ⟨fun _ => rfl, fun _ _ _ => rfl⟩

/-- No action moves the slots or changes their number. -/
theorem Sized.geometry_actOn {t : Target} {p q : ProvidedBufferRing} (h : p.Sized t)
    {a : PoolAction} (hact : p.actOn t a = some q) : q.geometry = p.geometry := by
  cases a with
  | recycle bufId =>
      simp only [actOn, h.recycleOn_eq, Option.bind_some] at hact
      by_cases hslot : p.HasSlot bufId
      · rw [recycle_eq hslot] at hact
        cases hact
        rfl
      · rw [recycle_panics hslot] at hact
        cases hact
  | commit =>
      cases hact
      rfl
  | ledgerSet bufId value =>
      by_cases hbyte : bufId.toNat / 8 < LEDGER_BYTES
      · rw [actOn, ledgerSet_eq value hbyte] at hact
        cases hact
        rfl
      · rw [actOn, ledgerSet] at hact
        dsimp only at hact
        rw [if_neg hbyte] at hact
        cases hact
  | write bufs =>
      cases hact
      rfl

/-- So a run does not. -/
theorem Sized.geometry_runOn {t : Target} {p q : ProvidedBufferRing} (h : p.Sized t)
    {as : List PoolAction} (hrun : p.runOn t as = some q) : q.geometry = p.geometry := by
  refine (isRun t).keeps (P := fun q => q.geometry = p.geometry) (fun q a q' hq hact => ?_) rfl hrun
  exact ((h.congr hq).geometry_actOn hact).trans hq

/-- A registered pool over a mapping that does not wrap is sized. -/
theorem Sized.of_checks {t : Target} {fd : RawFd} {bgid : UInt16} {count bufSize : UInt32}
    {ringAddr ringBytes bufsAddr bufsBytes : Nat}
    (hchecks : PoolChecks t.usize.bits count bufSize bufsBytes)
    (hwrap : bufsAddr + bufsBytes ≤ 2 ^ t.usize.bits) :
    (mapped fd bgid count bufSize ringAddr ringBytes bufsAddr bufsBytes).Sized t := by
  have hbufs := hchecks.bufs
  rw [checkedRingBytes] at hbufs
  split at hbufs
  · rename_i hlt
    cases hbufs
    refine ⟨rfl, hlt, Nat.pos_of_ne_zero fun h0 => ?_, hwrap⟩
    exact hchecks.bufSize_ne (UInt32.toNat_inj.mp h0)
  · cases hbufs

end ProvidedBufferRing

/-! ### The law -/

/-- The slices of a pool of `count` slots of `bufSize` bytes, which was registered as `first`. -/
structure ProvidedBufferRing.SlicesLaw (t : Target) (count bufSize : UInt32)
    (first p : ProvidedBufferRing) : Prop where
  offset : ∀ bufId : UInt16, bufId.toUInt32 < count →
    t.slotOffset bufSize bufId.toNat = some (bufId.toNat * bufSize.toNat)
  /-- Neither accessor panics, and both give a slice exactly within the bounds. -/
  given : ∀ bufId len, ∃ slice, p.bufferOn t bufId len = some slice ∧
    p.bufferMutOn t bufId len = some slice ∧
    (slice.isSome = true ↔ bufId.toUInt32 < count ∧ len ≤ bufSize)
  /-- A slice has the length that was asked for, and lies in the backing region. -/
  inside : ∀ bufId len r, p.bufferOn t bufId len = some (some r) → r.len = len.toNat ∧
    p.backing.start ≤ r.start ∧ r.start + r.len ≤ p.backing.start + p.backing.len
  /-- It holds the bytes that `buffer` returns. -/
  bytes : ∀ bufId len r, p.bufferOn t bufId len = some (some r) →
    p.buffer bufId len = some (Bytes.load p.bufs (r.start - p.backing.start) r.len)
  /-- Slices of two ids share no address. -/
  apart : ∀ a b len len' r s, a ≠ b → p.bufferOn t a len = some (some r) →
    p.bufferOn t b len' = some (some s) → ∀ addr, r.Has addr → ¬ s.Has addr
  /-- It is a prefix of what the registration offered to the kernel under the same id. -/
  registered : ∀ bufId len r, p.bufferOn t bufId len = some (some r) →
    (∃ e ∈ (ProducerSys.init first).window, e.bid = bufId) ∧
      ∀ e ∈ (ProducerSys.init first).window, e.bid = bufId → r.PrefixOf e.range
  /-- So it is of what `recycle` writes for that id. -/
  recycled : ∀ bufId len r, p.bufferOn t bufId len = some (some r) →
    ∃ p', p.recycleOn t bufId = some (.ok p') ∧
      (p'.ring (p.tailLocal &&& p.mask).toNat).bid = bufId ∧
      r.PrefixOf (p'.ring (p.tailLocal &&& p.mask).toNat).range

namespace ProvidedBufferRing

section Law

variable {t : Target} {first p : ProvidedBufferRing} {bufId : UInt16} {len : UInt32} {r : Range}

/-- A slice is a prefix of its slot. -/
theorem Sized.prefix_slot (h : p.Sized t) (hr : p.bufferOn t bufId len = some (some r)) :
    (p.HasSlot bufId ∧ len ≤ p.bufSize) ∧ r = ⟨(p.slotRange bufId.toNat).start, len.toNat⟩ ∧
      r.PrefixOf (p.slotRange bufId.toNat) := by
  rw [h.bufferOn_eq] at hr
  split at hr
  · rename_i hgiven
    cases hr
    exact ⟨hgiven, rfl, rfl, UInt32.le_iff_toNat_le.mp hgiven.2⟩
  · cases hr

/-- A descriptor of a slot offers the bytes of the slot. -/
theorem Sized.range_eq (h : p.Sized t) (hslot : p.HasSlot bufId) {e : IoUringBuf}
    (haddr : e.addr = p.slotAddr bufId.toNat) (hlen : e.len = p.bufSize) :
    e.range = p.slotRange bufId.toNat := by
  rw [IoUringBuf.range, haddr, hlen, h.slotAddr_toNat (hasSlot_iff_lt.mp hslot)]
  rfl

theorem Sized.given_iff (h : p.Sized t) (bufId : UInt16) (len : UInt32) :
    ∃ slice, p.bufferOn t bufId len = some slice ∧ p.bufferMutOn t bufId len = some slice ∧
      (slice.isSome = true ↔ p.HasSlot bufId ∧ len ≤ p.bufSize) := by
  refine ⟨_, h.bufferOn_eq bufId len, h.bufferOn_eq bufId len, ?_⟩
  by_cases hgiven : p.HasSlot bufId ∧ len ≤ p.bufSize
  · rw [if_pos hgiven]
    exact iff_of_true rfl hgiven
  · rw [if_neg hgiven]
    exact iff_of_false (by decide) hgiven

theorem Sized.slice_inside (h : p.Sized t) (hr : p.bufferOn t bufId len = some (some r)) :
    r.len = len.toNat ∧ p.backing.start ≤ r.start ∧
      r.start + r.len ≤ p.backing.start + p.backing.len := by
  obtain ⟨⟨hslot, hlen⟩, rfl, -⟩ := h.prefix_slot hr
  have hend := h.slot_end_le (hasSlot_iff_lt.mp hslot)
  have hle := UInt32.le_iff_toNat_le.mp hlen
  refine ⟨rfl, Nat.le_add_right _ _, ?_⟩
  show p.bufsAddr + bufId.toNat * p.bufSize.toNat + len.toNat ≤ p.bufsAddr + p.bufsBytes
  omega

theorem Sized.buffer_eq (h : p.Sized t) (hr : p.bufferOn t bufId len = some (some r)) :
    p.buffer bufId len = some (Bytes.load p.bufs (r.start - p.backing.start) r.len) := by
  obtain ⟨⟨hslot, hlen⟩, rfl, -⟩ := h.prefix_slot hr
  have hin : ¬ (bufId.toUInt32 ≥ p.entries ∨ len > p.bufSize) := by
    rintro (hid | hlong)
    · exact UInt32.not_le.mpr hslot hid
    · exact UInt32.not_lt.mpr hlen hlong
  show p.buffer bufId len
    = some (Bytes.load p.bufs (p.bufsAddr + bufId.toNat * p.bufSize.toNat - p.bufsAddr) _)
  rw [Nat.add_sub_cancel_left]
  exact if_neg hin

theorem Sized.slices_apart (h : p.Sized t) {a b : UInt16} {len' : UInt32} {s : Range}
    (hne : a ≠ b) (hr : p.bufferOn t a len = some (some r))
    (hs : p.bufferOn t b len' = some (some s)) : r.Apart s := by
  obtain ⟨-, -, hra⟩ := h.prefix_slot hr
  obtain ⟨-, -, hsb⟩ := h.prefix_slot hs
  have hne' : a.toNat ≠ b.toNat := fun heq => hne (UInt16.toNat_inj.mp heq)
  exact (Range.slots_apart _ _ hne').narrow hra hsb

/-- The entry that `recycle` writes offers the slot. -/
theorem Sized.recycled_range (h : p.Sized t) (hslot : p.HasSlot bufId) :
    ∃ p', p.recycleOn t bufId = some (.ok p') ∧
      (p'.ring (p.tailLocal &&& p.mask).toNat).bid = bufId ∧
      (p'.ring (p.tailLocal &&& p.mask).toNat).range = p.slotRange bufId.toNat := by
  refine ⟨p.recycled bufId, by rw [h.recycleOn_eq, recycle_eq hslot], ?_⟩
  have hentry : (p.recycled bufId).ring (p.tailLocal &&& p.mask).toNat
      = { p.ring (p.tailLocal &&& p.mask).toNat with
          addr := p.slotAddr bufId.toNat, len := p.bufSize, bid := bufId } :=
    Function.update_self _ _ _
  rw [hentry]
  exact ⟨rfl, h.range_eq hslot rfl rfl⟩

/-- The entries that the kernel sees after the registration offer the slots. -/
theorem Sized.registered_range {flags : PbufRingFlags} (h : p.Sized t)
    (hreg : Registered flags p) (hslot : p.HasSlot bufId) :
    (∃ e ∈ (ProducerSys.init p).window, e.bid = bufId) ∧
      ∀ e ∈ (ProducerSys.init p).window, e.bid = bufId → e.range = p.slotRange bufId.toNat := by
  obtain ⟨n, hinv⟩ := ProducerSys.init_inv hreg
  refine ⟨ProducerSys.exists_window hreg hslot, fun e he hbid => ?_⟩
  obtain ⟨-, hlen, haddr⟩ := hinv.window_describes he
  subst hbid
  exact h.range_eq hslot haddr hlen

/-- A pool with the slots of a registered one. -/
theorem Sized.slicesLaw {flags : PbufRingFlags} (hreg : Registered flags first)
    (hfirst : first.Sized t) (hgeo : p.geometry = first.geometry) :
    SlicesLaw t first.entries first.bufSize first p := by
  have h := hfirst.congr hgeo
  simp only [geometry, Prod.mk.injEq] at hgeo
  obtain ⟨hentries, hsize, -, -, haddr, -⟩ := hgeo
  have hrange : ∀ i, first.slotRange i = p.slotRange i := fun i => by
    rw [slotRange, slotRange, haddr, hsize]
  rw [← hentries, ← hsize]
  exact
    { offset := fun bufId hslot => h.slotOffset_eq (hasSlot_iff_lt.mp hslot)
      given := h.given_iff
      inside := fun _ _ _ hr => h.slice_inside hr
      bytes := fun _ _ _ hr => h.buffer_eq hr
      apart := fun _ _ _ _ _ _ hne hr hs _ hhas => (h.slices_apart hne hr hs).not_has hhas
      registered := fun bufId len r hr => by
        obtain ⟨⟨hslot, -⟩, -, hpre⟩ := h.prefix_slot hr
        -- the window is that of the registered pool, whose slots are the same
        have hslot' : first.HasSlot bufId := by
          rw [HasSlot, ← hentries]
          exact hslot
        obtain ⟨hexists, hall⟩ := hfirst.registered_range hreg hslot'
        refine ⟨hexists, fun e he hbid => ?_⟩
        rw [hall e he hbid, hrange]
        exact hpre
      recycled := fun bufId len r hr => by
        obtain ⟨⟨hslot, -⟩, -, hpre⟩ := h.prefix_slot hr
        obtain ⟨p', hp', hbid, heq⟩ := h.recycled_range hslot
        exact ⟨p', hp', hbid, heq ▸ hpre⟩ }

end Law

end ProvidedBufferRing

/-- The registration on a target, and the slices of the pool after every run. -/
structure PoolSlicesLaw (t : Target) (fd : RawFd) (bgid : UInt16) (count bufSize : UInt32)
    (pool : ProvidedBufferRing) : Prop where
  /-- The loop of the registration neither panics nor wraps. -/
  populated : ((ProvidedBufferRing.mapped fd bgid count bufSize pool.ringAddr pool.ringBytes
    pool.bufsAddr pool.bufsBytes).populateOn t count.toNat).map (·.commit) = some pool
  slices : ∀ as p, pool.runOn t as = some p → pool.SlicesLaw t count bufSize p

/-- The slices of a registered pool, on every target. -/
theorem pool_slices (t : Target) (fd : RawFd) (bgid : UInt16) (count bufSize : UInt32)
    (flags : PbufRingFlags) (rs : List (Round answerMachine)) (calls : List PoolCall)
    (pool : ProvidedBufferRing)
    (hreg : (registerProvidedBuffersOn t.usize.bits fd bgid count bufSize flags).run answerMachine
      rs [] = some (.ok pool, calls))
    (hwrap : pool.bufsAddr + pool.bufsBytes ≤ 2 ^ t.usize.bits) :
    PoolSlicesLaw t fd bgid count bufSize pool := by
  have hregistered : Registered flags pool :=
    ⟨t.usize.bits, fd, bgid, count, bufSize, rs, calls, hreg⟩
  obtain ⟨ringAddr, ringBytes, bufsAddr, bufsBytes, hchecks, rfl⟩ := registered_eq hreg
  let m := ProvidedBufferRing.mapped fd bgid count bufSize ringAddr ringBytes bufsAddr bufsBytes
  have hgeo : (m.populate count.toNat).commit.geometry = m.geometry :=
    m.geometry_populate count.toNat
  have hfields : (m.populate count.toNat).commit.geometry
      = (count, bufSize, ringAddr, ringBytes, bufsAddr, bufsBytes) := hgeo
  simp only [ProvidedBufferRing.geometry, Prod.mk.injEq] at hfields
  obtain ⟨hentries, hsize, hraddr, hrbytes, haddr, hbytes⟩ := hfields
  rw [haddr, hbytes] at hwrap
  -- the pool is sized when its regions are mapped, and populating keeps that
  have hsized : m.Sized t := ProvidedBufferRing.Sized.of_checks hchecks hwrap
  constructor
  · rw [hraddr, hrbytes, haddr, hbytes]
    show (m.populateOn t count.toNat).map _ = _
    rw [hsized.populateOn_eq (n := count.toNat) (Nat.le_refl _)]
    rfl
  · intro as p hrun
    have hfirst := hsized.congr hgeo
    have hlaw := ProvidedBufferRing.Sized.slicesLaw hregistered hfirst (hfirst.geometry_runOn hrun)
    rw [hentries, hsize] at hlaw
    exact hlaw

/-- Four slots of a page, in the last pages of a 32-bit address space. -/
def lastPages : ProvidedBufferRing :=
  ((ProvidedBufferRing.mapped ⟨3⟩ 0 4 4096 4096 64 4294950912 16384).populate 4).commit

theorem pool_slices_lastPages :
    PoolSlicesLaw ⟨.w32, true⟩ ⟨3⟩ 0 4 4096 lastPages ∧
      lastPages.bufferOn ⟨.w32, true⟩ 3 4096 = some (some ⟨4294963200, 4096⟩) ∧
      lastPages.bufferOn ⟨.w32, true⟩ 4 0 = some none :=
  ⟨pool_slices ⟨.w32, true⟩ ⟨3⟩ 0 4 4096 .empty (accepting 4096 4294950912) _ lastPages rfl
    (by decide), by decide, by decide⟩

end Ququmatz
