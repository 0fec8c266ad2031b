import Ququmatz.Lib.Range
import Ququmatz.Pool.Incremental
import Ququmatz.Proofs.Pool.Guards

/-!
# `Ququmatz.Proofs.Pool.Incremental`: which bytes the accessors expose

All three accessors read from the first byte of the slot (`exposes_iff`), while the kernel
writes at the offset its use of the slot has reached. `load_kept` says that the bytes of a
completion stay where the kernel put them, so an accessor is right if that offset is zero;
with any other offset some bytes tell the difference (`not_rightBytes_of_offset`).
-/

set_option autoImplicit false

namespace Ququmatz

open Lib

/-! ### Completions that the kernel can post -/

/-- One completion names a slot of the pool and fits into the rest of it. -/
structure Fits (entries bufSize : UInt32) (off : Offsets) (c : Completion) : Prop where
  bufferId : c.flags.bufferId = some (slotOf c)
  slot : (slotOf c).toUInt32 < entries
  nonneg : 0 ≤ c.result
  room : off (slotOf c) + byteCount c ≤ bufSize.toNat

section Fitting

variable {entries bufSize : UInt32} {off : Offsets}

theorem fitting_cons {c : Completion} {cs : List Completion} :
    fitting entries bufSize (c :: cs) off = true ↔
      Fits entries bufSize off c ∧ fitting entries bufSize cs (off.next c) = true := by
  simp only [fitting, Bool.and_eq_true, decide_eq_true_eq]
  constructor
  · rintro ⟨⟨⟨⟨hid, hslot⟩, hres⟩, hroom⟩, hrest⟩
    obtain ⟨b, hb⟩ := Option.isSome_iff_exists.mp hid
    have hslotOf : slotOf c = b := by simp [slotOf, hb]
    exact ⟨⟨by rw [hb, hslotOf], hslot, hres, hroom⟩, hrest⟩
  · rintro ⟨h, hrest⟩
    exact ⟨⟨⟨⟨by rw [h.bufferId]; rfl, h.slot⟩, h.nonneg⟩, h.room⟩, hrest⟩

/-- The offsets after several completions. -/
def Offsets.after (off : Offsets) (cs : List Completion) : Offsets := cs.foldl Offsets.next off

theorem fitting_append {cs ds : List Completion} :
    fitting entries bufSize (cs ++ ds) off = true ↔
      fitting entries bufSize cs off = true ∧
        fitting entries bufSize ds (off.after cs) = true := by
  induction cs generalizing off with
  | nil => simp [fitting, Offsets.after]
  | cons c cs ih =>
      rw [List.cons_append, fitting_cons, fitting_cons, ih, and_assoc]
      rfl

end Fitting

theorem byteCount_eq {c : Completion} (h : 0 ≤ c.result) :
    c.result.toUInt32.toNat = byteCount c := by
  rw [Int32.toNat_toUInt32_of_le h]
  rfl

/-! ### The accessors -/

section Accessors

variable {pool : ProvidedBufferRing} {off : Offsets} {c : Completion}

/-- The checks of the accessors pass. -/
theorem Fits.inRange (h : Fits pool.entries pool.bufSize off c) :
    ¬ ((slotOf c).toUInt32 ≥ pool.entries ∨ c.result.toUInt32 > pool.bufSize) := by
  rintro (hle | hlt)
  · exact UInt32.not_lt.mpr hle h.slot
  · have hroom := h.room
    have hgt := UInt32.lt_iff_toNat_lt.mp hlt
    rw [byteCount_eq h.nonneg] at hgt
    omega

/-- `buffer` reads from the start of the slot, whatever the kernel's offset is. -/
theorem Fits.buffer_eq (h : Fits pool.entries pool.bufSize off c) :
    pool.buffer (slotOf c) c.result.toUInt32
      = some (Bytes.load pool.bufs ((slotOf c).toNat * pool.bufSize.toNat) (byteCount c)) := by
  unfold ProvidedBufferRing.buffer ProvidedBufferRing.bufferSlice
  rw [if_neg h.inRange, byteCount_eq h.nonneg]

theorem Fits.claim_eq (h : Fits pool.entries pool.bufSize off c) :
    claimCompletion pool c = some ⟨slotOf c, c.result.toUInt32⟩ := by
  unfold claimCompletion ProvidedBufferRing.claim
  rw [h.bufferId]
  simp only [if_pos h.nonneg, if_neg h.inRange]

theorem Fits.arrival_eq (h : Fits pool.entries pool.bufSize off c) :
    Arrival.claim c.flags.bufferId c.result = some ⟨slotOf c, c.result.toUInt32⟩ := by
  unfold Arrival.claim
  rw [h.bufferId]
  exact if_pos h.nonneg

end Accessors

/-- All accessors return the first bytes of the slot. -/
theorem exposes_iff {pool : ProvidedBufferRing} {off : Offsets} {f : Fill}
    (h : Fits pool.entries pool.bufSize off f.completion) :
    Exposes pool f ↔
      Bytes.load pool.bufs ((slotOf f.completion).toNat * pool.bufSize.toNat)
        (byteCount f.completion) = f.data := by
  have hbuffer := h.buffer_eq
  constructor
  · intro hexp
    have hb := hexp.buffer
    rw [hbuffer] at hb
    exact Option.some.inj hb
  · intro heq
    rw [heq] at hbuffer
    -- the guard and the arrival only pass the slot and the length on to `buffer`
    have hbytes : some ((pool.buffer (slotOf f.completion) f.completion.result.toUInt32).getD [])
        = some f.data := by
      rw [hbuffer]
      rfl
    refine ⟨hbuffer, ?_, fun ring => ?_⟩
    · rw [h.claim_eq]
      exact hbytes
    · unfold Event.ofCompletion Delivery.fromEvent
      by_cases hmore : f.completion.flags.contains CqeFlags.MORE = true
      · simp only [hmore, if_true, PartialReceipt.bufferId, h.arrival_eq]
        exact hbytes
      · simp only [hmore, Bool.false_eq_true, if_false, h.arrival_eq]
        exact hbytes

/-! ### What the kernel leaves in the slots -/

namespace FillSys

@[simp] theorem fill_bufSize (s : FillSys) (f : Fill) :
    (s.fill f).pool.bufSize = s.pool.bufSize := rfl

theorem fillAll_facts (s : FillSys) (fs : List Fill) :
    (s.fillAll fs).pool.entries = s.pool.entries ∧
      (s.fillAll fs).pool.bufSize = s.pool.bufSize ∧
      (s.fillAll fs).off = s.off.after (fs.map Fill.completion) := by
  induction fs generalizing s with
  | nil => exact ⟨rfl, rfl, rfl⟩
  | cons f fs ih =>
      obtain ⟨h1, h2, h3⟩ := ih (s.fill f)
      exact ⟨h1, h2, h3⟩

end FillSys

/-- A kernel state in which the slot of `c` holds `data` at offset `o`, and the present use of
the slot, if `c` left it open, has gone past these bytes. -/
structure Kept (s : FillSys) (c : Completion) (o : Nat) (data : List UInt8) : Prop where
  bytes : Bytes.load s.pool.bufs ((slotOf c).toNat * s.pool.bufSize.toNat + o) data.length = data
  room : o + data.length ≤ s.pool.bufSize.toNat
  past : bufMore c = true → o + data.length ≤ s.off (slotOf c)

/-- The fill of `f` puts its bytes at the offset of its slot. -/
theorem kept_fill {s : FillSys} {f : Fill}
    (h : Fits s.pool.entries s.pool.bufSize s.off f.completion)
    (hlen : f.data.length = byteCount f.completion) :
    Kept (s.fill f) f.completion (s.off (slotOf f.completion)) f.data where
  bytes := Bytes.load_store_self _ _ _
  room := by
    rw [hlen]
    exact h.room
  past := by
    intro hmore
    show _ ≤ (s.off.next f.completion) (slotOf f.completion)
    rw [Offsets.next, Function.update_self, if_pos hmore, hlen]

/-- A later fill of the same use is written behind the bytes that are kept. -/
theorem Kept.fill_same {s : FillSys} {c : Completion} {o : Nat} {data : List UInt8}
    (h : Kept s c o data) {f : Fill} (hslot : slotOf f.completion = slotOf c)
    (hmore : bufMore c = true) (hlen : f.data.length = byteCount f.completion) :
    Kept (s.fill f) f.completion o data := by
  have hpast := h.past hmore
  refine ⟨?_, h.room, ?_⟩
  · rw [hslot]
    refine (Bytes.load_store_disjoint (Or.inl ?_)).trans h.bytes
    show _ ≤ (slotOf f.completion).toNat * s.pool.bufSize.toNat + s.off (slotOf f.completion)
    rw [hslot]
    rw [FillSys.fill_bufSize]
    omega
  · intro hmore'
    show _ ≤ (s.off.next f.completion) (slotOf f.completion)
    rw [Offsets.next, Function.update_self, if_pos hmore', hslot]
    omega

/-- A fill of another slot does not reach the bytes that are kept. -/
theorem Kept.fill_other {s : FillSys} {c : Completion} {o : Nat} {data : List UInt8}
    (h : Kept s c o data) {f : Fill} (hslot : slotOf f.completion ≠ slotOf c)
    (hfits : Fits s.pool.entries s.pool.bufSize s.off f.completion)
    (hlen : f.data.length = byteCount f.completion) : Kept (s.fill f) c o data := by
  have hroom := h.room
  have hfroom := hfits.room
  have hapart : _ ∨ _ := Range.slots_apart 0 s.pool.bufSize.toNat
    (fun he => hslot (UInt16.toNat_inj.mp he))
  simp only [Range.slot, Nat.zero_add] at hapart
  refine ⟨?_, hroom, ?_⟩
  · refine (Bytes.load_store_disjoint ?_).trans h.bytes
    show _ ≤ (slotOf f.completion).toNat * s.pool.bufSize.toNat + s.off (slotOf f.completion)
      ∨ (slotOf f.completion).toNat * s.pool.bufSize.toNat + s.off (slotOf f.completion)
        + f.data.length ≤ _
    rw [FillSys.fill_bufSize]
    omega
  · intro hmore
    show _ ≤ (s.off.next f.completion) (slotOf c)
    rw [Offsets.next, Function.update_of_ne (Ne.symm hslot)]
    exact h.past hmore

/-- The bytes of a completion stay in place while its slot is not taken into use anew. -/
theorem load_kept {s : FillSys} {c : Completion} {o : Nat} {data : List UInt8}
    (h : Kept s c o data) {mid : List Fill} (hheld : stillHeld c mid = true)
    (hk : fitting s.pool.entries s.pool.bufSize (mid.map Fill.completion) s.off = true)
    (hlen : ∀ f ∈ mid, f.data.length = byteCount f.completion) :
    Bytes.load (s.fillAll mid).pool.bufs ((slotOf c).toNat * s.pool.bufSize.toNat + o) data.length
      = data := by
  induction mid generalizing s c with
  | nil => exact h.bytes
  | cons f mid ih =>
      obtain ⟨hfits, hrest⟩ := fitting_cons.mp hk
      have hflen := hlen f (List.mem_cons_self ..)
      have hmid := fun g hg => hlen g (List.mem_cons_of_mem f hg)
      by_cases hslot : slotOf f.completion = slotOf c
      · -- the same use of the same slot goes on with `f` in the place of `c`
        rw [stillHeld, if_pos hslot, Bool.and_eq_true] at hheld
        have := ih (h.fill_same hslot hheld.1 hflen) hheld.2 hrest hmid
        rw [hslot] at this
        exact this
      · rw [stillHeld, if_neg hslot] at hheld
        exact ih (h.fill_other hslot hfits hflen) hheld hrest hmid

/-! ### The two directions -/

theorem startsUse_append {cs ds : List Completion} {off : Offsets} :
    startsUse (cs ++ ds) off = true ↔
      startsUse cs off = true ∧ startsUse ds (off.after cs) = true := by
  induction cs generalizing off with
  | nil => simp [startsUse, Offsets.after]
  | cons c cs ih =>
      simp only [List.cons_append, startsUse, Bool.and_eq_true, ih, and_assoc]
      rfl

/-- If each completion with bytes starts a use of its slot, every fill is exposed as it was
written. -/
theorem rightBytes_of_startsUse {pool : ProvidedBufferRing} {fs : List Fill}
    (hk : fitting pool.entries pool.bufSize (fs.map Fill.completion) (fun _ => 0) = true)
    (hlen : ∀ f ∈ fs, f.data.length = byteCount f.completion)
    (huse : startsUse (fs.map Fill.completion) (fun _ => 0) = true) : RightBytes pool fs := by
  rintro pre f mid post rfl hheld
  simp only [List.map_append, List.map_cons, fitting_append, fitting_cons] at hk
  obtain ⟨-, hfits, hmid, -⟩ := hk
  simp only [List.map_append, List.map_cons, startsUse_append, startsUse, Bool.and_eq_true,
    Bool.or_eq_true, beq_iff_eq] at huse
  obtain ⟨-, hfirst, -⟩ := huse
  obtain ⟨he, hb, hoff⟩ := (FillSys.init pool).fillAll_facts pre
  obtain ⟨he2, hb2, -⟩ := (FillSys.init pool).fillAll_facts (pre ++ f :: mid)
  have hflen : f.data.length = byteCount f.completion := hlen f (by simp)
  -- the state in which `f` is written
  generalize hs : (FillSys.init pool).fillAll pre = s at he hb hoff
  have hall : (FillSys.init pool).fillAll (pre ++ f :: mid) = (s.fill f).fillAll mid := by
    rw [← hs]
    exact List.foldl_append ..
  have hfits' : Fits s.pool.entries s.pool.bufSize s.off f.completion := by
    rw [he, hb, hoff]
    exact hfits
  have hload := load_kept (kept_fill hfits' hflen) hheld
    (by
      show fitting s.pool.entries s.pool.bufSize _ (s.off.next f.completion) = true
      rw [he, hb, hoff]
      exact hmid)
    (fun g hg => hlen g (by simp [hg]))
  have hfits2 : Fits ((s.fill f).fillAll mid).pool.entries ((s.fill f).fillAll mid).pool.bufSize
      ((FillSys.init pool).off.after (pre.map Fill.completion)) f.completion := by
    rw [← hall, he2, hb2]
    exact hfits
  rw [hall, exposes_iff hfits2]
  cases hfirst with
  | inl hzero =>
      -- nothing was written and nothing is exposed
      rw [hzero, Bytes.load_zero]
      exact (List.eq_nil_of_length_eq_zero (hflen.trans hzero)).symm
  | inr hzero =>
      have hsize : ((s.fill f).fillAll mid).pool.bufSize = s.pool.bufSize := by
        rw [← hall, hb2, hb]
      have hstart : s.off (slotOf f.completion) = 0 := by
        rw [hoff]
        exact hzero
      rw [hstart, hflen] at hload
      rw [hsize]
      exact hload

/-- The fill of a completion with zeros. -/
def zeroFill (c : Completion) : Fill := ⟨c, List.replicate (byteCount c) 0⟩

/-- Zeros written into an empty pool leave it empty. -/
theorem fillAll_zeros {s : FillSys} (h : s.pool.bufs = fun _ => 0) (cs : List Completion) :
    (s.fillAll (cs.map zeroFill)).pool.bufs = fun _ => 0 := by
  induction cs generalizing s with
  | nil => exact h
  | cons c cs ih =>
      refine ih ?_
      show Bytes.store s.pool.bufs _ _ = _
      rw [h]
      exact Bytes.store_zeros _ _

/-- If a completion with bytes comes later in the use of its slot, there are bytes for which
the accessors return something else: zeros before it, and no zero in it. -/
theorem not_rightBytes_of_offset {pool : ProvidedBufferRing} (hz : pool.bufs = fun _ => 0)
    {pre post : List Completion} {c : Completion}
    (hk : fitting pool.entries pool.bufSize (pre ++ c :: post) (fun _ => 0) = true)
    (hcount : byteCount c ≠ 0)
    (hoff : Offsets.after (fun _ => 0) pre (slotOf c) ≠ 0) :
    ¬ RightBytes pool (pre.map zeroFill ++ ⟨c, List.replicate (byteCount c) 1⟩ ::
      post.map zeroFill) := by
  intro hright
  have hmap : (pre.map zeroFill).map Fill.completion = pre := by
    rw [List.map_map]
    exact List.map_id pre
  have hexp := hright (pre.map zeroFill) ⟨c, List.replicate (byteCount c) 1⟩ []
    (post.map zeroFill) rfl rfl
  obtain ⟨he, hb, ho⟩ := (FillSys.init pool).fillAll_facts (pre.map zeroFill)
  have hzero := fillAll_zeros (s := FillSys.init pool) hz pre
  rw [hmap] at ho
  have hall : (FillSys.init pool).fillAll (pre.map zeroFill ++
      [⟨c, List.replicate (byteCount c) 1⟩])
        = ((FillSys.init pool).fillAll (pre.map zeroFill)).fill
          ⟨c, List.replicate (byteCount c) 1⟩ := List.foldl_append ..
  rw [hall] at hexp
  generalize (FillSys.init pool).fillAll (pre.map zeroFill) = s at hexp he hb ho hzero
  rw [fitting_append, fitting_cons] at hk
  have hfits : Fits (s.fill ⟨c, List.replicate (byteCount c) 1⟩).pool.entries
      (s.fill ⟨c, List.replicate (byteCount c) 1⟩).pool.bufSize
      (Offsets.after (fun _ => 0) pre) c := by
    show Fits s.pool.entries s.pool.bufSize _ c
    rw [he, hb]
    exact hk.2.1
  have hload := (exposes_iff (f := ⟨c, List.replicate (byteCount c) 1⟩) hfits).mp hexp
  -- compare the first byte of the slot
  have hpos : 0 < byteCount c := Nat.pos_of_ne_zero hcount
  have hhead := congrArg (fun l : List UInt8 => l[0]?) hload
  have hleft : Bytes.store s.pool.bufs (s.start (slotOf c)) (List.replicate (byteCount c) 1)
      ((slotOf c).toNat * s.pool.bufSize.toNat) = 0 := by
    rw [Bytes.store_outside, hzero]
    left
    have hne : s.off (slotOf c) ≠ 0 := by
      rw [ho]
      exact hoff
    show _ < _ + _
    omega
  simp only [Bytes.load, List.getElem?_map, List.getElem?_range hpos, List.getElem?_replicate,
    if_pos hpos, Option.map_some, Nat.add_zero] at hhead
  have hbyte : Bytes.store s.pool.bufs (s.start (slotOf c)) (List.replicate (byteCount c) 1)
      ((slotOf c).toNat * s.pool.bufSize.toNat) = 1 := Option.some.inj hhead
  rw [hleft] at hbyte
  exact absurd hbyte (by decide)

/-- Every completion with bytes starts a use of its slot, or there is one that does not. -/
theorem exists_offset_of_not_startsUse {cs : List Completion} {off : Offsets}
    (h : startsUse cs off ≠ true) :
    ∃ pre c post, cs = pre ++ c :: post ∧ byteCount c ≠ 0 ∧ off.after pre (slotOf c) ≠ 0 := by
  induction cs generalizing off with
  | nil => exact absurd rfl h
  | cons c cs ih =>
      by_cases hc : byteCount c = 0 ∨ off (slotOf c) = 0
      · have hrest : startsUse cs (off.next c) ≠ true := by
          intro hrest
          exact h (by simp [startsUse, hrest, hc])
        obtain ⟨pre, d, post, rfl, hd, hoff⟩ := ih hrest
        exact ⟨c :: pre, d, post, rfl, hd, hoff⟩
      · rw [not_or] at hc
        exact ⟨[], c, cs, rfl, hc.1, hc.2⟩

/-- Over every incremental pool and every sequence of completions that the kernel can post on
it, the accessors return for each completion the bytes the kernel wrote for it, whatever
these bytes are, if and only if each completion with bytes is the first of its use of the
slot. -/
theorem incremental_bytes_iff (pool : ProvidedBufferRing) (h : Registered .INC pool)
    (cs : List Completion)
    (hk : fitting pool.entries pool.bufSize cs (fun _ => 0) = true) :
    (∀ fs : List Fill, fs.map Fill.completion = cs →
        (∀ f ∈ fs, f.data.length = byteCount f.completion) → RightBytes pool fs) ↔
      startsUse cs (fun _ => 0) = true := by
  constructor
  · intro hright
    -- a completion that does not start a use lies at an offset, which its view leaves out
    by_contra huse
    obtain ⟨pre, c, post, rfl, hcount, hoff⟩ := exists_offset_of_not_startsUse huse
    refine not_rightBytes_of_offset h.fresh.bufs_eq hk hcount hoff (hright _ ?_ ?_)
    · simp [Function.comp_def, zeroFill]
    · intro f hf
      simp only [List.mem_append, List.mem_map, List.mem_cons] at hf
      rcases hf with ⟨d, -, rfl⟩ | rfl | ⟨d, -, rfl⟩
      · exact List.length_replicate
      · exact List.length_replicate
      · exact List.length_replicate
  · rintro huse fs rfl hlen
    exact rightBytes_of_startsUse hk hlen huse

/-- The last four bytes of the use of slot `1`. -/
def lastFilled : Completion where
  userData := 5
  result := 4
  flags := ⟨CqeFlags.BUFFER.bits ||| CqeFlags.MORE.bits ||| ((1 : UInt32) <<< 16)⟩

/-- Three uses of slot `1`, each of one completion with bytes. -/
theorem incremental_bytes_single :
    RightBytes incrementalPool [⟨lastFilled, [1, 2, 3, 4]⟩, ⟨lastFilled, [5, 6, 7, 8]⟩,
      ⟨partlyFilled, List.replicate 10 9⟩] := by
  have huse : startsUse [lastFilled, lastFilled, partlyFilled] (fun _ => 0) = true := by
    decide +kernel
  refine (incremental_bytes_iff incrementalPool registered_incrementalPool
    [lastFilled, lastFilled, partlyFilled] (by decide +kernel)).mpr huse _ rfl ?_
  decide +kernel

/-- Ten bytes with `BUF_MORE`, then four: for the second completion the accessors return the
first four of the ten. -/
theorem incremental_bytes_shifted :
    Registered .INC incrementalPool ∧
    fitting incrementalPool.entries incrementalPool.bufSize [partlyFilled, lastFilled]
      (fun _ => 0) = true ∧
    ((FillSys.init incrementalPool).fillAll [⟨partlyFilled, List.replicate 10 1⟩,
      ⟨lastFilled, [2, 2, 2, 2]⟩]).pool.buffer 1 4 = some [1, 1, 1, 1] ∧
    ¬ RightBytes incrementalPool [⟨partlyFilled, List.replicate 10 1⟩,
      ⟨lastFilled, [2, 2, 2, 2]⟩] := by
  refine ⟨registered_incrementalPool, by decide +kernel, by decide +kernel, fun hright => ?_⟩
  have hexp := hright [⟨partlyFilled, List.replicate 10 1⟩] ⟨lastFilled, [2, 2, 2, 2]⟩ [] []
    rfl rfl
  exact absurd hexp.buffer (by decide +kernel)

end Ququmatz
