import Ququmatz.Lib.Record
import Ququmatz.Owned.MsgRegion

/-!
# `Ququmatz.Proofs.Owned.MsgRegion`: what the kernel finds in a staged region

The parts of a staged region lie one after the other in the storage (`stage_staged`), so a call
changes its own part alone. What the kernel reads through the header is then what was written
last (`kernelWalk_published`).
-/

set_option autoImplicit false

namespace Ququmatz

open Lib

theorem Memory.writeAll_bytes (m : Memory) (addr : Nat) (fields : List (Nat × List UInt8)) :
    (m.writeAll addr fields).bytes = Bytes.storeAll m.bytes addr fields := by
  induction fields generalizing m with
  | nil => rfl
  | cons f fields ih => exact ih (m.write (addr + f.1) f.2)

theorem Memory.writeAll_writes (m : Memory) (addr : Nat) (fields : List (Nat × List UInt8)) :
    (m.writeAll addr fields).writes =
      m.writes ++ fields.map fun f => ⟨addr + f.1, f.2.length⟩ := by
  induction fields generalizing m with
  | nil => exact (List.append_nil _).symm
  | cons f fields ih =>
      rw [List.map_cons, List.append_cons]
      exact ih (m.write (addr + f.1) f.2)

theorem Width.bytes_cases (w : Width) : w.bytes = 4 ∨ w.bytes = 8 := by
  cases w with
  | w32 => exact Or.inl rfl
  | w64 => exact Or.inr rfl

/-! ### Records are read back -/

section Records

variable [Native] {w : Width}

namespace Width

@[simp] theorem IoVec.length_toBytes (vec : w.IoVec) : vec.toBytes.length = w.sizeofIoVec := by
  rw [toBytes, List.length_append, length_usizeBytes, length_usizeBytes, sizeofIoVec]
  omega

/-- What stands at an address is read. -/
theorem IoVec.load_of_bytes {m : Nat → UInt8} {addr : Nat} {vec : w.IoVec}
    (h : Bytes.load m addr w.sizeofIoVec = vec.toBytes) : IoVec.load w m addr = vec := by
  rw [sizeofIoVec, Nat.two_mul, Bytes.load_add, toBytes] at h
  obtain ⟨hbase, hlen⟩ := List.append_inj h (by rw [Bytes.length_load, length_usizeBytes])
  rw [IoVec.load, hbase, hlen, usizeValue_usizeBytes, usizeValue_usizeBytes]

/-- An `IoVec` that was written is read back. -/
theorem IoVec.load_store (m : Nat → UInt8) (addr : Nat) (vec : w.IoVec) :
    IoVec.load w (Bytes.store m addr vec.toBytes) addr = vec := by
  have hself := Bytes.load_store_self m addr vec.toBytes
  rw [length_toBytes] at hself
  exact load_of_bytes hself

/-- A store beside an `IoVec` leaves it. -/
theorem IoVec.load_congr {m m' : Nat → UInt8} {addr : Nat}
    (h : Bytes.load m' addr w.sizeofIoVec = Bytes.load m addr w.sizeofIoVec) :
    IoVec.load w m' addr = IoVec.load w m addr := by
  rw [sizeofIoVec, Nat.two_mul, Bytes.load_add, Bytes.load_add] at h
  obtain ⟨hbase, hlen⟩ := List.append_inj h (by rw [Bytes.length_load, Bytes.length_load])
  rw [IoVec.load, IoVec.load, hbase, hlen]

theorem MsgHdr.fields_apart (hdr : w.MsgHdr) : Bytes.FieldsApart hdr.fields := by
  have hw := w.bytes_cases
  simp only [Bytes.FieldsApart, MsgHdr.fields, List.pairwise_cons, List.mem_cons,
    List.not_mem_nil, or_false, forall_eq_or_imp, forall_eq, length_usizeBytes, length_u32Bytes,
    length_i32Bytes, List.Pairwise.nil, false_imp_iff, implies_true, and_true]
  omega

/-- A header that was written is read back. -/
theorem MsgHdr.load_storeAll (m : Nat → UInt8) (addr : Nat) (hdr : w.MsgHdr) :
    MsgHdr.load w (Bytes.storeAll m addr hdr.fields) addr = hdr := by
  have hread : ∀ f ∈ hdr.fields,
      Bytes.load (Bytes.storeAll m addr hdr.fields) (addr + f.1) f.2.length = f.2 :=
    fun f hf => Bytes.load_storeAll_mem hdr.fields_apart hf
  generalize Bytes.storeAll m addr hdr.fields = m' at hread ⊢
  simp only [MsgHdr.fields, List.mem_cons, List.not_mem_nil, or_false, forall_eq_or_imp,
    forall_eq, length_usizeBytes, length_u32Bytes, length_i32Bytes, Nat.add_zero] at hread
  obtain ⟨hname, hnamelen, hiov, hiovlen, hcontrol, hcontrollen, hflags⟩ := hread
  rw [MsgHdr.load, hname, hnamelen, hiov, hiovlen, hcontrol, hcontrollen, hflags]
  simp

end Width

namespace SockAddrIn

@[simp] theorem length_toBytes (addr : SockAddrIn) : addr.toBytes.length = sizeofSockAddrIn := by
  simp [toBytes, sizeofSockAddrIn]

@[simp] theorem ofBytes_toBytes (addr : SockAddrIn) : ofBytes addr.toBytes = addr := by
  simp [ofBytes, toBytes, List.drop_append, List.drop_of_length_le]

end SockAddrIn

end Records

/-! ### Where the parts are -/

section Region

variable {w : Width}

/-- The parts of a region that was staged for `count` descriptors in `store`. -/
structure StagedRegion.Staged (store : Storage w) (count : Nat) (region : StagedRegion w) :
    Prop where
  storeEq : region.store = store
  countEq : region.count = count
  aligned : store.addr.toNat % w.alignofMsgHdr = 0
  room : w.bytesFor count ≤ store.len
  few : count ≤ MAX_IOV
  hdr : region.hdr.toNat = store.addr.toNat
  vecs : region.vecs.toNat = store.addr.toNat + w.sizeofMsgHdr
  name : region.name.toNat = store.addr.toNat + w.nameOffset count

/-- An offset within the storage does not wrap. -/
theorem Storage.toNat_add {store : Storage w} {off : Nat} (h : off < store.len) :
    (store.addr + BitVec.ofNat w.bits off).toNat = store.addr.toNat + off := by
  have hfits := store.fits
  rw [BitVec.toNat_add, BitVec.toNat_ofNat, Nat.mod_eq_of_lt (by omega : off < 2 ^ w.bits),
    Nat.mod_eq_of_lt (by omega)]

theorem stage_staged {store : Storage w} {count : Nat} {m m' : Memory} {region : StagedRegion w}
    (h : StagedRegion.stage store count m = (.ok region, m')) : region.Staged store count := by
  unfold StagedRegion.stage at h
  split at h
  · cases h
  next hfew =>
    dsimp only at h
    split at h
    · cases h
    next hroom =>
      split at h
      · cases h
      next haligned =>
        cases h
        have hbytes := w.bytes_cases
        have hroom : w.bytesFor count ≤ store.len := Nat.not_lt.mp hroom
        -- the storage has room for all three parts, so that neither offset wraps
        have hname : w.nameOffset count < store.len := by
          rw [Width.bytesFor, sizeofSockAddrIn] at hroom
          omega
        have hvecs : w.sizeofMsgHdr < store.len := by
          rw [Width.nameOffset] at hname
          omega
        exact ⟨rfl, rfl, Decidable.not_not.mp haligned, hroom, Nat.not_lt.mp hfew, rfl,
          Storage.toNat_add hvecs, Storage.toNat_add hname⟩

/-- The three parts of a region. -/
def StagedRegion.parts (self : StagedRegion w) : List Range :=
  [self.hdrRange, self.vecsRange, self.nameRange]

/-- Every part is aligned and inside the storage, and no two share a byte. -/
structure StagedRegion.LaidOut (region : StagedRegion w) : Prop where
  hdr : region.hdr.toNat % w.alignofMsgHdr = 0
  vecs : region.vecs.toNat % w.alignofIoVec = 0
  name : region.name.toNat % alignofSockAddrIn = 0
  inside : ∀ r ∈ region.parts, r.Inside region.store.memory
  apart : region.parts.Pairwise fun r s => r.start + r.len ≤ s.start

variable {store : Storage w} {count : Nat} {region : StagedRegion w}

theorem StagedRegion.Staged.laidOut (h : region.Staged store count) : region.LaidOut := by
  obtain ⟨hstore, hcount, haligned, hroom, -, hhdr, hvecs, hname⟩ := h
  have hbytes := w.bytes_cases
  simp only [Width.bytesFor, Width.nameOffset, Width.sizeofIoVec, Width.sizeofMsgHdr,
    Width.alignofMsgHdr, sizeofSockAddrIn] at hvecs hname hroom haligned
  have hsame : w.sizeofIoVec * region.count = 2 * w.bytes * count := by
    rw [hcount, Width.sizeofIoVec]
  refine ⟨?_, ?_, ?_, ?_, ?_⟩
  · rw [hhdr]
    exact haligned
  · rw [hvecs, Width.alignofIoVec, Nat.add_mul_mod_self_right]
    exact haligned
  · rcases hbytes with hp | hp <;> rw [hp] at hname haligned <;> rw [hname, alignofSockAddrIn] <;>
      omega
  · intro r hr
    simp only [parts, List.mem_cons, List.not_mem_nil, or_false] at hr
    rw [hstore]
    rcases hr with rfl | rfl | rfl <;> right <;>
      simp only [hdrRange, vecsRange, nameRange, Storage.memory, Width.sizeofMsgHdr,
        sizeofSockAddrIn, hsame] <;> omega
  · simp only [parts, List.pairwise_cons, List.mem_cons, List.not_mem_nil, or_false,
      forall_eq_or_imp, forall_eq, hdrRange, vecsRange, nameRange, Width.sizeofMsgHdr, hsame,
      List.Pairwise.nil, false_imp_iff, implies_true, and_true]
    omega

/-- The header, the descriptors and the address lie in this order. -/
theorem StagedRegion.Staged.order (h : region.Staged store count) :
    region.hdr.toNat + w.sizeofMsgHdr ≤ region.vecs.toNat ∧
      region.vecs.toNat + w.sizeofIoVec * region.count ≤ region.name.toNat := by
  rw [h.hdr, h.vecs, h.name, h.countEq, Width.nameOffset, Nat.add_assoc]
  exact ⟨Nat.le_refl _, Nat.le_refl _⟩

/-- The bytes that a call writes. -/
def StagedRegion.callRange (self : StagedRegion w) : RegionCall w self.count → Range
  | .writeDescriptor index _ => ⟨self.vecs.toNat + w.sizeofIoVec * index, w.sizeofIoVec⟩
  | .writeName _ => self.nameRange
  | .publishHeader _ => self.hdrRange

/-- The bytes of a call are in one part. -/
theorem StagedRegion.callRange_part (c : RegionCall w region.count) :
    ∃ r ∈ region.parts, r.start ≤ (region.callRange c).start ∧
      (region.callRange c).start + (region.callRange c).len ≤ r.start + r.len := by
  cases c with
  | writeDescriptor index vec =>
      refine ⟨region.vecsRange, by simp [parts], Nat.le_add_right _ _, ?_⟩
      have hle : w.sizeofIoVec * index + w.sizeofIoVec ≤ w.sizeofIoVec * region.count :=
        Bytes.elem_end_le index.isLt
      simp only [callRange, vecsRange]
      omega
  | writeName addr => exact ⟨region.nameRange, by simp [parts], Nat.le_refl _, Nat.le_refl _⟩
  | publishHeader named => exact ⟨region.hdrRange, by simp [parts], Nat.le_refl _, Nat.le_refl _⟩

@[simp] theorem StagedRegion.headerFor_msgIov (named : Bool) :
    (region.headerFor named).msgIov = region.vecs := rfl

theorem StagedRegion.headerFor_msgName (named : Bool) :
    (region.headerFor named).msgName = if named then region.name else 0 := by
  cases named <;> rfl

theorem StagedRegion.headerFor_msgNamelen (named : Bool) :
    (region.headerFor named).msgNamelen.toNat = if named then sizeofSockAddrIn else 0 := by
  cases named <;> rfl

theorem StagedRegion.headerFor_msgIovlen (h : region.Staged store count) (named : Bool) :
    (region.headerFor named).msgIovlen.toNat = region.count := by
  have hfew := h.few
  rw [← h.countEq, MAX_IOV] at hfew
  have hlt : region.count < 2 ^ w.bits := by
    cases w with
    | w32 => exact Nat.lt_of_le_of_lt hfew (by decide)
    | w64 => exact Nat.lt_of_le_of_lt hfew (by decide)
  exact (BitVec.toNat_ofNat _ _).trans (Nat.mod_eq_of_lt hlt)

theorem StagedRegion.name_ne_zero (h : region.Staged store count) : region.name ≠ 0 := by
  have hbytes := w.bytes_cases
  have hname := h.name
  rw [Width.nameOffset, Width.sizeofMsgHdr] at hname
  intro hzero
  rw [hzero] at hname
  have hnull : (0 : Usize w).toNat = 0 := BitVec.toNat_zero
  omega

/-- In a loop over the descriptors each one is written by its own turn, and by no other. -/
theorem vecFor_loop {N count : Nat} (hcount : N = count) (vec : Fin N → w.IoVec) (i : Fin N) :
    (((List.finRange N).map fun j =>
        (RegionCall.writeDescriptor (j.cast hcount) (vec j) : RegionCall w count)).filterMap
      (RegionCall.vecFor i)).getLast? = some (vec i) := by
  generalize hcalls : ((List.finRange N).map fun j =>
    (RegionCall.writeDescriptor (j.cast hcount) (vec j) : RegionCall w count)) = calls
  have honly : ∀ v ∈ calls.filterMap (RegionCall.vecFor i), v = vec i := by
    intro v hv
    obtain ⟨c, hc, hv⟩ := List.mem_filterMap.mp hv
    rw [← hcalls] at hc
    obtain ⟨j, -, rfl⟩ := List.mem_map.mp hc
    simp only [RegionCall.vecFor, Fin.val_cast] at hv
    split at hv
    · rename_i heq
      rw [← Option.some.inj hv, Fin.ext heq]
    · cases hv
  have hmem : vec i ∈ calls.filterMap (RegionCall.vecFor i) := by
    rw [← hcalls]
    exact List.mem_filterMap.mpr ⟨_, List.mem_map.mpr ⟨i, List.mem_finRange i, rfl⟩, if_pos rfl⟩
  rw [List.getLast?_eq_some_getLast (List.ne_nil_of_mem hmem)]
  exact congrArg some (honly _ (List.getLast_mem _))

end Region

/-! ### One call -/

section Calls

variable [Native] {w : Width} {store : Storage w} {count : Nat} {region : StagedRegion w}

/-- A call leaves alone what lies beside its own bytes. -/
theorem StagedRegion.call_outside {m : Memory} {c : RegionCall w region.count} {start len : Nat}
    (h : start + len ≤ (region.callRange c).start ∨
      (region.callRange c).start + (region.callRange c).len ≤ start) :
    Bytes.load (region.call m c).bytes start len = Bytes.load m.bytes start len := by
  cases c with
  | writeDescriptor index vec => exact Bytes.load_store_disjoint (by simpa [callRange] using h)
  | writeName addr => exact Bytes.load_store_disjoint (by simpa [callRange, nameRange] using h)
  | publishHeader named =>
      have hbytes := w.bytes_cases
      simp only [callRange, hdrRange, Width.sizeofMsgHdr] at h
      rw [call, publishHeader, Memory.writeAll_bytes]
      refine Bytes.load_storeAll_disjoint fun f hf => ?_
      simp only [Width.MsgHdr.fields, List.mem_cons, List.not_mem_nil, or_false] at hf
      rcases hf with rfl | rfl | rfl | rfl | rfl | rfl | rfl <;>
        simp only [length_usizeBytes, length_u32Bytes, length_i32Bytes] <;> omega

/-- A call writes inside its own bytes. -/
theorem StagedRegion.call_writes (m : Memory) (c : RegionCall w region.count) :
    ∃ ws, (region.call m c).writes = m.writes ++ ws ∧ ∀ r ∈ ws, r.Inside (region.callRange c) := by
  cases c with
  | writeDescriptor index vec =>
      refine ⟨_, rfl, fun r hr => ?_⟩
      rw [List.mem_singleton.mp hr, Width.IoVec.length_toBytes]
      exact Or.inr ⟨Nat.le_refl _, Nat.le_refl _⟩
  | writeName addr =>
      refine ⟨_, rfl, fun r hr => ?_⟩
      rw [List.mem_singleton.mp hr, SockAddrIn.length_toBytes]
      exact Or.inr ⟨Nat.le_refl _, Nat.le_refl _⟩
  | publishHeader named =>
      have hbytes := w.bytes_cases
      refine ⟨_, Memory.writeAll_writes _ _ _, fun r hr => ?_⟩
      simp only [Width.MsgHdr.fields, List.map_cons, List.map_nil, List.mem_cons,
        List.not_mem_nil, or_false] at hr
      rcases hr with rfl | rfl | rfl | rfl | rfl | rfl | rfl <;> right <;>
        simp only [length_usizeBytes, length_u32Bytes, length_i32Bytes, callRange, hdrRange,
          Width.sizeofMsgHdr] <;> omega

/-- A call rewrites a descriptor, or leaves it. -/
theorem StagedRegion.call_descriptor (h : region.Staged store count) {i : Nat}
    (hi : i < region.count) (m : Memory) (c : RegionCall w region.count) :
    region.descriptor i (region.call m c) = (c.vecFor i).getD (region.descriptor i m) := by
  obtain ⟨hvecs, hname⟩ := h.order
  have hle : w.sizeofIoVec * i + w.sizeofIoVec ≤ w.sizeofIoVec * region.count :=
    Bytes.elem_end_le hi
  -- What lies beside the bytes of the call stays.
  have hbeside : (region.vecs.toNat + w.sizeofIoVec * i + w.sizeofIoVec ≤
        (region.callRange c).start ∨
      (region.callRange c).start + (region.callRange c).len ≤
        region.vecs.toNat + w.sizeofIoVec * i) →
      region.descriptor i (region.call m c) = region.descriptor i m := fun hapart =>
    Width.IoVec.load_congr (call_outside hapart)
  cases c with
  | writeDescriptor index vec =>
      by_cases hindex : index.val = i
      · simp only [RegionCall.vecFor, if_pos hindex, Option.getD_some]
        subst hindex
        exact Width.IoVec.load_store _ _ _
      · simp only [RegionCall.vecFor, if_neg hindex, Option.getD_none]
        refine hbeside ?_
        simp only [callRange]
        rcases Nat.lt_or_gt_of_ne hindex with hlt | hlt
        · have hbelow : w.sizeofIoVec * index + w.sizeofIoVec ≤ w.sizeofIoVec * i :=
            Bytes.elem_end_le hlt
          omega
        · have habove : w.sizeofIoVec * i + w.sizeofIoVec ≤ w.sizeofIoVec * index :=
            Bytes.elem_end_le hlt
          omega
  | writeName addr => exact hbeside (by simp only [callRange, nameRange]; omega)
  | publishHeader named => exact hbeside (by simp only [callRange, hdrRange]; omega)

/-- A call rewrites the address, or leaves it. -/
theorem StagedRegion.call_name (h : region.Staged store count) (m : Memory)
    (c : RegionCall w region.count) :
    Bytes.load (region.call m c).bytes region.name.toNat sizeofSockAddrIn =
      (c.nameFor.map SockAddrIn.toBytes).getD
        (Bytes.load m.bytes region.name.toNat sizeofSockAddrIn) := by
  obtain ⟨hvecs, hname⟩ := h.order
  cases c with
  | writeDescriptor index vec =>
      have hle : w.sizeofIoVec * index + w.sizeofIoVec ≤ w.sizeofIoVec * region.count :=
        Bytes.elem_end_le index.isLt
      refine call_outside (Or.inr ?_)
      simp only [callRange]
      omega
  | writeName addr =>
      have hself := Bytes.load_store_self m.bytes region.name.toNat addr.toBytes
      rw [SockAddrIn.length_toBytes] at hself
      exact hself
  | publishHeader named => exact call_outside (Or.inr (by simp only [callRange, hdrRange]; omega))

/-- The header that was published is read back. -/
theorem StagedRegion.header_publish (named : Bool) (m : Memory) :
    region.header (region.publishHeader named m) = region.headerFor named := by
  rw [header, publishHeader, Memory.writeAll_bytes]
  exact Width.MsgHdr.load_storeAll _ _ _

/-! ### Sequences of calls -/

/-- After any calls a descriptor is the one written last. -/
theorem StagedRegion.calls_descriptor (h : region.Staged store count) {i : Nat}
    (hi : i < region.count) (cs : List (RegionCall w region.count)) (m : Memory) :
    region.descriptor i (region.calls cs m) =
      ((cs.filterMap (RegionCall.vecFor i)).getLast?).getD (region.descriptor i m) :=
  foldl_view (region.descriptor i) (call_descriptor h hi) cs m

/-- After any calls the address is the one written last. -/
theorem StagedRegion.calls_name (h : region.Staged store count)
    (cs : List (RegionCall w region.count)) (m : Memory) :
    Bytes.load (region.calls cs m).bytes region.name.toNat sizeofSockAddrIn =
      ((cs.filterMap RegionCall.nameFor).getLast?.map SockAddrIn.toBytes).getD
        (Bytes.load m.bytes region.name.toNat sizeofSockAddrIn) := by
  have hview := foldl_view (fun m => Bytes.load m.bytes region.name.toNat sizeofSockAddrIn)
    (call_name h) cs m
  rw [← List.map_filterMap, List.getLast?_map] at hview
  exact hview

/-- What the kernel finds through the header after any calls that end with its publication. -/
theorem kernelWalk_published (h : region.Staged store count)
    (cs : List (RegionCall w region.count)) (named : Bool) (m : Memory) :
    kernelWalk w (region.calls (cs ++ [.publishHeader named]) m).bytes region.hdr.toNat =
      { vecs := (List.range region.count).map fun i =>
          ((cs.filterMap (RegionCall.vecFor i)).getLast?).getD (region.descriptor i m)
        name :=
          if named then
            some (((cs.filterMap RegionCall.nameFor).getLast?.map SockAddrIn.toBytes).getD
              (Bytes.load m.bytes region.name.toNat sizeofSockAddrIn))
          else none } := by
  have hpublish : region.calls (cs ++ [.publishHeader named]) m =
      region.publishHeader named (region.calls cs m) := by
    rw [StagedRegion.calls, List.foldl_append]
    rfl
  have hheader : Width.MsgHdr.load w
      (region.calls (cs ++ [.publishHeader named]) m).bytes region.hdr.toNat =
        region.headerFor named := by
    rw [hpublish]
    exact StagedRegion.header_publish named _
  have hvecs : ∀ i ∈ List.range region.count,
      region.descriptor i (region.calls (cs ++ [.publishHeader named]) m) =
        ((cs.filterMap (RegionCall.vecFor i)).getLast?).getD (region.descriptor i m) := by
    intro i hi
    rw [StagedRegion.calls_descriptor h (List.mem_range.mp hi), List.filterMap_append]
    simp [RegionCall.vecFor]
  have hname := StagedRegion.calls_name h (cs ++ [.publishHeader named]) m
  rw [List.filterMap_append] at hname
  simp only [List.filterMap_cons, List.filterMap_nil, RegionCall.nameFor, List.append_nil] at hname
  simp only [kernelWalk, hheader, StagedRegion.headerFor_msgIov,
    StagedRegion.headerFor_msgIovlen h, StagedRegion.headerFor_msgName,
    StagedRegion.headerFor_msgNamelen, KernelMessage.mk.injEq]
  refine ⟨List.map_congr_left hvecs, ?_⟩
  cases named with
  | false => exact if_pos rfl
  | true =>
      -- The address slot is not at the null address.
      simp only [if_true, if_neg (StagedRegion.name_ne_zero h)]
      exact congrArg some hname

/-- The calls write inside the storage. -/
theorem StagedRegion.Staged.calls_writes (h : region.Staged store count)
    (cs : List (RegionCall w region.count)) (m : Memory) :
    ∃ ws, (region.calls cs m).writes = m.writes ++ ws ∧ ∀ r ∈ ws, r.Inside store.memory := by
  induction cs generalizing m with
  | nil => exact ⟨[], (List.append_nil _).symm, nofun⟩
  | cons c cs ih =>
      obtain ⟨ws, hws, hin⟩ := StagedRegion.call_writes m c
      obtain ⟨ws', hws', hin'⟩ := ih (region.call m c)
      refine ⟨ws ++ ws', ?_, fun r hr => ?_⟩
      · rw [StagedRegion.calls, List.foldl_cons, ← List.append_assoc, ← hws]
        exact hws'
      · cases List.mem_append.mp hr with
        | inr hr => exact hin' r hr
        | inl hr =>
            -- what a call writes lies in one part, and each part inside the storage
            obtain ⟨part, hpart, hfirst, hlast⟩ := StagedRegion.callRange_part c
            have hstore := h.laidOut.inside part hpart
            rw [h.storeEq] at hstore
            have hcall := hin r hr
            unfold Range.Inside at hcall hstore ⊢
            omega

end Calls

/-! ### The law -/

/-- When the storage is staged, and what the kernel then finds in it. -/
structure StagingLaw [Native] {w : Width} (store : Storage w) (count : Nat) (m : Memory) :
    Prop where
  succeeds : (∃ region, (StagedRegion.stage store count m).1 = .ok region) ↔
    count ≤ MAX_IOV ∧ w.bytesFor count ≤ store.len ∧ store.addr.toNat % w.alignofMsgHdr = 0
  /-- Staging touches no byte, and hands the storage back when it fails. -/
  untouched : (StagedRegion.stage store count m).2 = m
  handedBack : ∀ s e, (StagedRegion.stage store count m).1 = .error (s, e) → s = store
  laidOut : ∀ region, (StagedRegion.stage store count m).1 = .ok region →
    region.store = store ∧ region.count = count ∧ region.LaidOut
  /-- Each descriptor and the address are as they were written last, or as they were found. -/
  published : ∀ region, (StagedRegion.stage store count m).1 = .ok region →
    ∀ (cs : List (RegionCall w region.count)) (named : Bool) (m' : Memory),
      kernelWalk w (region.calls (cs ++ [.publishHeader named]) m').bytes region.hdr.toNat =
        { vecs := (List.range region.count).map fun i =>
            ((cs.filterMap (RegionCall.vecFor i)).getLast?).getD (region.descriptor i m')
          name :=
            if named then
              some (((cs.filterMap RegionCall.nameFor).getLast?.map SockAddrIn.toBytes).getD
                (Bytes.load m'.bytes region.name.toNat sizeofSockAddrIn))
            else none }
  writes : ∀ region, (StagedRegion.stage store count m).1 = .ok region →
    ∀ (cs : List (RegionCall w region.count)) (m' : Memory),
      ∃ ws, (region.calls cs m').writes = m'.writes ++ ws ∧ ∀ r ∈ ws, r.Inside store.memory

theorem stage_memory {w : Width} (store : Storage w) (count : Nat) (m : Memory) :
    (StagedRegion.stage store count m).2 = m := by
  unfold StagedRegion.stage
  dsimp only
  split
  · rfl
  · split
    · rfl
    · split <;> rfl

/-- What comes of staging does not depend on the memory. -/
theorem stage_congr {w : Width} (store : Storage w) (count : Nat) (m₁ m₂ : Memory) :
    (StagedRegion.stage store count m₁).1 = (StagedRegion.stage store count m₂).1 := by
  unfold StagedRegion.stage
  dsimp only
  split
  · rfl
  · split
    · rfl
    · split <;> rfl

theorem stage_error {w : Width} {store s : Storage w} {count : Nat} {m : Memory}
    {e : MsgRegionError} (h : (StagedRegion.stage store count m).1 = .error (s, e)) :
    s = store := by
  unfold StagedRegion.stage at h
  dsimp only at h
  split at h
  · cases h
    rfl
  · split at h
    · cases h
      rfl
    · split at h <;> cases h
      rfl

theorem stage_ok {w : Width} {store : Storage w} {count : Nat} {m : Memory}
    (hfew : count ≤ MAX_IOV) (hroom : w.bytesFor count ≤ store.len)
    (haligned : store.addr.toNat % w.alignofMsgHdr = 0) :
    ∃ region, (StagedRegion.stage store count m).1 = .ok region := by
  unfold StagedRegion.stage
  dsimp only
  rw [if_neg (Nat.not_lt.mpr hfew), if_neg (Nat.not_lt.mpr hroom),
    if_neg (Decidable.not_not.mpr haligned)]
  exact ⟨_, rfl⟩

/-- A store is accepted exactly when it is adequate, and whatever the calls on the region, the
kernel finds in its bytes the message that was published, and nothing outside the store changes.
-/
theorem stagingLaw [Native] {w : Width} (store : Storage w) (count : Nat) (m : Memory) :
    StagingLaw store count m := by
  have hstaged : ∀ region, (StagedRegion.stage store count m).1 = .ok region →
      region.Staged store count :=
    fun region h => stage_staged (Prod.ext_iff.mpr ⟨h, stage_memory store count m⟩)
  constructor
  case succeeds =>
    constructor
    · rintro ⟨region, h⟩
      have hs := hstaged region h
      exact ⟨hs.few, hs.room, hs.aligned⟩
    · rintro ⟨hfew, hroom, haligned⟩
      exact stage_ok hfew hroom haligned
  case untouched => exact stage_memory store count m
  case handedBack => exact fun s e h => stage_error h
  case laidOut =>
    intro region h
    have hs := hstaged region h
    exact ⟨hs.storeEq, hs.countEq, hs.laidOut⟩
  case published =>
    exact fun region h cs named m' => kernelWalk_published (hstaged region h) cs named m'
  case writes => exact fun region h cs m' => (hstaged region h).calls_writes cs m'

end Ququmatz
