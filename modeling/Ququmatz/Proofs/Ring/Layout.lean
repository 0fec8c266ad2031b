import Ququmatz.Proofs.Ring.Masks
import Ququmatz.Proofs.Ring.Setup

/-!
# `Ququmatz.Proofs.Ring.Layout`: parsing stays in the mapped rings

Three parts. `mapRings_mapped` says where the regions of a successful `map_rings` are.
`fillIdentity_spec` says what the fill of the SQ array writes, so that everything beside the
array is as before. And the handles index only by their masks (`Handles.calls_masked`), so a
mask of one less than the number of entries keeps every later slot in its region.
-/

set_option autoImplicit false

namespace Ququmatz

open Lib

/-! ### The regions -/

/-- Where the regions of a successful `map_rings` are. -/
structure MappedRings.Mapped (rings : MappedRings) (params : IoUringParams)
    (features setupFlags : UInt32) (os : Os) : Prop where
  mmapSz : rings.mmapSz = Ququmatz.mmapSz params features setupFlags
  sqesSz : rings.sqesSz = ringBytes 0 params.sqEntries sizeofIoUringSqe
  sqLive : .mapping ⟨rings.sqRingPtr, rings.mmapSz⟩ ∈ os.ledger.live
  sqesLive : .mapping ⟨rings.sqesPtr, rings.sqesSz⟩ ∈ os.ledger.live
  /-- The completion ring is in the mapping of the submission ring, or apart from it. -/
  cqRing : (isSingleMmap features = true ∧ rings.cqRingPtr = rings.sqRingPtr ∧
      rings.cqRingRegion = ⟨0, 0⟩) ∨
    (isSingleMmap features = false ∧ 0 < cqRingSz params ∧
      rings.cqRingRegion = ⟨rings.cqRingPtr, cqRingSz params⟩ ∧
      .mapping rings.cqRingRegion ∈ os.ledger.live ∧
      (rings.sqRingPtr + rings.mmapSz ≤ rings.cqRingPtr ∨
        rings.cqRingPtr + cqRingSz params ≤ rings.sqRingPtr))

section Mapping

variable {α : Type} {Q : α → Os → Prop}

/-- A new mapping lies apart from the live ones, and these stay. -/
theorem Spec.mmapApart {live : List MappedRegion} {len : Nat} {backing : Backing}
    {f : Except Errno Nat → OsProg α}
    (hfail : ∀ e, Spec osMachine (fun _ => True) (f (.error e)) Q)
    (hok : ∀ addr, 0 < len →
      (∀ m ∈ live, m.addr + m.len ≤ addr ∨ addr + len ≤ m.addr) →
      Spec osMachine (fun os => ∀ m ∈ ⟨addr, len⟩ :: live, .mapping m ∈ os.ledger.live)
        (f (.ok addr)) Q) :
    Spec osMachine (fun os => ∀ m ∈ live, .mapping m ∈ os.ledger.live)
      (call (.mmap len backing) >>= f) Q := by
  refine Spec.osCall fun reply os x os' hos hacc => ?_
  -- the kernel answers with an address only if the pages there are free
  simp only [Os.access] at hacc
  split at hacc
  · cases hacc
    exact ⟨_, trivial, hfail _⟩
  · split at hacc
    · rename_i hc
      cases hacc
      refine ⟨_, ?_, hok _ hc.1 fun m hm => ?_⟩
      · intro m hm
        cases List.mem_cons.mp hm with
        | inl h => exact h ▸ List.mem_cons_self
        | inr h => exact List.mem_cons_of_mem _ (hos m h)
      · have hapart := List.all_eq_true.mp hc.2.1 _ (hos m hm)
        exact of_decide_eq_true hapart
    · cases hacc
  · cases hacc

end Mapping

theorem mapRings_mapped {fd : RawFd} {params : IoUringParams} {features setupFlags : UInt32}
    {guard : SetupGuard} :
    Spec osMachine (fun _ => True) (mapRings fd params features setupFlags guard) fun res os =>
      ∀ rings, res.1 = .ok rings → rings.Mapped params features setupFlags os := by
  have hnone : Spec osMachine (fun os => ∀ m ∈ ([] : List MappedRegion),
      .mapping m ∈ os.ledger.live) (mapRings fd params features setupFlags guard) fun res os =>
        ∀ rings, res.1 = .ok rings → rings.Mapped params features setupFlags os := by
    unfold mapRings
    refine Spec.mmapApart (fun e => Spec.ret fun os _ rings h => by cases h) fun sqPtr hsq _ => ?_
    by_cases hsingle : isSingleMmap features = true
    · -- One mapping serves both rings.
      simp only [hsingle, if_true]
      unfold mapSqes
      refine Spec.mmapApart (fun e => Spec.ret fun os _ rings h => by cases h)
        fun sqesPtr hsqes _ => Spec.ret fun os hos rings h => ?_
      cases h
      exact ⟨rfl, rfl, hos _ (by simp), hos _ (by simp), Or.inl ⟨hsingle, rfl, rfl⟩⟩
    · -- Two mappings, and the second lies apart from the first.
      simp only [hsingle]
      refine Spec.mmapApart (fun e => Spec.ret fun os _ rings h => by cases h)
        fun cqPtr hcq hapart => ?_
      unfold mapSqes
      refine Spec.mmapApart (fun e => Spec.ret fun os _ rings h => by cases h)
        fun sqesPtr hsqes _ => Spec.ret fun os hos rings h => ?_
      cases h
      exact ⟨rfl, rfl, hos _ (by simp), hos _ (by simp), Or.inr ⟨Bool.eq_false_iff.mpr hsingle, hcq,
        rfl, hos _ (by simp), hapart _ List.mem_cons_self⟩⟩
  exact Spec.conseq hnone (fun _ _ m hm => by cases hm) fun _ _ h => h

/-! ### The accesses of the parse -/

theorem assertsAligned_of {debug : Bool} {addr align : Nat} (h : debug = false ∨ addr % align = 0) :
    assertsAligned debug addr align = true := by
  rcases h with rfl | h
  · rfl
  · simp [assertsAligned, h]

section Parse

variable [Native]

theorem Memory.writeU32_writes (m : Memory) (addr : Nat) (v : UInt32) :
    (m.writeU32 addr v).writes = m.writes ++ [⟨addr, 4⟩] := by
  rw [writeU32, write, length_u32Bytes]

theorem Memory.writeU32_outside {m : Memory} {addr start len : Nat} {v : UInt32}
    (h : start + len ≤ addr ∨ addr + 4 ≤ start) :
    Bytes.load (m.writeU32 addr v).bytes start len = Bytes.load m.bytes start len :=
  Bytes.load_store_disjoint (by rwa [length_u32Bytes])

theorem Memory.writeU32_self (m : Memory) (addr : Nat) (v : UInt32) :
    Bytes.load (m.writeU32 addr v).bytes addr 4 = u32Bytes v := by
  have h := Bytes.load_store_self m.bytes addr (u32Bytes v)
  rwa [length_u32Bytes] at h

/-- What the loop has done: the words of the array, and nothing beside them. -/
structure Filled (sqArray n i : Nat) (m m' : Memory) : Prop where
  reads : m'.reads = m.reads
  writes : m'.writes = m.writes ++ (List.range n).map fun j => ⟨sqArray + 4 * (i + j), 4⟩
  words : ∀ j < n, Bytes.load m'.bytes (sqArray + 4 * (i + j)) 4 = u32Bytes (UInt32.ofNat (i + j))
  outside : ∀ start len, start + len ≤ sqArray + 4 * i ∨ sqArray + 4 * (i + n) ≤ start →
    Bytes.load m'.bytes start len = Bytes.load m.bytes start len

theorem fillIdentity_spec (sqArray n i : Nat) (m : Memory) :
    Filled sqArray n i m (RingLayout.fillIdentity sqArray n i m) := by
  induction n generalizing i m with
  | zero =>
      refine ⟨rfl, (List.append_nil _).symm, fun j hj => ?_, fun _ _ _ => rfl⟩
      cases hj
  | succ n ih =>
      have hrest := ih (i + 1) (m.writeU32 (sqArray + 4 * i) (UInt32.ofNat i))
      refine ⟨hrest.reads, ?_, ?_, ?_⟩
      · rw [RingLayout.fillIdentity, hrest.writes, Memory.writeU32_writes, List.range_succ_eq_map,
          List.map_cons, List.map_map, List.append_assoc]
        refine congrArg (m.writes ++ ·) (congrArg₂ List.cons rfl (List.map_congr_left ?_))
        intro j _
        show (⟨sqArray + 4 * (i + 1 + j), 4⟩ : Range) = ⟨sqArray + 4 * (i + (j + 1)), 4⟩
        rw [Nat.add_right_comm i 1 j, Nat.add_assoc i j 1]
      · intro j hj
        rw [RingLayout.fillIdentity]
        cases j with
        | zero =>
            -- The word of this round; the later rounds write above it.
            rw [hrest.outside _ _ (Or.inl (by omega))]
            exact Memory.writeU32_self _ _ _
        | succ j =>
            have hword := hrest.words j (by omega)
            rwa [Nat.add_right_comm i 1 j, Nat.add_assoc i j 1] at hword
      · intro start len h
        rw [RingLayout.fillIdentity, hrest.outside start len (by omega)]
        exact Memory.writeU32_outside (by omega)

/-- The words of the SQ array, in the order in which they are filled. -/
def arrayWords (layout : RingLayout) (sqRingPtr : Nat) : List Range :=
  (List.range layout.params.sqEntries.toNat).map fun i =>
    ⟨sqRingPtr + layout.params.sqOff.array.toNat + 4 * i, 4⟩

/-- The addresses that the assertions of `parse_sq` are about. -/
def SqAligned (layout : RingLayout) (sqRingPtr : Nat) (hasSqArray : Bool) : Prop :=
  (sqRingPtr + layout.sq.head.toNat) % 4 = 0 ∧ (sqRingPtr + layout.sq.tail.toNat) % 4 = 0 ∧
    (sqRingPtr + layout.sq.flags.toNat) % 4 = 0 ∧
    (hasSqArray = true → (sqRingPtr + layout.params.sqOff.array.toNat) % 4 = 0)

/-- What `parse_sq` has done to the memory, and what it returns. -/
structure SqParsed (layout : RingLayout) (debug : Bool) (sqRingPtr sqesPtr : Nat)
    (hasSqArray : Bool) (m : Memory) (out : Option ParsedSq × Memory) : Prop where
  reads : ∀ r ∈ out.2.reads, r ∈ m.reads ∨ r = ⟨sqRingPtr + layout.sq.ringMask.toNat, 4⟩ ∨
    r = ⟨sqRingPtr + layout.sq.tail.toNat, 4⟩
  writes : out.2.writes = m.writes ∨
    (hasSqArray = true ∧ out.2.writes = m.writes ++ arrayWords layout sqRingPtr)
  filled : out.1.isSome = true → hasSqArray = true →
    out.2.writes = m.writes ++ arrayWords layout sqRingPtr ∧
      ∀ i < layout.params.sqEntries.toNat,
        Bytes.load out.2.bytes (sqRingPtr + layout.params.sqOff.array.toNat + 4 * i) 4 =
          u32Bytes (UInt32.ofNat i)
  unfilled : hasSqArray = false → out.2.writes = m.writes
  outside : ∀ start len,
    (hasSqArray = true → start + len ≤ sqRingPtr + layout.params.sqOff.array.toNat ∨
      sqRingPtr + layout.params.sqOff.array.toNat + 4 * layout.params.sqEntries.toNat ≤ start) →
    Bytes.load out.2.bytes start len = Bytes.load m.bytes start len
  parsed : ∀ p, out.1 = some p → p.sqHead = sqRingPtr + layout.sq.head.toNat ∧
    p.sqTail = sqRingPtr + layout.sq.tail.toNat ∧ p.sqFlags = sqRingPtr + layout.sq.flags.toNat ∧
    p.sqes = sqesPtr ∧
    p.sqMask = u32Value (Bytes.load m.bytes (sqRingPtr + layout.sq.ringMask.toNat) 4)
  returns : debug = false ∨ SqAligned layout sqRingPtr hasSqArray → out.1.isSome = true

theorem parseSq_spec (debug : Bool) (sqRingPtr sqesPtr : Nat) (layout : RingLayout)
    (hasSqArray : Bool) (m : Memory) :
    SqParsed layout debug sqRingPtr sqesPtr hasSqArray m
      (RingLayout.parseSq debug sqRingPtr sqesPtr layout hasSqArray m) := by
  let m1 := (m.readU32 (sqRingPtr + layout.sq.ringMask.toNat)).2
  -- A failed assertion: only the mask has been read.
  have hfailed : (debug = false ∨ SqAligned layout sqRingPtr hasSqArray → False) →
      SqParsed layout debug sqRingPtr sqesPtr hasSqArray m (none, m1) := by
    intro hno
    refine ⟨fun r hr => ?_, Or.inl rfl, nofun, fun _ => rfl, fun _ _ _ => rfl, nofun,
      fun h => (hno h).elim⟩
    cases List.mem_append.mp hr with
    | inl h => exact Or.inl h
    | inr h => exact Or.inr (Or.inl (List.mem_singleton.mp h))
  have hreads : ∀ r, r ∈ m.reads ++ [⟨sqRingPtr + layout.sq.ringMask.toNat, 4⟩] ++
      [⟨sqRingPtr + layout.sq.tail.toNat, 4⟩] → r ∈ m.reads ∨
        r = ⟨sqRingPtr + layout.sq.ringMask.toNat, 4⟩ ∨
        r = ⟨sqRingPtr + layout.sq.tail.toNat, 4⟩ := by
    intro r hr
    rw [List.mem_append, List.mem_append, List.mem_singleton, List.mem_singleton, or_assoc] at hr
    exact hr
  unfold RingLayout.parseSq
  dsimp only
  split
  case isFalse hno =>
    refine hfailed fun h => hno ?_
    rw [assertsAligned_of (h.imp_right (·.1)), assertsAligned_of (h.imp_right (·.2.1)),
      assertsAligned_of (h.imp_right (·.2.2.1))]
    rfl
  case isTrue =>
    split
    case isFalse harray =>
      refine ⟨hreads, Or.inl rfl, fun _ h => absurd h harray, fun _ => rfl, fun _ _ _ => rfl,
        fun p hp => ?_, fun _ => rfl⟩
      cases hp
      exact ⟨rfl, rfl, rfl, rfl, rfl⟩
    case isTrue harray =>
      split
      case isFalse hno =>
        exact hfailed fun h => hno (assertsAligned_of (h.imp_right (·.2.2.2 harray)))
      case isTrue =>
        have hfill := fillIdentity_spec (sqRingPtr + layout.params.sqOff.array.toNat)
          layout.params.sqEntries.toNat 0 m1
        have hwrites : (RingLayout.fillIdentity (sqRingPtr + layout.params.sqOff.array.toNat)
            layout.params.sqEntries.toNat 0 m1).writes =
              m.writes ++ arrayWords layout sqRingPtr := by
          rw [hfill.writes]
          exact congrArg _ (List.map_congr_left fun i _ => by rw [Nat.zero_add])
        refine ⟨fun r hr => hreads r ?_, Or.inr ⟨harray, hwrites⟩, fun _ _ => ⟨hwrites, ?_⟩,
          fun h => absurd harray (by rw [h]; decide), fun start len h => ?_, fun p hp => ?_,
          fun _ => rfl⟩
        · have hr : r ∈ (RingLayout.fillIdentity (sqRingPtr + layout.params.sqOff.array.toNat)
            layout.params.sqEntries.toNat 0 m1).reads ++ [⟨sqRingPtr + layout.sq.tail.toNat, 4⟩] :=
            hr
          rwa [hfill.reads] at hr
        · intro i hi
          have hword := hfill.words i hi
          rwa [Nat.zero_add] at hword
        · exact hfill.outside start len (by simpa using h harray)
        · cases hp
          exact ⟨rfl, rfl, rfl, rfl, rfl⟩

/-- What `parse_cq` has done to the memory, and what it returns. -/
structure CqParsed (layout : RingLayout) (debug : Bool) (cqRingPtr : Nat) (m : Memory)
    (out : Option ParsedCq × Memory) : Prop where
  reads : ∃ rs, out.2.reads = m.reads ++ rs ∧ ∀ r ∈ rs,
    r = ⟨cqRingPtr + layout.cq.ringMask.toNat, 4⟩ ∨ r = ⟨cqRingPtr + layout.cq.head.toNat, 4⟩
  writes : out.2.writes = m.writes
  bytes : out.2.bytes = m.bytes
  parsed : ∀ p, out.1 = some p → p.cqHead = cqRingPtr + layout.cq.head.toNat ∧
    p.cqTail = cqRingPtr + layout.cq.tail.toNat ∧
    p.cqes = cqRingPtr + layout.params.cqOff.cqes.toNat ∧
    p.cqMask = u32Value (Bytes.load m.bytes (cqRingPtr + layout.cq.ringMask.toNat) 4)
  returns : debug = false ∨ ((cqRingPtr + layout.cq.head.toNat) % 4 = 0 ∧
    (cqRingPtr + layout.cq.tail.toNat) % 4 = 0 ∧
    (cqRingPtr + layout.params.cqOff.cqes.toNat) % 8 = 0) → out.1.isSome = true

theorem parseCq_spec (debug : Bool) (cqRingPtr : Nat) (layout : RingLayout) (m : Memory) :
    CqParsed layout debug cqRingPtr m (RingLayout.parseCq debug cqRingPtr layout m) := by
  unfold RingLayout.parseCq
  dsimp only
  split
  case isFalse hno =>
    refine ⟨⟨[⟨cqRingPtr + layout.cq.ringMask.toNat, 4⟩], rfl, fun r hr =>
      Or.inl (List.mem_singleton.mp hr)⟩, rfl, rfl, nofun, fun h => absurd ?_ hno⟩
    rw [assertsAligned_of (h.imp_right (·.1)), assertsAligned_of (h.imp_right (·.2.1)),
      assertsAligned_of (h.imp_right (·.2.2))]
    rfl
  case isTrue =>
    refine ⟨⟨[⟨cqRingPtr + layout.cq.ringMask.toNat, 4⟩, ⟨cqRingPtr + layout.cq.head.toNat, 4⟩],
      List.append_assoc _ _ _, fun r hr => by simpa using hr⟩, rfl, rfl, fun p hp => ?_,
      fun _ => rfl⟩
    cases hp
    exact ⟨rfl, rfl, rfl, rfl⟩

end Parse

/-! ### The regions hold what the offsets name -/

section Regions

variable {layout : RingLayout} {features setupFlags : UInt32} {rings : MappedRings} {os : Os}

/-- The mapping of the submission ring goes up to the end of the array. -/
theorem array_le_mmapSz (layout : RingLayout) (features : UInt32)
    (h : hasSqArray setupFlags = true) :
    layout.params.sqOff.array.toNat + 4 * layout.params.sqEntries.toNat ≤
      mmapSz layout.params features setupFlags := by
  have hring : sqRingSz layout.params setupFlags =
      layout.params.sqOff.array.toNat + layout.params.sqEntries.toNat * 4 := by
    rw [sqRingSz, if_pos h, ringBytes]
  unfold mmapSz
  split <;> omega

/-- One mapping goes up to the end of the CQEs. -/
theorem cqes_le_mmapSz (layout : RingLayout) (setupFlags : UInt32)
    (h : isSingleMmap features = true) :
    layout.params.cqOff.cqes.toNat + 16 * layout.params.cqEntries.toNat ≤
      mmapSz layout.params features setupFlags := by
  have hring : cqRingSz layout.params =
      layout.params.cqOff.cqes.toNat + layout.params.cqEntries.toNat * 16 := rfl
  rw [mmapSz, if_pos h]
  omega

/-- A word of the headers lies in the mapping of the submission ring: in front of the array,
or, where there is none, in front of the CQEs of the one mapping. -/
theorem header_inside_sq (hc : layout.Consistent features setupFlags)
    (hm : rings.Mapped layout.params features setupFlags os) {off : UInt32}
    (hoff : off ∈ layout.scalars) :
    Range.Inside ⟨rings.sqRingPtr + off.toNat, 4⟩ rings.sqRange := by
  have hsz := hm.mmapSz
  refine Or.inr ⟨by simp [MappedRings.sqRange], ?_⟩
  simp only [MappedRings.sqRange]
  cases harray : hasSqArray setupFlags with
  | true =>
      have hbefore := hc.beforeArray harray off hoff
      have hend := array_le_mmapSz layout features harray
      omega
  | false =>
      have hbefore := hc.beforeCqes off hoff
      have hend := cqes_le_mmapSz layout setupFlags (hc.noSqArray harray).2
      omega

/-- Whatever lies in front of the end of the CQEs is in the mapping of the completion ring. -/
theorem inside_cq (hm : rings.Mapped layout.params features setupFlags os) {off len : Nat}
    (h : off + len ≤ layout.params.cqOff.cqes.toNat + 16 * layout.params.cqEntries.toNat) :
    Range.Inside ⟨rings.cqRingPtr + off, len⟩ rings.cqRange := by
  right
  rcases hm.cqRing with ⟨hsingle, hptr, hregion⟩ | ⟨hsingle, hpos, hregion, -, -⟩
  · have hend := cqes_le_mmapSz layout setupFlags hsingle
    have hsz := hm.mmapSz
    simp only [MappedRings.cqRange, hregion, if_true]
    omega
  · have hring : cqRingSz layout.params =
        layout.params.cqOff.cqes.toNat + layout.params.cqEntries.toNat * 16 := rfl
    simp only [MappedRings.cqRange, hregion, if_neg (Nat.ne_of_gt hpos)]
    omega

theorem header_inside_cq (hc : layout.Consistent features setupFlags)
    (hm : rings.Mapped layout.params features setupFlags os) {off : UInt32}
    (hoff : off ∈ layout.scalars) :
    Range.Inside ⟨rings.cqRingPtr + off.toNat, 4⟩ rings.cqRange :=
  inside_cq hm (by have := hc.beforeCqes off hoff; omega)

/-- The words of the array lie in the mapping of the submission ring. -/
theorem arrayWords_inside (hm : rings.Mapped layout.params features setupFlags os)
    (harray : hasSqArray setupFlags = true) {r : Range}
    (hr : r ∈ arrayWords layout rings.sqRingPtr) : r.Inside rings.sqRange := by
  obtain ⟨i, hi, rfl⟩ := List.mem_map.mp hr
  have hi := List.mem_range.mp hi
  have hend := array_le_mmapSz layout features harray
  have hsz := hm.mmapSz
  refine Or.inr ⟨by simp only [MappedRings.sqRange]; omega, ?_⟩
  simp only [MappedRings.sqRange]
  omega

/-- The array shares no byte with what lies in front of it, nor with the CQEs, in either
mapping. -/
theorem apart_of_array (hc : layout.Consistent features setupFlags)
    (hm : rings.Mapped layout.params features setupFlags os)
    (harray : hasSqArray setupFlags = true) {off len : Nat}
    (hin : off + len ≤ layout.params.cqOff.cqes.toNat + 16 * layout.params.cqEntries.toNat)
    (hoff : off + len ≤ layout.params.sqOff.array.toNat ∨
      layout.params.cqOff.cqes.toNat ≤ off) :
    rings.cqRingPtr + off + len ≤ rings.sqRingPtr + layout.params.sqOff.array.toNat ∨
      rings.sqRingPtr + layout.params.sqOff.array.toNat + 4 * layout.params.sqEntries.toNat ≤
        rings.cqRingPtr + off := by
  have hend := array_le_mmapSz layout features harray
  have hsz := hm.mmapSz
  rcases hm.cqRing with ⟨hsingle, hptr, -⟩ | ⟨-, -, -, -, hapart⟩
  · -- In one mapping the two arrays are disjoint.
    rcases hc.disjoint harray hsingle with h | h <;> omega
  · have hring : cqRingSz layout.params =
        layout.params.cqOff.cqes.toNat + layout.params.cqEntries.toNat * 16 := rfl
    omega

/-- The completion ring is in a live mapping. -/
theorem cqRange_live (hm : rings.Mapped layout.params features setupFlags os) :
    .mapping ⟨rings.cqRange.start, rings.cqRange.len⟩ ∈ os.ledger.live := by
  rcases hm.cqRing with ⟨-, hptr, hregion⟩ | ⟨-, hpos, hregion, hlive, -⟩
  · simp only [MappedRings.cqRange, hregion, if_true, hptr]
    exact hm.sqLive
  · rw [hregion] at hlive
    simp only [MappedRings.cqRange, hregion, if_neg (Nat.ne_of_gt hpos)]
    exact hlive

theorem sqeSlot_inside (hm : rings.Mapped layout.params features setupFlags os) {p : ParsedSq}
    (hsqes : p.sqes = rings.sqesPtr) {idx : UInt32}
    (hlt : idx.toNat < layout.params.sqEntries.toNat) :
    (p.sqeSlot idx).Inside rings.sqesRange := by
  have hsz : rings.sqesSz = 0 + layout.params.sqEntries.toNat * 64 := hm.sqesSz
  refine Or.inr ⟨?_, ?_⟩ <;>
    simp only [ParsedSq.sqeSlot, MappedRings.sqesRange, sizeofIoUringSqe, hsqes] <;> omega

theorem cqeSlot_inside (hm : rings.Mapped layout.params features setupFlags os) {p : ParsedCq}
    (hcqes : p.cqes = rings.cqRingPtr + layout.params.cqOff.cqes.toNat) {idx : UInt32}
    (hlt : idx.toNat < layout.params.cqEntries.toNat) :
    (p.cqeSlot idx).Inside rings.cqRange := by
  rw [ParsedCq.cqeSlot, hcqes, Nat.add_assoc]
  exact inside_cq hm (by simp only [sizeofIoUringCqe]; omega)

/-- A position under a mask of one less than the number of entries is one of the entries. -/
theorem masked_lt {entries mask : UInt32} (hpos : 0 < entries.toNat) (hmask : mask = entries - 1)
    (pos : UInt32) : (pos &&& mask).toNat < entries.toNat := by
  have hle : (pos &&& mask).toNat ≤ mask.toNat := by
    rw [UInt32.toNat_and]
    exact Nat.and_le_right
  have hone : mask.toNat = entries.toNat - 1 := by
    rw [hmask, UInt32.toNat_sub_of_le _ _ (by rw [UInt32.le_iff_toNat_le]; exact hpos)]
    rfl
  omega

end Regions

/-! ### The parse of mapped rings -/

/-- `parse_sq` and then `parse_cq` stay in the regions of `rings`, which are mapped in `os`;
`sq` and `cq` are what they return and the memory that they leave. -/
structure ParsesInBounds [Native] (layout : RingLayout) (setupFlags : UInt32)
    (rings : MappedRings) (os : Os) (debug : Bool) (bytes : Nat → UInt8)
    (sq : Option ParsedSq × Memory) (cq : Option ParsedCq × Memory) : Prop where
  mapped : ∀ r ∈ [rings.sqRange, rings.cqRange, rings.sqesRange],
    .mapping ⟨r.start, r.len⟩ ∈ os.ledger.live
  sqAccesses : ∀ r ∈ sq.2.reads ++ sq.2.writes, r.Inside rings.sqRange
  cqAccesses : ∀ r ∈ cq.2.reads ++ cq.2.writes, r.Inside rings.cqRange
  /-- The fill writes the words of the array, each its own index, and nothing else. -/
  filled : sq.1.isSome = true → hasSqArray setupFlags = true →
    sq.2.writes = arrayWords layout rings.sqRingPtr ∧
      ∀ i < layout.params.sqEntries.toNat,
        Bytes.load cq.2.bytes (rings.sqRingPtr + layout.params.sqOff.array.toNat + 4 * i) 4 =
          u32Bytes (UInt32.ofNat i)
  unfilled : hasSqArray setupFlags = false → sq.2.writes = []
  headers : ∀ off ∈ layout.scalars, ∀ base ∈ [rings.sqRingPtr, rings.cqRingPtr],
    Bytes.load cq.2.bytes (base + off.toNat) 4 = Bytes.load bytes (base + off.toNat) 4
  cqes : ∀ i < layout.params.cqEntries.toNat,
    let addr := rings.cqRingPtr + layout.params.cqOff.cqes.toNat + sizeofIoUringCqe * i
    Bytes.load cq.2.bytes addr sizeofIoUringCqe = Bytes.load bytes addr sizeofIoUringCqe
  /-- The words that the pointers of the handles name. -/
  sqPointers : ∀ p, sq.1 = some p → ∀ addr ∈ [p.sqHead, p.sqTail, p.sqFlags],
    Range.Inside ⟨addr, 4⟩ rings.sqRange
  cqPointers : ∀ p, cq.1 = some p → ∀ addr ∈ [p.cqHead, p.cqTail],
    Range.Inside ⟨addr, 4⟩ rings.cqRange
  /-- Every slot that a call ever indexes, in any sequence of calls. -/
  slots : ∀ p q, sq.1 = some p → cq.1 = some q → ∀ r : IoUring, r.sqMask = p.sqMask →
    r.cqMask = q.cqMask → ∀ cs : List Call,
      (Handles.calls cs (.whole r)).Safe (SlotInside rings p q) fun _ => True
  /-- Only a failed assertion keeps them from returning. -/
  returns : (debug = false ∨ SqAligned layout rings.sqRingPtr (hasSqArray setupFlags)) →
    sq.1.isSome = true
  returnsCq : (debug = false ∨ ((rings.cqRingPtr + layout.cq.head.toNat) % 4 = 0 ∧
    (rings.cqRingPtr + layout.cq.tail.toNat) % 4 = 0 ∧
    (rings.cqRingPtr + layout.params.cqOff.cqes.toNat) % 8 = 0)) → cq.1.isSome = true

section InBounds

variable [Native] {layout : RingLayout} {features setupFlags : UInt32} {rings : MappedRings}
  {os : Os} {bytes : Nat → UInt8}

/-- What the fill leaves alone. -/
theorem parseSq_outside (debug : Bool) (m : Memory) {off len : Nat}
    (hc : layout.Consistent features setupFlags)
    (hm : rings.Mapped layout.params features setupFlags os)
    (hin : off + len ≤ layout.params.cqOff.cqes.toNat + 16 * layout.params.cqEntries.toNat)
    (hoff : (hasSqArray setupFlags = true → off + len ≤ layout.params.sqOff.array.toNat) ∨
      layout.params.cqOff.cqes.toNat ≤ off) :
    let out := RingLayout.parseSq debug rings.sqRingPtr rings.sqesPtr layout
      (hasSqArray setupFlags) m
    Bytes.load out.2.bytes (rings.cqRingPtr + off) len =
      Bytes.load m.bytes (rings.cqRingPtr + off) len :=
  (parseSq_spec debug rings.sqRingPtr rings.sqesPtr layout (hasSqArray setupFlags) m).outside _ _
    fun harray => apart_of_array hc hm harray hin (hoff.imp_left fun h => h harray)

/-- The header words, through either base. -/
theorem parseSq_header {debug : Bool} {m : Memory} {off : UInt32} {base : Nat}
    (hc : layout.Consistent features setupFlags)
    (hm : rings.Mapped layout.params features setupFlags os) (hoff : off ∈ layout.scalars)
    (hbase : base = rings.sqRingPtr ∨ base = rings.cqRingPtr) :
    let out := RingLayout.parseSq debug rings.sqRingPtr rings.sqesPtr layout
      (hasSqArray setupFlags) m
    Bytes.load out.2.bytes (base + off.toNat) 4 = Bytes.load m.bytes (base + off.toNat) 4 := by
  rcases hbase with rfl | rfl
  · refine (parseSq_spec debug _ rings.sqesPtr layout (hasSqArray setupFlags) m).outside _ _
      fun harray => Or.inl ?_
    have hbefore := hc.beforeArray harray off hoff
    omega
  · have hbefore := hc.beforeCqes off hoff
    exact parseSq_outside debug m hc hm (by omega)
      (Or.inl fun harray => hc.beforeArray harray off hoff)

theorem MappedRings.Mapped.parses {debug : Bool} (hc : layout.Consistent features setupFlags)
    (hm : rings.Mapped layout.params features setupFlags os)
    (hsqMask : u32Value (Bytes.load bytes (rings.sqRingPtr + layout.sq.ringMask.toNat) 4) =
      layout.params.sqEntries - 1)
    (hcqMask : u32Value (Bytes.load bytes (rings.cqRingPtr + layout.cq.ringMask.toNat) 4) =
      layout.params.cqEntries - 1) :
    let sq := RingLayout.parseSq debug rings.sqRingPtr rings.sqesPtr layout
      (hasSqArray setupFlags) (Memory.of bytes)
    ParsesInBounds layout setupFlags rings os debug bytes sq
      (RingLayout.parseCq debug rings.cqRingPtr layout (Memory.of sq.2.bytes)) := by
  intro sq
  have hsq : SqParsed layout debug rings.sqRingPtr rings.sqesPtr (hasSqArray setupFlags)
      (Memory.of bytes) sq := parseSq_spec _ _ _ _ _ _
  have hcq := parseCq_spec debug rings.cqRingPtr layout (Memory.of sq.2.bytes)
  generalize RingLayout.parseCq debug rings.cqRingPtr layout (Memory.of sq.2.bytes) = cq at hcq ⊢
  have hscalar : ∀ {off : UInt32}, off ∈ layout.scalars →
      Range.Inside ⟨rings.sqRingPtr + off.toNat, 4⟩ rings.sqRange :=
    header_inside_sq hc hm
  have hscalarCq : ∀ {off : UInt32}, off ∈ layout.scalars →
      Range.Inside ⟨rings.cqRingPtr + off.toNat, 4⟩ rings.cqRange :=
    header_inside_cq hc hm
  constructor
  case mapped =>
    intro r hr
    simp only [List.mem_cons, List.not_mem_nil, or_false] at hr
    rcases hr with rfl | rfl | rfl
    · exact hm.sqLive
    · exact cqRange_live hm
    · exact hm.sqesLive
  case sqAccesses =>
    intro r hr
    cases List.mem_append.mp hr with
    | inl hread =>
        rcases hsq.reads r hread with h | rfl | rfl
        · cases h
        · exact hscalar (by simp [RingLayout.scalars])
        · exact hscalar (by simp [RingLayout.scalars])
    | inr hwrite =>
        rcases hsq.writes with h | ⟨harray, h⟩
        · rw [h] at hwrite
          cases hwrite
        · rw [h] at hwrite
          exact arrayWords_inside hm harray hwrite
  case cqAccesses =>
    intro r hr
    obtain ⟨rs, hreads, hrs⟩ := hcq.reads
    rw [hcq.writes, hreads] at hr
    have hr : r ∈ rs := by simpa [Memory.of] using hr
    rcases hrs r hr with rfl | rfl <;> exact hscalarCq (by simp [RingLayout.scalars])
  case filled =>
    intro hsome harray
    obtain ⟨hwrites, hwords⟩ := hsq.filled hsome harray
    refine ⟨hwrites, fun i hi => ?_⟩
    rw [hcq.bytes]
    exact hwords i hi
  case unfilled => exact hsq.unfilled
  case headers =>
    intro off hoff base hbase
    rw [hcq.bytes]
    exact parseSq_header hc hm hoff (by simpa using hbase)
  case cqes =>
    intro i hi addr
    rw [hcq.bytes]
    have hslot : layout.params.cqOff.cqes.toNat + 16 * i + 16 ≤
        layout.params.cqOff.cqes.toNat + 16 * layout.params.cqEntries.toNat := by omega
    have hkept := parseSq_outside debug (Memory.of bytes) hc hm hslot
      (Or.inr (Nat.le_add_right _ _))
    rw [← Nat.add_assoc] at hkept
    exact hkept
  case sqPointers =>
    intro p hp addr haddr
    obtain ⟨h1, h2, h3, -, -⟩ := hsq.parsed p hp
    rw [h1, h2, h3] at haddr
    simp only [List.mem_cons, List.not_mem_nil, or_false] at haddr
    rcases haddr with rfl | rfl | rfl <;> exact hscalar (by simp [RingLayout.scalars])
  case cqPointers =>
    intro p hp addr haddr
    obtain ⟨h1, h2, -, -⟩ := hcq.parsed p hp
    rw [h1, h2] at haddr
    simp only [List.mem_cons, List.not_mem_nil, or_false] at haddr
    rcases haddr with rfl | rfl <;> exact hscalarCq (by simp [RingLayout.scalars])
  case slots =>
    intro p q hp hq r hsqr hcqr cs
    obtain ⟨-, -, -, hsqes, hpmask⟩ := hsq.parsed p hp
    obtain ⟨-, -, hcqes, hqmask⟩ := hcq.parsed q hq
    -- The fill has not touched the mask that `parse_cq` reads.
    have hqmask : q.cqMask = layout.params.cqEntries - 1 := by
      refine hqmask.trans (Eq.trans (congrArg u32Value ?_) hcqMask)
      have hoff : layout.cq.ringMask ∈ layout.scalars := by simp [RingLayout.scalars]
      exact parseSq_header hc hm hoff (Or.inr rfl)
    have hmasked : (Handles.whole r).Masked p.sqMask q.cqMask := ⟨hsqr, hcqr⟩
    refine (Handles.calls_masked cs hmasked).mono (fun o ho => ?_) fun _ _ => trivial
    cases o with
    | writeSqe idx sqe =>
        obtain ⟨pos, rfl⟩ := ho
        obtain ⟨k, hk⟩ := hc.sqPow
        have hlt := masked_lt (by rw [hk]; exact Nat.two_pow_pos k) (hpmask.trans hsqMask) pos
        exact sqeSlot_inside hm hsqes hlt
    | readCqe idx =>
        obtain ⟨pos, rfl⟩ := ho
        obtain ⟨k, hk⟩ := hc.cqPow
        have hlt := masked_lt (by rw [hk]; exact Nat.two_pow_pos k) hqmask pos
        exact cqeSlot_inside hm hcqes hlt
    | _ => trivial
  case returns => exact hsq.returns
  case returnsCq => exact hcq.returns

end InBounds

/-- Whatever a successful `map_rings` mapped for offsets that fit together holds all that is
parsed and all that is indexed later. -/
theorem parse_inBounds [Native] (layout : RingLayout) (features setupFlags : UInt32) (fd : RawFd)
    (guard guard' : SetupGuard) (rings : MappedRings) (rs : List OsRound) (os os' : Os)
    (debug : Bool) (bytes : Nat → UInt8) (hc : layout.Consistent features setupFlags)
    (hrun : (mapRings fd layout.params features setupFlags guard).run osMachine rs os =
      some ((.ok rings, guard'), os'))
    (hsqMask : u32Value (Bytes.load bytes (rings.sqRingPtr + layout.sq.ringMask.toNat) 4) =
      layout.params.sqEntries - 1)
    (hcqMask : u32Value (Bytes.load bytes (rings.cqRingPtr + layout.cq.ringMask.toNat) 4) =
      layout.params.cqEntries - 1) :
    ∃ sq cq, RingLayout.parseSq debug rings.sqRingPtr rings.sqesPtr layout
        (hasSqArray setupFlags) (Memory.of bytes) = sq ∧
      RingLayout.parseCq debug rings.cqRingPtr layout (Memory.of sq.2.bytes) = cq ∧
      ParsesInBounds layout setupFlags rings os' debug bytes sq cq := by
  have hm : rings.Mapped layout.params features setupFlags os' :=
    mapRings_mapped rs os _ os' trivial hrun rings rfl
  exact ⟨_, _, rfl, rfl, MappedRings.Mapped.parses hc hm hsqMask hcqMask⟩

/-- Four submission and eight completion entries in one mapping. -/
def fourLayout : RingLayout where
  params :=
    { plainParams with
      sqEntries := 4
      cqEntries := 8
      sqOff := ⟨192, 0⟩
      cqOff := ⟨64, 0⟩ }
  sq := ⟨0, 4, 16, 24, 36, 32⟩
  cq := ⟨8, 12, 20, 28, 44, 40⟩

/-- The two masks, in a mapping at 4096. -/
def fourBytes (addr : Nat) : UInt8 := if addr = 4112 then 3 else if addr = 4116 then 7 else 0

/-- Nothing is mapped yet, and the ring's descriptor is open. -/
def fourOs : Os := { emptyOs with ledger := ⟨[.file ⟨3⟩], [.file ⟨3⟩], [], []⟩ }

theorem parse_inBounds_four :
    ∃ os', ∃ sq : Option ParsedSq × Memory, ∃ cq : Option ParsedCq × Memory,
      sq.1.map (·.sqMask) = some 3 ∧
      @ParsesInBounds ⟨.little⟩ fourLayout 0 ⟨4096, 208, 4096, ⟨0, 0⟩, 8192, 256⟩ os' true
        fourBytes sq cq := by
  let little : Native := ⟨.little⟩
  have hc : fourLayout.Consistent SINGLE_MMAP 0 :=
    ⟨by simp [fourLayout, RingLayout.scalars], by simp [fourLayout, RingLayout.scalars],
      by simp [fourLayout, RingLayout.scalars], by decide, by decide, ⟨2, rfl⟩, ⟨3, rfl⟩⟩
  have hrun : ∃ os', (mapRings ⟨3⟩ fourLayout.params SINGLE_MMAP 0 (SetupGuard.new ⟨3⟩)).run
      osMachine (answers [.mapped 4096, .mapped 8192]) fourOs =
        some ((.ok ⟨4096, 208, 4096, ⟨0, 0⟩, 8192, 256⟩, ⟨⟨3⟩, ⟨4096, 208⟩, ⟨0, 0⟩, ⟨8192, 256⟩⟩),
          os') := ⟨_, rfl⟩
  obtain ⟨os', hrun⟩ := hrun
  obtain ⟨sq, cq, hsq, hcq, h⟩ := parse_inBounds fourLayout SINGLE_MMAP 0 ⟨3⟩ _ _ _ _ fourOs os'
    true fourBytes hc hrun (by decide) (by decide)
  exact ⟨os', sq, cq, by rw [← hsq]; decide, h⟩

end Ququmatz
