import Ququmatz.Proofs.Ring.Bytes
import Ququmatz.Proofs.Ring.Counts
import Ququmatz.Proofs.Ring.Fifo
import Ququmatz.Proofs.Ring.Layout

/-!
# `Ququmatz.Proofs.Ring.Mapped`: the rings that `map_rings` maps

The offsets that the kernel reports place the cells of a ring in the mappings, and no two cells
share a byte (`RingLayout.map`): the words of the headers lie in front of the two arrays, the two
arrays are apart, and the SQEs have a mapping of their own (`mapRings_sqesApart`). With that the
memory that `parse_sq` and `parse_cq` leave shows a ring in its first state, and the ring in memory
has the runs of `Sys`.
-/

set_option autoImplicit false

namespace Ququmatz

open Lib

/-! ### What the kernel guarantees -/

/-- The ring has as many entries as the kernel has made room for. -/
structure RingLayout.Sized (layout : RingLayout) (params : RingParams) : Prop where
  sq : layout.params.sqEntries = params.sq.val
  cq : layout.params.cqEntries = params.cq.val

/-- The words that the handles share with the kernel are different words. -/
structure RingLayout.Distinct (layout : RingLayout) (features : UInt32) : Prop where
  sq : [layout.sq.head, layout.sq.tail, layout.sq.flags].Nodup
  cq : layout.cq.head ≠ layout.cq.tail
  /-- In one mapping those of the two queues, too. -/
  single : isSingleMmap features = true →
    ∀ x ∈ [layout.sq.head, layout.sq.tail, layout.sq.flags],
      ∀ y ∈ [layout.cq.head, layout.cq.tail], x ≠ y

/-- The pointers that the offsets give. -/
def RingLayout.pointers (layout : RingLayout) (rings : MappedRings) : RingPointers where
  sqHead := rings.sqRingPtr + layout.sq.head.toNat
  sqTail := rings.sqRingPtr + layout.sq.tail.toNat
  sqFlags := rings.sqRingPtr + layout.sq.flags.toNat
  sqArray := rings.sqRingPtr + layout.params.sqOff.array.toNat
  sqes := rings.sqesPtr
  cqHead := rings.cqRingPtr + layout.cq.head.toNat
  cqTail := rings.cqRingPtr + layout.cq.tail.toNat
  cqes := rings.cqRingPtr + layout.params.cqOff.cqes.toNat

/-! ### The mapping of the SQEs -/

/-- The SQEs are in neither of the mappings of the rings. -/
def MappedRings.SqesApart (rings : MappedRings) : Prop :=
  rings.sqesRange.Disjoint rings.sqRange ∧ rings.sqesRange.Disjoint rings.cqRange

theorem mapRings_sqesApart {fd : RawFd} {params : IoUringParams} {features setupFlags : UInt32}
    {guard : SetupGuard} :
    Spec osMachine (fun _ => True) (mapRings fd params features setupFlags guard) fun res _ =>
      ∀ rings, res.1 = .ok rings → rings.SqesApart := by
  have hnone : Spec osMachine (fun os => ∀ m ∈ ([] : List MappedRegion),
      .mapping m ∈ os.ledger.live) (mapRings fd params features setupFlags guard) fun res _ =>
        ∀ rings, res.1 = .ok rings → rings.SqesApart := by
    unfold mapRings
    refine Spec.mmapApart (fun e => Spec.ret fun os _ rings h => by cases h) fun sqPtr hsq _ => ?_
    by_cases hsingle : isSingleMmap features = true
    · simp only [hsingle, if_true]
      unfold mapSqes
      refine Spec.mmapApart (fun e => Spec.ret fun os _ rings h => by cases h)
        fun sqesPtr hsqes hapart => Spec.ret fun os hos rings h => ?_
      cases h
      have h1 := hapart _ List.mem_cons_self
      exact ⟨Or.inr (Or.inr h1.symm), Or.inr (Or.inr h1.symm)⟩
    · simp only [hsingle]
      refine Spec.mmapApart (fun e => Spec.ret fun os _ rings h => by cases h)
        fun cqPtr hcq _ => ?_
      unfold mapSqes
      refine Spec.mmapApart (fun e => Spec.ret fun os _ rings h => by cases h)
        fun sqesPtr hsqes hapart => Spec.ret fun os hos rings h => ?_
      cases h
      have h1 := hapart _ (List.mem_cons_of_mem _ List.mem_cons_self)
      have h2 := hapart _ List.mem_cons_self
      refine ⟨Or.inr (Or.inr h1.symm), ?_⟩
      rw [MappedRings.cqRange, if_neg (Nat.ne_of_gt hcq)]
      exact Or.inr (Or.inr h2.symm)
  exact Spec.conseq hnone (fun _ _ m hm => by cases hm) fun _ _ h => h

/-! ### The places of the cells -/

/-- Where a cell lies behind the start of its mapping. -/
def RingLayout.offset (layout : RingLayout) : RingCell → Nat
  | .sqHead => layout.sq.head.toNat
  | .sqTail => layout.sq.tail.toNat
  | .sqFlags => layout.sq.flags.toNat
  | .sqArray i => layout.params.sqOff.array.toNat + 4 * i
  | .sqe i => sizeofIoUringSqe * i
  | .cqHead => layout.cq.head.toNat
  | .cqTail => layout.cq.tail.toNat
  | .cqe i => layout.params.cqOff.cqes.toNat + sizeofIoUringCqe * i

namespace RingCell

/-- The three kinds of mapping. -/
inductive Side
  | sq
  | cq
  | sqes
deriving DecidableEq

def side : RingCell → Side
  | .sqe _ => .sqes
  | .cqHead => .cq
  | .cqTail => .cq
  | .cqe _ => .cq
  | _ => .sq

/-- The word of the headers that the cell is. -/
def word (layout : RingLayout) : RingCell → Option UInt32
  | .sqHead => some layout.sq.head
  | .sqTail => some layout.sq.tail
  | .sqFlags => some layout.sq.flags
  | .cqHead => some layout.cq.head
  | .cqTail => some layout.cq.tail
  | _ => none

end RingCell

namespace MappedRings

def base (rings : MappedRings) : RingCell.Side → Nat
  | .sq => rings.sqRingPtr
  | .cq => rings.cqRingPtr
  | .sqes => rings.sqesPtr

def region (rings : MappedRings) : RingCell.Side → Range
  | .sq => rings.sqRange
  | .cq => rings.cqRange
  | .sqes => rings.sqesRange

end MappedRings

section Places

variable {layout : RingLayout} {params : RingParams} {rings : MappedRings} {os : Os}

theorem addr_eq (c : RingCell) :
    (layout.pointers rings).addr c = rings.base c.side + layout.offset c := by
  cases c with
  | sqArray i => exact Nat.add_assoc _ _ _
  | cqe i => exact Nat.add_assoc _ _ _
  | _ => rfl

theorem word_offset {c : RingCell} {x : UInt32} (h : c.word layout = some x) :
    x ∈ layout.scalars ∧ layout.offset c = x.toNat ∧ c.size = 4 := by
  cases c <;> cases h <;> exact ⟨by simp [RingLayout.scalars], rfl, rfl⟩

theorem side_of_word {c : RingCell} {x : UInt32} (h : c.word layout = some x) :
    c.side ≠ .sqes := by
  cases c <;> cases h <;> simp [RingCell.side]

theorem words_distinct {features : UInt32} (hd : layout.Distinct features) {c d : RingCell}
    {x y : UInt32} (hc : c.word layout = some x) (hcd : d.word layout = some y) (hne : c ≠ d)
    (hside : c.side = d.side ∨ isSingleMmap features = true) : x ≠ y := by
  obtain ⟨hsq, hcq, hsingle⟩ := hd
  simp only [List.nodup_cons, List.mem_cons, List.not_mem_nil, or_false, not_or,
    forall_eq_or_imp, forall_eq] at hsq hsingle
  cases c <;> cases hc <;> cases d <;> cases hcd <;> grind [RingCell.side]

theorem hasSqArray_of {i : Nat} (h : params.Has (.sqArray i)) :
    hasSqArray params.flags.bits = true := by
  have := h.1
  simp [hasSqArray, this]

/-- A cell lies in its mapping. -/
theorem cell_inside (hc : layout.Consistent params.features params.flags.bits)
    (hm : rings.Mapped layout.params params.features params.flags.bits os)
    (hs : layout.Sized params) {c : RingCell} (hhas : params.Has c) :
    Range.Inside ⟨(layout.pointers rings).addr c, c.size⟩ (rings.region c.side) := by
  cases c with
  | sqHead => exact header_inside_sq hc hm (by simp [RingLayout.scalars])
  | sqTail => exact header_inside_sq hc hm (by simp [RingLayout.scalars])
  | sqFlags => exact header_inside_sq hc hm (by simp [RingLayout.scalars])
  | sqArray i =>
      have hlt : i < layout.params.sqEntries.toNat := by
        rw [hs.sq]
        exact hhas.2
      have hmem : ⟨rings.sqRingPtr + layout.params.sqOff.array.toNat + 4 * i, 4⟩
          ∈ arrayWords layout rings.sqRingPtr :=
        List.mem_map.mpr ⟨i, List.mem_range.mpr hlt, rfl⟩
      exact arrayWords_inside hm (hasSqArray_of hhas) hmem
  | sqe i =>
      have hlt : i < layout.params.sqEntries.toNat := by
        rw [hs.sq]
        exact hhas
      have hsz : rings.sqesSz = 0 + layout.params.sqEntries.toNat * 64 := hm.sqesSz
      refine Or.inr ⟨Nat.le_add_right _ _, ?_⟩
      show rings.sqesPtr + 64 * i + 64 ≤ rings.sqesPtr + rings.sqesSz
      omega
  | cqHead => exact header_inside_cq hc hm (by simp [RingLayout.scalars])
  | cqTail => exact header_inside_cq hc hm (by simp [RingLayout.scalars])
  | cqe i =>
      have hlt : i < layout.params.cqEntries.toNat := by
        rw [hs.cq]
        exact hhas
      show Range.Inside ⟨rings.cqRingPtr + layout.params.cqOff.cqes.toNat + 16 * i, 16⟩
        rings.cqRange
      rw [Nat.add_assoc]
      exact inside_cq hm (by omega)

/-- Two cells behind the same start share no byte. -/
theorem offsets_apart (hc : layout.Consistent params.features params.flags.bits)
    (hd : layout.Distinct params.features) (hs : layout.Sized params) {c d : RingCell}
    (hcc : params.Has c) (hdd : params.Has d) (hne : c ≠ d)
    (hside : c.side = d.side ∨
      (isSingleMmap params.features = true ∧ c.side ≠ .sqes ∧ d.side ≠ .sqes)) :
    layout.offset c + c.size ≤ layout.offset d ∨ layout.offset d + d.size ≤ layout.offset c := by
  -- a word of the headers, and what lies behind them
  have hword {c d : RingCell} {x : UInt32} (hx : c.word layout = some x) (hdd : params.Has d)
      (hd : d.word layout = none) (hds : d.side ≠ .sqes) :
      layout.offset c + c.size ≤ layout.offset d := by
    obtain ⟨hmem, hoff, hsize⟩ := word_offset hx
    rw [hoff, hsize]
    cases d with
    | sqArray i =>
        have := hc.beforeArray (hasSqArray_of hdd) x hmem
        exact Nat.le_trans this (Nat.le_add_right _ _)
    | cqe i => exact Nat.le_trans (hc.beforeCqes x hmem) (Nat.le_add_right _ _)
    | sqe i => exact (hds rfl).elim
    | _ => cases hd
  -- the two arrays
  have harrays {i j : Nat} (hi : params.Has (.sqArray i)) (hj : params.Has (.cqe j))
      (hsingle : isSingleMmap params.features = true) :
      layout.offset (.sqArray i) + 4 ≤ layout.offset (.cqe j) ∨
        layout.offset (.cqe j) + 16 ≤ layout.offset (.sqArray i) := by
    have hi' : i < layout.params.sqEntries.toNat := by
      rw [hs.sq]
      exact hi.2
    have hj' : j < layout.params.cqEntries.toNat := by
      rw [hs.cq]
      exact hj
    simp only [RingLayout.offset, sizeofIoUringCqe]
    have := hc.disjoint (hasSqArray_of hi) hsingle
    omega
  cases hx : c.word layout with
  | some x =>
      have hcs := side_of_word hx
      cases hy : d.word layout with
      | some y =>
          have hxy := words_distinct hd hx hy hne (hside.imp_right fun h => h.1)
          obtain ⟨hxmem, hxoff, hxsize⟩ := word_offset hx
          obtain ⟨hymem, hyoff, hysize⟩ := word_offset hy
          have hxa := hc.aligned x hxmem
          have hya := hc.aligned y hymem
          have hnat : x.toNat ≠ y.toNat := fun h => hxy (UInt32.toNat_inj.mp h)
          omega
      | none =>
          have hds : d.side ≠ .sqes := by
            rcases hside with h | h
            · rwa [← h]
            · exact h.2.2
          exact Or.inl (hword hx hdd hy hds)
  | none =>
      cases hy : d.word layout with
      | some y =>
          have hds := side_of_word hy
          have hcs : c.side ≠ .sqes := by
            rcases hside with h | h
            · rwa [h]
            · exact h.2.1
          exact Or.inr (hword hy hcc hx hcs)
      | none =>
          -- slots of the arrays, of the same one or of two in one mapping
          cases c with
          | sqArray i =>
              cases d with
              | sqArray j =>
                  have hij : i ≠ j := fun h => hne (h ▸ rfl)
                  simp only [RingLayout.offset, RingCell.size]
                  omega
              | cqe j => exact harrays hcc hdd (by simpa [RingCell.side] using hside)
              | sqe j => simp [RingCell.side] at hside
              | _ => cases hy
          | cqe i =>
              cases d with
              | sqArray j =>
                  exact (harrays hdd hcc (by simpa [RingCell.side] using hside)).symm
              | cqe j =>
                  have hij : i ≠ j := fun h => hne (h ▸ rfl)
                  simp only [RingLayout.offset, RingCell.size, sizeofIoUringCqe]
                  omega
              | sqe j => simp [RingCell.side] at hside
              | _ => cases hy
          | sqe i =>
              cases d with
              | sqe j =>
                  have hij : i ≠ j := fun h => hne (h ▸ rfl)
                  simp only [RingLayout.offset, RingCell.size, sizeofIoUringSqe]
                  omega
              | _ => simp [RingCell.side] at hside
          | _ => cases hx

/-- Two mappings share no byte. -/
theorem regions_apart {features setupFlags : UInt32}
    (hm : rings.Mapped layout.params features setupFlags os) (hsqes : rings.SqesApart)
    {s t : RingCell.Side} (hne : s ≠ t)
    (hnot : ¬ (isSingleMmap features = true ∧ s ≠ .sqes ∧ t ≠ .sqes)) :
    (rings.region s).Disjoint (rings.region t) := by
  have hqueues (hsingle : isSingleMmap features ≠ true) :
      rings.sqRange.Disjoint rings.cqRange := by
    rcases hm.cqRing with ⟨h, -⟩ | ⟨-, hpos, hregion, -, hapart⟩
    · exact (hsingle h).elim
    · rw [MappedRings.cqRange, hregion, if_neg (Nat.ne_of_gt hpos)]
      exact Or.inr (Or.inr hapart)
  cases s with
  | sq =>
      cases t with
      | sq => exact (hne rfl).elim
      | cq => exact hqueues fun h => hnot ⟨h, by decide, by decide⟩
      | sqes => exact hsqes.1.symm
  | cq =>
      cases t with
      | sq => exact (hqueues fun h => hnot ⟨h, by decide, by decide⟩).symm
      | cq => exact (hne rfl).elim
      | sqes => exact hsqes.2.symm
  | sqes =>
      cases t with
      | sq => exact hsqes.1
      | cq => exact hsqes.2
      | sqes => exact (hne rfl).elim

/-- No two cells of the ring share a byte. -/
theorem cells_apart (hc : layout.Consistent params.features params.flags.bits)
    (hd : layout.Distinct params.features)
    (hm : rings.Mapped layout.params params.features params.flags.bits os)
    (hsqes : rings.SqesApart) (hs : layout.Sized params) (c d : RingCell) (hcc : params.Has c)
    (hdd : params.Has d) (hne : c ≠ d) :
    Range.Disjoint ⟨(layout.pointers rings).addr c, c.size⟩
      ⟨(layout.pointers rings).addr d, d.size⟩ := by
  -- behind one start
  have hbase (hside : c.side = d.side ∨
      (isSingleMmap params.features = true ∧ c.side ≠ .sqes ∧ d.side ≠ .sqes))
      (heq : rings.base c.side = rings.base d.side) :
      Range.Disjoint ⟨(layout.pointers rings).addr c, c.size⟩
        ⟨(layout.pointers rings).addr d, d.size⟩ := by
    have hoff := offsets_apart hc hd hs hcc hdd hne hside
    refine Or.inr (Or.inr ?_)
    simp only [addr_eq, heq]
    omega
  by_cases hside : c.side = d.side
  · exact hbase (Or.inl hside) (congrArg rings.base hside)
  · by_cases hshared : isSingleMmap params.features = true ∧ c.side ≠ .sqes ∧ d.side ≠ .sqes
    · refine hbase (Or.inr hshared) ?_
      rcases hm.cqRing with ⟨-, hptr, -⟩ | ⟨hsingle, -⟩
      · revert hshared hside
        cases c.side <;> cases d.side <;> simp [MappedRings.base, hptr]
      · rw [hshared.1] at hsingle
        cases hsingle
    · -- in two mappings that are apart
      exact (regions_apart hm hsqes hside hshared).inside (cell_inside hc hm hs hcc)
        (cell_inside hc hm hs hdd)

end Places

/-! ### The first state -/

section Start

variable [Native]

/-- The word at an address. -/
def wordAt (bytes : Nat → UInt8) (addr : Nat) : UInt32 := u32Value (Bytes.load bytes addr 4)

/-- The mapped rings as `io_uring_setup` leaves them: the masks, and two empty queues. -/
structure RingLayout.Fresh (layout : RingLayout) (rings : MappedRings) (bytes : Nat → UInt8) :
    Prop where
  sqMask : wordAt bytes (rings.sqRingPtr + layout.sq.ringMask.toNat) = layout.params.sqEntries - 1
  cqMask : wordAt bytes (rings.cqRingPtr + layout.cq.ringMask.toNat) = layout.params.cqEntries - 1
  sqEmpty : wordAt bytes (rings.sqRingPtr + layout.sq.head.toNat) =
    wordAt bytes (rings.sqRingPtr + layout.sq.tail.toNat)
  sqFlags : wordAt bytes (rings.sqRingPtr + layout.sq.flags.toNat) = 0
  cqEmpty : wordAt bytes (rings.cqRingPtr + layout.cq.head.toNat) =
    wordAt bytes (rings.cqRingPtr + layout.cq.tail.toNat)

/-- `map_rings`, `parse_sq` and `parse_cq` have succeeded on what `io_uring_setup` left, and
`bytes` is the memory after them. -/
structure SetUp (params : RingParams) (layout : RingLayout) (rings : MappedRings) (sq : ParsedSq)
    (cq : ParsedCq) (bytes : Nat → UInt8) : Prop where
  sized : layout.Sized params
  consistent : layout.Consistent params.features params.flags.bits
  distinct : layout.Distinct params.features
  mapped : ∃ fd guard guard' rs os os',
    (mapRings fd layout.params params.features params.flags.bits guard).run osMachine rs os =
      some ((.ok rings, guard'), os')
  parsed : ∃ debug left m m', layout.Fresh rings left ∧
    RingLayout.parseSq debug rings.sqRingPtr rings.sqesPtr layout (hasSqArray params.flags.bits)
      (Memory.of left) = (some sq, m) ∧
    RingLayout.parseCq debug rings.cqRingPtr layout (Memory.of m.bytes) = (some cq, m') ∧
    m'.bytes = bytes

theorem parseSq_tail {debug : Bool} {sqRingPtr sqesPtr : Nat} {layout : RingLayout}
    {hasSqArray : Bool} {m m' : Memory} {sq : ParsedSq}
    (h : RingLayout.parseSq debug sqRingPtr sqesPtr layout hasSqArray m = (some sq, m')) :
    sq.sqTailLocal = wordAt m'.bytes (sqRingPtr + layout.sq.tail.toNat) := by
  unfold RingLayout.parseSq RingLayout.finishSq at h
  dsimp only at h
  split at h
  · split at h
    · split at h
      · cases h
        rfl
      · cases h
    · cases h
      rfl
  · cases h

theorem parseCq_head {debug : Bool} {cqRingPtr : Nat} {layout : RingLayout} {m m' : Memory}
    {cq : ParsedCq} (h : RingLayout.parseCq debug cqRingPtr layout m = (some cq, m')) :
    cq.cqHeadLocal = wordAt m.bytes (cqRingPtr + layout.cq.head.toNat) := by
  unfold RingLayout.parseCq at h
  dsimp only at h
  split at h
  · cases h
    rfl
  · cases h

variable {params : RingParams} {layout : RingLayout} {rings : MappedRings} {sq : ParsedSq}
  {cq : ParsedCq} {bytes : Nat → UInt8}

/-- The pointers of the handles, and what they have read. -/
structure Parsed (params : RingParams) (layout : RingLayout) (rings : MappedRings) (sq : ParsedSq)
    (cq : ParsedCq) (bytes : Nat → UInt8) : Prop where
  pointers : layout.pointers rings =
    ⟨sq.sqHead, sq.sqTail, sq.sqFlags, rings.sqRingPtr + layout.params.sqOff.array.toNat, sq.sqes,
      cq.cqHead, cq.cqTail, cq.cqes⟩
  sqMask : sq.sqMask = params.sq.mask
  cqMask : cq.cqMask = params.cq.mask
  sqHead : wordAt bytes sq.sqHead = sq.sqTailLocal
  sqTail : wordAt bytes sq.sqTail = sq.sqTailLocal
  sqFlags : wordAt bytes sq.sqFlags = 0
  cqHead : wordAt bytes cq.cqHead = cq.cqHeadLocal
  cqTail : wordAt bytes cq.cqTail = cq.cqHeadLocal
  sqArray : hasSqArray params.flags.bits = true → ∀ i < params.sq.size,
    wordAt bytes (rings.sqRingPtr + layout.params.sqOff.array.toNat + 4 * i) = UInt32.ofNat i

theorem SetUp.parsed_eq (h : SetUp params layout rings sq cq bytes) :
    Parsed params layout rings sq cq bytes := by
  obtain ⟨fd, guard, guard', rs, os, os', hrun⟩ := h.mapped
  obtain ⟨debug, left, m, m', hfresh, hsq, hcq, rfl⟩ := h.parsed
  have hm : rings.Mapped layout.params params.features params.flags.bits os' :=
    mapRings_mapped rs os _ os' trivial hrun rings rfl
  have hbounds :
      let out := RingLayout.parseSq debug rings.sqRingPtr rings.sqesPtr layout
        (hasSqArray params.flags.bits) (Memory.of left)
      ParsesInBounds layout params.flags.bits rings os' debug left out
        (RingLayout.parseCq debug rings.cqRingPtr layout (Memory.of out.2.bytes)) :=
    hm.parses h.consistent hfresh.sqMask hfresh.cqMask
  have hsqp := parseSq_spec debug rings.sqRingPtr rings.sqesPtr layout
    (hasSqArray params.flags.bits) (Memory.of left)
  have hcqp := parseCq_spec debug rings.cqRingPtr layout (Memory.of m.bytes)
  rw [hsq] at hbounds hsqp
  dsimp only at hbounds
  rw [hcq] at hbounds hcqp
  obtain ⟨h1, h2, h3, h4, hsqMask⟩ := hsqp.parsed sq rfl
  obtain ⟨h5, h6, h7, hcqMask⟩ := hcqp.parsed cq rfl
  have hbytes : m'.bytes = m.bytes := hcqp.bytes
  -- a word of the headers is as it was left
  have hword (base : Nat) {off : UInt32} (hoff : off ∈ layout.scalars)
      (hbase : base ∈ [rings.sqRingPtr, rings.cqRingPtr]) :
      wordAt m'.bytes (base + off.toNat) = wordAt left (base + off.toNat) :=
    congrArg u32Value (hbounds.headers off hoff base hbase)
  have hsqw {off : UInt32} (hoff : off ∈ layout.scalars) :=
    hword rings.sqRingPtr hoff (by simp)
  have hcqw {off : UInt32} (hoff : off ∈ layout.scalars) :=
    hword rings.cqRingPtr hoff (by simp)
  have htail := parseSq_tail hsq
  have hhead : cq.cqHeadLocal = wordAt m.bytes (rings.cqRingPtr + layout.cq.head.toNat) :=
    parseCq_head (m := Memory.of m.bytes) hcq
  rw [← hbytes] at htail hhead
  constructor
  case pointers => rw [h1, h2, h3, h4, h5, h6, h7]; rfl
  case sqMask =>
    refine hsqMask.trans (Eq.trans hfresh.sqMask ?_)
    rw [h.sized.sq]
    rfl
  case cqMask =>
    have hkept : wordAt m'.bytes (rings.cqRingPtr + layout.cq.ringMask.toNat) = _ :=
      hcqw (by simp [RingLayout.scalars])
    rw [hbytes] at hkept
    refine hcqMask.trans (hkept.trans (Eq.trans hfresh.cqMask ?_))
    rw [h.sized.cq]
    rfl
  case sqHead =>
    rw [h1, htail, hsqw (by simp [RingLayout.scalars]), hsqw (by simp [RingLayout.scalars])]
    exact hfresh.sqEmpty
  case sqTail => rw [h2, htail]
  case sqFlags =>
    rw [h3, hsqw (by simp [RingLayout.scalars])]
    exact hfresh.sqFlags
  case cqHead => rw [h5, hhead]
  case cqTail =>
    rw [h6, hhead, hcqw (by simp [RingLayout.scalars]), hcqw (by simp [RingLayout.scalars])]
    exact hfresh.cqEmpty.symm
  case sqArray =>
    intro harray i hi
    rw [← show layout.params.sqEntries.toNat = params.sq.size from congrArg _ h.sized.sq] at hi
    unfold wordAt
    rw [(hbounds.filled rfl harray).2 i hi, u32Value_u32Bytes]

/-- The ring that the mappings hold. -/
theorem SetUp.map (h : SetUp params layout rings sq cq bytes) :
    ∃ m : RingMap, m.params = params ∧ m.pointers = layout.pointers rings := by
  obtain ⟨fd, guard, guard', rs, os, os', hrun⟩ := h.mapped
  have hm : rings.Mapped layout.params params.features params.flags.bits os' :=
    mapRings_mapped rs os _ os' trivial hrun rings rfl
  have hsqes : rings.SqesApart := mapRings_sqesApart rs os _ os' trivial hrun rings rfl
  exact ⟨⟨params, layout.pointers rings,
    cells_apart h.consistent h.distinct hm hsqes h.sized⟩, rfl, rfl⟩

theorem SetUp.inside (h : SetUp params layout rings sq cq bytes) {c : RingCell}
    (hc : params.Has c) :
    Range.Inside ⟨(layout.pointers rings).addr c, c.size⟩ (rings.region c.side) := by
  obtain ⟨fd, guard, guard', rs, os, os', hrun⟩ := h.mapped
  exact cell_inside h.consistent (mapRings_mapped rs os _ os' trivial hrun rings rfl) h.sized hc

/-- A ring in the state of its memory. -/
def Sys.ofBytes (m : RingMap) (bytes : Nat → UInt8) (resources : RingResources) (sq : ParsedSq)
    (cq : ParsedCq) : Sys :=
  Sys.init m.params resources sq.sqTailLocal cq.cqHeadLocal (fun _ => 0)
    (fun i => (RingCell.sqe i).layout.load bytes (m.pointers.addr (.sqe i)))
    (fun i => (RingCell.cqe i).layout.load bytes (m.pointers.addr (.cqe i)))

theorem SetUp.shows (h : SetUp params layout rings sq cq bytes) {m : RingMap}
    (hparams : m.params = params) (hpointers : m.pointers = layout.pointers rings)
    (resources : RingResources) :
    SysOn.Shows m bytes (SysOn.start m bytes resources sq cq)
      (Sys.ofBytes m bytes resources sq cq) := by
  have hp := h.parsed_eq
  subst hparams
  rw [hp.pointers] at hpointers
  have hstands {addr : Nat} {v : UInt32} (hv : wordAt bytes addr = v) :
      u32Layout.Stands bytes addr v := hv ▸ u32Layout_exact bytes addr
  obtain ⟨array, hworld, hid⟩ := parseSq_eq (World.fresh m.params { resources with refcount := 1 }
    sq.sqTailLocal cq.cqHeadLocal (fun _ => 0)
    (fun i => (RingCell.sqe i).layout.load bytes (m.pointers.addr (.sqe i)))
    (fun i => (RingCell.cqe i).layout.load bytes (m.pointers.addr (.cqe i))))
  unfold Sys.ofBytes Sys.init
  rw [hworld]
  refine ⟨⟨rfl, rfl, ?_, fun _ _ => rfl, rfl, rfl, rfl, rfl, rfl, rfl, hid⟩, ?_, rfl, rfl, rfl,
    ⟨rfl, rfl⟩⟩
  · intro c hc
    show c.layout.Stands bytes (m.pointers.addr c) _
    cases c with
    | sqHead => rw [hpointers]; exact hstands hp.sqHead
    | sqTail => rw [hpointers]; exact hstands hp.sqTail
    | sqFlags => rw [hpointers]; exact hstands hp.sqFlags
    | sqArray i =>
        rw [hpointers]
        refine hstands ((hp.sqArray (hasSqArray_of hc) i hc.2).trans (hid ?_ i hc.2).symm)
        exact hasSqArray_of hc
    | sqe i => exact Sqe.exact bytes _
    | cqHead => rw [hpointers]; exact hstands hp.cqHead
    | cqTail => rw [hpointers]; exact hstands hp.cqTail
    | cqe i => exact Cqe.exact bytes _
  · show Handles.whole (IoUring.ofParsed m.params resources.fd sq cq) = .whole _
    unfold IoUring.ofParsed IoUring.fromParsed
    rw [hp.sqMask, hp.cqMask]
    rfl

end Start

/-! ### The ring in memory -/

section InMemory

variable [Native]

namespace ByteWorld

variable {m : RingMap} {first : Nat → UInt8} {b : ByteWorld} {w : World} {i : Nat}

theorem Shows.load_sqe (h : Shows m first b w) (hi : i < m.params.sq.size) :
    Sqe.layout.load b.bytes (m.pointers.sqes + sizeofIoUringSqe * i) = w.sqes i :=
  h.cells.load (c := .sqe i) hi

theorem Shows.load_cqe (h : Shows m first b w) (hi : i < m.params.cq.size) :
    Cqe.layout.load b.bytes (m.pointers.cqes + sizeofIoUringCqe * i) = w.cqes i :=
  h.cells.load (c := .cqe i) hi

theorem Shows.load_sqArray (h : Shows m first b w) (hi : m.params.Has (.sqArray i)) :
    wordAt b.bytes (m.pointers.sqArray + 4 * i) = w.sqArray i :=
  h.cells.load (c := .sqArray i) hi

end ByteWorld

/-- A ring in the memory that `map_rings` has mapped does what the ring of the queues does, around
the same moves of the kernel, and only the bytes of its cells ever change. -/
theorem ring_in_memory (params : RingParams) (layout : RingLayout) (rings : MappedRings)
    (sq : ParsedSq) (cq : ParsedCq) (bytes : Nat → UInt8)
    (h : SetUp params layout rings sq cq bytes) (resources : RingResources) :
    ∃ m : RingMap, m.params = params ∧
      m.pointers = ⟨sq.sqHead, sq.sqTail, sq.sqFlags,
        rings.sqRingPtr + layout.params.sqOff.array.toNat, sq.sqes, cq.cqHead, cq.cqTail,
        cq.cqes⟩ ∧
      ∀ as : List (ActionOn byteMachine),
        Option.Rel (SysOn.Shows m bytes) ((SysOn.start m bytes resources sq cq).run as)
          ((Sys.ofBytes m bytes resources sq cq).run (as.map SysOn.actionOf)) := by
  obtain ⟨m, hparams, hpointers⟩ := h.map
  exact ⟨m, hparams, hpointers.trans h.parsed_eq.pointers,
    (h.shows hparams hpointers resources).run⟩

end InMemory

/-- The four entries, as the parse finds them. -/
def fourParams : RingParams where
  sq := RingSize.ofLog 2 (by decide)
  cq := eightEntries
  flags := ⟨0⟩
  features := SINGLE_MMAP

def fourRings : MappedRings := ⟨4096, 208, 4096, ⟨0, 0⟩, 8192, 256⟩

def fourSq : ParsedSq := ⟨4096, 4100, 3, 4132, 8192, 0⟩

def fourCq : ParsedCq := ⟨4104, 4108, 7, 4160, 0⟩

/-- The memory with the filled array. -/
def fourMemory [Native] : Nat → UInt8 :=
  (RingLayout.parseSq true 4096 8192 fourLayout true (Memory.of fourBytes)).2.bytes

theorem four_setUp :
    @SetUp ⟨.little⟩ fourParams fourLayout fourRings fourSq fourCq (@fourMemory ⟨.little⟩) := by
  let little : Native := ⟨.little⟩
  constructor
  case sized => exact ⟨rfl, rfl⟩
  case consistent =>
    exact ⟨by simp [fourLayout, RingLayout.scalars], by simp [fourLayout, RingLayout.scalars],
      by simp [fourLayout, RingLayout.scalars], by decide, by decide, ⟨2, rfl⟩, ⟨3, rfl⟩⟩
  case distinct => exact ⟨by decide, by decide, by simp [fourLayout]⟩
  case mapped =>
    exact ⟨⟨3⟩, SetupGuard.new ⟨3⟩, _, answers [.mapped 4096, .mapped 8192], fourOs, _, rfl⟩
  case parsed =>
    refine ⟨true, fourBytes, _, _, ⟨by decide, by decide, by decide, by decide, by decide⟩,
      Prod.ext (by decide +kernel) rfl, Prod.ext (by decide +kernel) rfl, rfl⟩

/-- A request is pushed and submitted, the kernel completes it, and the completion is reaped. -/
def fourActions [Native] : List (ActionOn byteMachine) :=
  [.call (.push (Sqe.nop.withUserData 7)) [⟨[], none⟩, ⟨[], none⟩],
    .call .submit [⟨[], none⟩, ⟨[], some ⟨.ok 1, []⟩⟩, ⟨[], none⟩],
    .kernel (.post (.request 0) ⟨7, 0, 0⟩),
    .call .complete [⟨[], none⟩, ⟨[], none⟩]]

def fourResources : RingResources :=
  ⟨1, ⟨3⟩, ⟨4096, 208⟩, ⟨0, 0⟩, ⟨8192, 256⟩, ⟨12288, 4096⟩⟩

theorem four_run (m : RingMap) (hparams : m.params = fourParams)
    (hpointers : m.pointers = ⟨4096, 4100, 4132, 4288, 8192, 4104, 4108, 4160⟩) :
    ∃ s, (@Sys.ofBytes ⟨.little⟩ m (@fourMemory ⟨.little⟩) fourResources fourSq fourCq).run
        ((@fourActions ⟨.little⟩).map (@SysOn.actionOf ⟨.little⟩)) = some s ∧
      s.accepted = [Sqe.nop.withUserData 7] ∧ s.reaped = [⟨7, 0, ⟨0⟩⟩] := by
  obtain ⟨params, pointers, apart⟩ := m
  cases hparams
  cases hpointers
  have heval : ((@Sys.ofBytes ⟨.little⟩ ⟨fourParams, ⟨4096, 4100, 4132, 4288, 8192, 4104, 4108,
      4160⟩, apart⟩ (@fourMemory ⟨.little⟩) fourResources fourSq fourCq).run
      ((@fourActions ⟨.little⟩).map (@SysOn.actionOf ⟨.little⟩))).map
        (fun s => (s.accepted, s.reaped))
      = some ([Sqe.nop.withUserData 7], [⟨7, 0, ⟨0⟩⟩]) := by
    unfold Sys.ofBytes
    dsimp only
    decide +kernel
  obtain ⟨s, hs, heq⟩ := Option.map_eq_some_iff.mp heval
  exact ⟨s, hs, (Prod.mk.inj heq).1, (Prod.mk.inj heq).2⟩

theorem ring_in_memory_four :
    ∃ (m : RingMap) (x : @SysOn (@byteMachine ⟨.little⟩)),
      (@SysOn.start ⟨.little⟩ m (@fourMemory ⟨.little⟩) fourResources fourSq fourCq).run
        (@fourActions ⟨.little⟩) = some x ∧ x.reaped = [⟨7, 0, ⟨0⟩⟩] := by
  let little : Native := ⟨.little⟩
  obtain ⟨m, hparams, hpointers, hrel⟩ := ring_in_memory fourParams fourLayout fourRings fourSq
    fourCq fourMemory four_setUp fourResources
  obtain ⟨s, hs, -, hreaped⟩ := four_run m hparams hpointers
  obtain ⟨x, hx, hshows⟩ := (rel_iff.mp (hrel fourActions)).2 s hs
  exact ⟨m, x, hx, hshows.reaped.trans hreaped⟩

section Law

variable [Native]

/-- What the memory of a ring holds after a run. -/
structure MemoryLaw (params : RingParams) (layout : RingLayout) (rings : MappedRings)
    (sq : ParsedSq) (cq : ParsedCq) (bytes : Nat → UInt8) (x : SysOn byteMachine) : Prop where
  /-- The kernel has read what was pushed, in order. -/
  consumed : x.state.consumed <+: x.accepted
  /-- What it has not read stands in its slot. -/
  sqes : ∀ i sqe, x.state.consumed.length ≤ i → x.accepted[i]? = some sqe →
    Sqe.layout.load x.state.bytes
      (sq.sqes + sizeofIoUringSqe * ((sq.sqTailLocal.toNat + i) % params.sq.size)) = sqe
  reaped : x.reaped <+: x.state.posted.map fun p => Completion.ofCqe p.2
  cqes : ∀ i p, x.reaped.length ≤ i → x.state.posted[i]? = some p →
    Cqe.layout.load x.state.bytes
      (cq.cqes + sizeofIoUringCqe * ((cq.cqHeadLocal.toNat + i) % params.cq.size)) = p.2
  array : hasSqArray params.flags.bits = true → ∀ i < params.sq.size,
    wordAt x.state.bytes (rings.sqRingPtr + layout.params.sqOff.array.toNat + 4 * i)
      = UInt32.ofNat i
  /-- Nothing outside the mappings has changed. -/
  outside : ∀ a, ¬ rings.sqRange.Has a → ¬ rings.cqRange.Has a → ¬ rings.sqesRange.Has a →
    x.state.bytes a = bytes a

/-- In every run the requests and the completions cross the memory unharmed, and no byte outside
the mappings is written. -/
theorem ring_memory_law (params : RingParams) (layout : RingLayout) (rings : MappedRings)
    (sq : ParsedSq) (cq : ParsedCq) (bytes : Nat → UInt8)
    (h : SetUp params layout rings sq cq bytes) (resources : RingResources) (m : RingMap)
    (hparams : m.params = params)
    (hpointers : m.pointers = ⟨sq.sqHead, sq.sqTail, sq.sqFlags,
      rings.sqRingPtr + layout.params.sqOff.array.toNat, sq.sqes, cq.cqHead, cq.cqTail, cq.cqes⟩)
    (as : List (ActionOn byteMachine)) (x : SysOn byteMachine)
    (hx : (SysOn.start m bytes resources sq cq).run as = some x) :
    MemoryLaw params layout rings sq cq bytes x := by
  subst hparams
  have hptr := hpointers
  replace hpointers := hpointers.trans h.parsed_eq.pointers.symm
  obtain ⟨s, hs, hshows⟩ := (rel_iff.mp ((h.shows rfl hpointers resources).run as)).1 x hx
  obtain ⟨v, hf, -⟩ := (Sys.init_inv m.params resources sq.sqTailLocal cq.cqHeadLocal _ _ _).run hs
  have hsq := hf.inv.sqLaw hf.fixed.sqBase
  have hcq := hf.inv.cqLaw hf.fixed.cqBase
  have hstate := hshows.state
  have hparams := hstate.params
  have hpsq : m.pointers.sqes = sq.sqes := by rw [hptr]
  have hpcq : m.pointers.cqes = cq.cqes := by rw [hptr]
  constructor
  case consumed =>
    rw [hstate.consumed, hshows.accepted]
    exact hsq.consumed_prefix
  case sqes =>
    intro i sqe hi hget
    rw [hstate.consumed] at hi
    rw [hshows.accepted] at hget
    have hlt : (sq.sqTailLocal.toNat + i) % m.params.sq.size < m.params.sq.size :=
      Nat.mod_lt _ m.params.sq.size_pos
    have hslot := hsq.intact i sqe hi hget
    rw [← hparams] at hslot
    rw [← hpsq]
    exact (hstate.load_sqe hlt).trans hslot
  case reaped =>
    rw [hshows.reaped, hstate.posted]
    exact hcq.reaped_prefix
  case cqes =>
    intro i p hi hget
    rw [hshows.reaped] at hi
    rw [hstate.posted] at hget
    have hlt : (cq.cqHeadLocal.toNat + i) % m.params.cq.size < m.params.cq.size :=
      Nat.mod_lt _ m.params.cq.size_pos
    have hslot := hcq.intact i p hi hget
    rw [← hparams] at hslot
    rw [← hpcq]
    exact (hstate.load_cqe hlt).trans hslot
  case array =>
    intro harray i hi
    have hhas : m.params.Has (.sqArray i) := ⟨by simpa [hasSqArray] using harray, hi⟩
    have hcell := hstate.load_sqArray hhas
    have hworld : s.world.hasSqArray = true := by
      unfold World.hasSqArray
      rw [← hparams]
      exact harray
    rw [hptr] at hcell
    exact hcell.trans (hstate.array hworld i (hparams ▸ hi))
  case outside =>
    intro a h1 h2 h3
    refine hstate.beside a fun c hc hin => ?_
    rw [hpointers] at hin
    have hregion := Range.inside_iff.mp (h.inside hc) a hin
    cases hside : c.side with
    | sq => exact h1 (by rwa [hside] at hregion)
    | cq => exact h2 (by rwa [hside] at hregion)
    | sqes => exact h3 (by rwa [hside] at hregion)

end Law

theorem ring_memory_law_four :
    ∃ x : @SysOn (@byteMachine ⟨.little⟩), x.accepted = [Sqe.nop.withUserData 7] ∧
      @MemoryLaw ⟨.little⟩ fourParams fourLayout fourRings fourSq fourCq (@fourMemory ⟨.little⟩)
        x := by
  let little : Native := ⟨.little⟩
  obtain ⟨m, hparams, hpointers⟩ := four_setUp.map
  have hptr := hpointers.trans four_setUp.parsed_eq.pointers
  obtain ⟨s, hs, haccepted, -⟩ := four_run m hparams hptr
  obtain ⟨x, hx, hshows⟩ := (rel_iff.mp ((four_setUp.shows hparams hpointers
    fourResources).run fourActions)).2 s hs
  exact ⟨x, hshows.accepted.trans haccepted, ring_memory_law _ _ _ _ _ _ four_setUp
    fourResources m hparams hptr fourActions x hx⟩

end Ququmatz
