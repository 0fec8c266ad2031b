import Ququmatz.Owned.Direct
import Ququmatz.Proofs.Owned.Delivery

/-!
# `Ququmatz.Proofs.Owned.Direct`: direct requests name the slot that the kernel filled

The kernel reads back from `file_index` what the target says (`fileIndex_raw`): the two reserved
values are those of no admitted index. What a ticket reports is decided by its target and the
result (`DirectRequest.report_eq`), and it is the slot that the kernel filled
(`SlotTarget.slotFor_eq`).
-/

set_option autoImplicit false

namespace Ququmatz

/-! ### Targets on the wire -/

namespace SlotIndex

/-- What the constructor admits. -/
theorem new_eq_some_iff {index : UInt32} {slot : SlotIndex} :
    new index = some slot ↔ index ≤ MAX ∧ slot = ⟨index⟩ := by
  unfold new
  split
  · rename_i hgt
    exact iff_of_false (by simp) fun h => absurd h.1 (UInt32.not_le.mpr hgt)
  · rename_i hle
    rw [Option.some.injEq]
    exact ⟨fun h => ⟨UInt32.not_lt.mp hle, h.symm⟩, fun h => h.2.symm⟩

/-- The wire form of an admitted index does not overflow, and is not the allocating one. -/
theorem get_lt {index : UInt32} {slot : SlotIndex} (h : new index = some slot) :
    slot.get.toNat + 1 < 2 ^ 32 - 1 := by
  obtain ⟨hle, rfl⟩ := new_eq_some_iff.mp h
  have hmax : index.toNat ≤ 4294967293 := UInt32.le_iff_toNat_le.mp hle
  show index.toNat + 1 < _
  omega

end SlotIndex

namespace SlotTarget

/-- The target is one that can be made. -/
def Admitted (self : SlotTarget) : Prop := self = .auto ∨ ∃ index, exactAt index = some self

/-- What the target asks of the kernel. -/
def asked : SlotTarget → FileIndex
  | .auto => .allocate
  | .exact slot => .install slot.get.toNat

theorem Admitted.get_lt {slot : SlotIndex} (h : (SlotTarget.exact slot).Admitted) :
    slot.get.toNat + 1 < 2 ^ 32 - 1 := by
  rcases h with h | ⟨index, h⟩
  · cases h
  · obtain ⟨slot', hnew, heq⟩ := Option.map_eq_some_iff.mp h
    cases heq
    exact SlotIndex.get_lt hnew

/-- The kernel reads the target back. -/
theorem fileIndex_raw {target : SlotTarget} (h : target.Admitted) (sqe : Sqe)
    (hsqe : sqe.spliceFdIn = target.raw) : sqe.fileIndex = target.asked := by
  rw [Sqe.fileIndex, hsqe]
  cases target with
  | auto => rfl
  | exact slot =>
      have hlt := h.get_lt
      have hnat : (slot.get + 1).toNat = slot.get.toNat + 1 := by
        rw [UInt32.toNat_add]
        exact Nat.mod_eq_of_lt (Nat.lt_trans hlt (by decide))
      have hraw : (SlotTarget.exact slot).raw.toUInt32 = slot.get + 1 :=
        UInt32.toUInt32_toInt32 _
      -- neither of the two values that the kernel reads differently
      have hzero : slot.get + 1 ≠ 0 := by
        intro h0
        rw [h0] at hnat
        exact absurd hnat (by simp)
      have halloc : slot.get + 1 ≠ FILE_INDEX_ALLOC := by
        intro h0
        rw [h0] at hnat
        have : FILE_INDEX_ALLOC.toNat = 2 ^ 32 - 1 := rfl
        omega
      rw [hraw, if_neg hzero, if_neg halloc, hnat, Nat.add_sub_cancel]
      rfl

/-- No two targets have one wire form. -/
theorem raw_injective {t t' : SlotTarget} (h : t.Admitted) (h' : t'.Admitted)
    (heq : t.raw = t'.raw) : t = t' := by
  let sqe : Sqe := { Sqe.ZEROED with spliceFdIn := t.raw }
  have hasked : t.asked = t'.asked :=
    (fileIndex_raw h sqe rfl).symm.trans (fileIndex_raw h' sqe heq)
  cases t with
  | auto => cases t' <;> simp_all [asked]
  | exact slot =>
      cases t' with
      | auto => cases hasked
      | exact slot' =>
          have hnat : slot.get.toNat = slot'.get.toNat := FileIndex.install.inj hasked
          exact congrArg (SlotTarget.exact ∘ SlotIndex.mk) (UInt32.toNat_inj.mp hnat)

/-! ### What the tickets report -/

/-- The index of an allocated slot is a result, so that it is not above the largest index. -/
theorem slotFor_auto (ring : RingId) {i : Nat} (h : i < 2 ^ 31) :
    auto.slotFor ring (Int32.ofNat i) = some ⟨⟨UInt32.ofNat i⟩, ring⟩ := by
  have hint : (Int32.ofNat i).toInt = i := Int32.toInt_ofNat_of_lt h
  have hnonneg : ¬ Int32.ofNat i < 0 := by
    rw [Int32.lt_iff_toInt_lt, hint]
    exact Int.not_lt.mpr (Int.natCast_nonneg i)
  have hindex : (Int32.ofNat i).toUInt32 = UInt32.ofNat i := by
    rw [← UInt32.toNat_inj, Int32.toNat_toUInt32_of_le (Int32.not_lt.mp hnonneg),
      Int32.toNatClampNeg, hint, Int.toNat_natCast]
    exact (UInt32.toNat_ofNat_of_lt' (Nat.lt_trans h (by decide))).symm
  have hnew : SlotIndex.new (UInt32.ofNat i) = some ⟨UInt32.ofNat i⟩ := by
    refine SlotIndex.new_eq_some_iff.mpr ⟨UInt32.le_iff_toNat_le.mpr ?_, rfl⟩
    rw [UInt32.toNat_ofNat_of_lt' (Nat.lt_trans h (by decide))]
    exact Nat.le_trans (Nat.le_of_lt h) (by decide)
  rw [slotFor, if_neg hnonneg, resolve, if_neg hnonneg, hindex, hnew]
  rfl

/-- The slot that is reported is the one that the kernel filled. -/
theorem slotFor_eq {target : SlotTarget} {F : Type} {table table' : FileTable F} {file : F}
    {result : Int32} {filled : Option Nat} (ring : RingId)
    (h : KernelOpens table target.asked file result filled table') :
    target.slotFor ring result = filled.map fun i => ⟨⟨UInt32.ofNat i⟩, ring⟩ := by
  cases h with
  | failed negative => exact if_pos negative
  | descriptor asked nonneg => cases target <;> cases asked
  | @allocated i asked free =>
      cases target with
      | auto =>
          obtain ⟨hi, -⟩ := List.getElem?_eq_some_iff.mp free
          exact slotFor_auto ring (Nat.lt_of_lt_of_le hi table.fits)
      | exact slot => cases asked
  | @installed i asked room =>
      cases target with
      | auto => cases asked
      | exact slot =>
          have hi : slot.get.toNat = i := FileIndex.install.inj asked
          rw [← hi]
          show some (DirectSlot.mk slot ring) = some ⟨⟨UInt32.ofNat slot.raw.toNat⟩, ring⟩
          rw [UInt32.ofNat_toNat]

end SlotTarget

/-- A slot that was filled is in the table, and holds the file. -/
theorem KernelOpens.filled_eq {F : Type} {table table' : FileTable F} {index : FileIndex}
    {file : F} {result : Int32} {i : Nat}
    (h : KernelOpens table index file result (some i) table') :
    i < 2 ^ 31 ∧ table'.slots[i]? = some (some file) := by
  have hput : ∀ j, j < table.slots.length →
      j < 2 ^ 31 ∧ (table.install j file).slots[j]? = some (some file) := fun j hj =>
    ⟨Nat.lt_of_lt_of_le hj table.fits, List.getElem?_set_self hj⟩
  cases h with
  | allocated asked free => exact hput i (List.getElem?_eq_some_iff.mp free).1
  | installed asked room => exact hput i room

/-! ### Requests -/

namespace DirectAccept

/-- An accept that allocates reads its results as every such request does. -/
theorem claim_eq (self : DirectAccept) (result : Int32) :
    self.claim result = SlotTarget.auto.slotFor self.ring result := by
  rw [claim, SlotTarget.slotFor, SlotTarget.resolve]
  split <;> rfl

theorem record_ok (self : DirectAccept) {event : Event}
    (h : event.belongsTo self.ring self.id = true) :
    ∃ incoming, self.record event = .ok incoming ∧
      incoming.intoSlot = self.claim event.result := by
  unfold record
  rw [if_pos h]
  cases event with
  | complete receipt => exact ⟨_, rfl, rfl⟩
  | part receipt =>
      dsimp only
      cases hclaim : self.claim receipt.result with
      | none => exact ⟨_, rfl, hclaim.symm⟩
      | some slot => exact ⟨_, rfl, hclaim.symm⟩

end DirectAccept

namespace DirectRequest

variable {w : Width}

/-- A request that is not an accept has one completion, and a receipt for it. -/
def Takes : DirectRequest w → Event → Prop
  | .accept _, _ => True
  | _, .complete _ => True
  | _, .part _ => False

/-- What is reported is decided by the target and the result. -/
theorem report_eq (self : DirectRequest w) {ring : RingId} {id : RequestId} {event : Event}
    (hmine : event.belongsTo ring id = true) (htakes : self.Takes event) :
    self.report ring id event = some (self.target.slotFor ring event.result) := by
  cases self with
  | openat request =>
      cases event with
      | complete receipt =>
          have hmatch : (!receipt.belongsTo ring id) = false := (Bool.not_eq_false' _).mpr hmine
          show ((PendingDirectOpen.redeem _ receipt).toOption.map _) = _
          rw [PendingDirectOpen.redeem, if_neg (by exact ne_true_of_eq_false hmatch)]
          rfl
      | part receipt => exact htakes.elim
  | socket request =>
      cases event with
      | complete receipt =>
          have hmatch : (!receipt.belongsTo ring id) = false := (Bool.not_eq_false' _).mpr hmine
          show ((PendingDirectSocket.redeem _ receipt).toOption.map _) = _
          rw [PendingDirectSocket.redeem, if_neg (by exact ne_true_of_eq_false hmatch)]
          rfl
      | part receipt => exact htakes.elim
  | accept request =>
      obtain ⟨incoming, hok, hslot⟩ :=
        DirectAccept.record_ok (request.intoPending ring id).2 hmine
      show ((DirectAccept.record _ event).toOption.map _) = _
      rw [hok]
      exact congrArg some (hslot.trans (DirectAccept.claim_eq _ _))

/-- The SQE carries the target. -/
theorem spliceFdIn_sqe (self : DirectRequest w) (ring : RingId) (id : RequestId) :
    (self.sqe ring id).spliceFdIn = self.target.raw := by
  cases self <;> rfl

end DirectRequest

/-! ### The law -/

/-- A direct request is one for the kernel too, and its ticket names the slot that was filled. -/
structure DirectRequest.Named {w : Width} (self : DirectRequest w) (ring : RingId)
    (id : RequestId) : Prop where
  direct : (self.sqe ring id).fileIndex ≠ .descriptor
  /-- An exact target is installed into, and for `Auto` a slot is allocated. -/
  asked : (self.sqe ring id).fileIndex = self.target.asked
  /-- For every table, every outcome, and every event of the request with this result. -/
  reported : ∀ {F : Type} (table table' : FileTable F) (file : F) (filled : Option Nat)
    (event : Event), event.belongsTo ring id = true → self.Takes event →
    KernelOpens table (self.sqe ring id).fileIndex file event.result filled table' →
    ∃ slot, self.report ring id event = some slot ∧ (slot.isSome ↔ filled.isSome) ∧
      ∀ s ∈ slot, s.ring = ring ∧ filled = some s.index.get.toNat ∧
        table'.slots[s.index.get.toNat]? = some (some file)

/-- The slot that a request reports is in the table, under the index that it has there. -/
theorem DirectRequest.named {w : Width} (request : DirectRequest w) (ring : RingId)
    (id : RequestId) (htarget : request.target.Admitted) : request.Named ring id := by
  have hasked : (request.sqe ring id).fileIndex = request.target.asked :=
    SlotTarget.fileIndex_raw htarget _ (request.spliceFdIn_sqe ring id)
  refine ⟨?_, hasked, ?_⟩
  · rw [hasked]
    cases request.target <;> simp [SlotTarget.asked]
  · intro F table table' file filled event hmine htakes hopens
    rw [hasked] at hopens
    refine ⟨_, request.report_eq hmine htakes, ?_⟩
    rw [SlotTarget.slotFor_eq ring hopens]
    cases filled with
    | none => exact ⟨Iff.rfl, fun s hs => by cases hs⟩
    | some i =>
        obtain ⟨hi, hslot⟩ := hopens.filled_eq
        refine ⟨Iff.rfl, fun s hs => ?_⟩
        cases hs
        -- the index came from a table that an `i32` can number, so its 32 bits hold it
        have hnat : (UInt32.ofNat i).toNat = i :=
          UInt32.toNat_ofNat_of_lt' (Nat.lt_trans hi (by decide))
        refine ⟨rfl, congrArg some hnat.symm, ?_⟩
        show table'.slots[(UInt32.ofNat i).toNat]? = _
        rw [hnat]
        exact hslot

/-- Targets and requests, on the wire and back. -/
structure DirectSlotsLaw (w : Width) : Prop where
  /-- The wire form of an index does not overflow. -/
  fits : ∀ index slot, SlotIndex.new index = some slot → slot.get.toNat + 1 < 2 ^ 32
  injective : ∀ t t' : SlotTarget, t.Admitted → t'.Admitted → t.raw = t'.raw → t = t'
  /-- A request has the target that it was prepared for. -/
  opens : ∀ dir path flags mode target (request : PreparedDirectOpen w),
    PreparedDirectOpen.at dir path flags mode target = .ok request → request.target = target
  creates : ∀ domain sockType protocol flags target request,
    PreparedDirectSocket.new domain sockType protocol flags target = .ok request →
      request.target = target
  named : ∀ (request : DirectRequest w) (ring : RingId) (id : RequestId),
    request.target.Admitted → request.Named ring id

/-- Direct slots name the slot that the kernel used. -/
theorem directSlotsLaw (w : Width) : DirectSlotsLaw w where
  fits := fun index slot h => Nat.lt_trans (SlotIndex.get_lt h) (by decide)
  injective := fun _ _ => SlotTarget.raw_injective
  opens := fun dir path flags mode target request h => by
    rw [PreparedDirectOpen.at] at h
    split at h <;> cases h
    rfl
  creates := fun domain sockType protocol flags target request h => by
    rw [PreparedDirectSocket.new] at h
    split at h <;> cases h
    rfl
  named := fun request ring id htarget => request.named ring id htarget

/-- A socket for slot 3. -/
def thirdSlot : DirectRequest .w64 := .socket ⟨.inet, .stream, 0, ⟨0⟩, .exact ⟨3⟩⟩

/-- Four empty slots. -/
def fourFiles : FileTable Unit := ⟨List.replicate 4 none, by decide⟩

/-- The SQE asks for slot 3, the kernel answers 0, and the ticket names slot 3, which is filled. -/
theorem directSlotsLaw_exact :
    (thirdSlot.sqe ⟨7⟩ ⟨1⟩).spliceFdIn = 4 ∧
      (thirdSlot.sqe ⟨7⟩ ⟨1⟩).fileIndex = .install 3 ∧
      ∃ slot, thirdSlot.report ⟨7⟩ ⟨1⟩ (.complete ⟨⟨7⟩, ⟨1⟩, 0, ⟨0⟩⟩) = some (some slot) ∧
        slot.ring = ⟨7⟩ ∧ slot.index.get.toNat = 3 ∧
        (fourFiles.install 3 ()).slots[slot.index.get.toNat]? = some (some ()) := by
  obtain ⟨-, hasked, hreported⟩ :=
    (directSlotsLaw .w64).named thirdSlot ⟨7⟩ ⟨1⟩ (Or.inr ⟨3, rfl⟩)
  have hopens : KernelOpens fourFiles (thirdSlot.sqe ⟨7⟩ ⟨1⟩).fileIndex () 0 (some 3)
      (fourFiles.install 3 ()) := .installed (by decide) (by decide)
  obtain ⟨slot, hreport, hsome, hslot⟩ := hreported fourFiles _ () (some 3)
    (.complete ⟨⟨7⟩, ⟨1⟩, 0, ⟨0⟩⟩) rfl trivial hopens
  obtain ⟨s, rfl⟩ := Option.isSome_iff_exists.mp (hsome.mpr rfl)
  obtain ⟨hring, hindex, hfilled⟩ := hslot s rfl
  exact ⟨rfl, hasked, s, hreport, hring, (Option.some.inj hindex).symm, hfilled⟩

end Ququmatz
