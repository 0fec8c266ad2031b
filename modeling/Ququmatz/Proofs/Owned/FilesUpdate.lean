import Ququmatz.Owned.FilesUpdate
import Ququmatz.Proofs.Owned.MsgRegion
import Ququmatz.Proofs.Owned.Submitter

/-!
# `Ququmatz.Proofs.Owned.FilesUpdate`: what an update tells the kernel

The published words are the raw values of the entries (`published_publish`), and a refused push
hands back the request that was pushed (`RefusedPushes.eq`). So the update says what its owner
meant exactly when the raw value of every entry does and the number of entries fits the SQE
(`filesUpdateLaw_iff`). A descriptor from `2 ^ 31` on is cut to its low 32 bits: it can
become another descriptor, or the value that clears the slot.
-/

set_option autoImplicit false

namespace Ququmatz

open Lib

variable {w : Width} {N : Nat}

/-! ### The raw value of an entry -/

/-- The cast keeps the descriptors that an `i32` has. -/
theorem RawFd.asI32_toInt_iff (fd : RawFd) : fd.asI32.toInt = fd.raw ↔ fd.raw < 2 ^ 31 := by
  constructor
  · intro h
    have hlt := fd.asI32.toInt_lt
    rw [h] at hlt
    omega
  · exact Int32.toInt_ofNat_of_lt

namespace TableEntry

/-- A descriptor that an `i32` has is not the clearing value. -/
theorem raw_eq_clear_iff {entry : TableEntry}
    (h : ∀ fd, entry = .install fd → fd.raw < 2 ^ 31) : entry.raw = -1 ↔ entry = .clear := by
  cases entry with
  | install fd =>
      have hint := fd.asI32_toInt_iff.mpr (h fd rfl)
      have hne : fd.asI32 ≠ -1 := by
        intro heq
        rw [heq] at hint
        have hneg : (-1 : Int32).toInt = -1 := rfl
        omega
      exact iff_of_false hne (by simp)
  | clear => exact iff_of_true rfl rfl

end TableEntry

/-! ### The published words -/

namespace PreparedFilesUpdate

section Words

variable [Native] (self : PreparedFilesUpdate w N)

theorem words_apart : Bytes.FieldsApart self.words := by
  refine List.pairwise_map.mpr ((List.pairwise_lt_finRange N).imp ?_)
  intro a b hab
  rw [length_i32Bytes]
  exact Bytes.elem_end_le hab

theorem mem_words (i : Fin N) :
    (sizeofI32 * i.val, i32Bytes (self.entries i).raw) ∈ self.words :=
  List.mem_map.mpr ⟨i, List.mem_finRange i, rfl⟩

/-- Each word is read back. -/
theorem published_publish (m : Memory) (i : Fin N) :
    self.published (self.publish m) i = (self.entries i).raw := by
  have hload : Bytes.load (Bytes.storeAll m.bytes self.addr.toNat self.words)
      (self.addr.toNat + sizeofI32 * i.val) (i32Bytes (self.entries i).raw).length
        = i32Bytes (self.entries i).raw :=
    Bytes.load_storeAll_mem self.words_apart (self.mem_words i)
  rw [length_i32Bytes] at hload
  rw [published, publish, Memory.writeAll_bytes]
  exact (congrArg i32Value hload).trans (i32Value_i32Bytes _)

end Words

/-! ### Construction -/

/-- The storage has room for `N` words where the alignment allows them. -/
structure Adequate (store : Storage w) (N : Nat) : Prop where
  room : sizeofI32 * N ≤ store.len
  aligned : store.addr.toNat % sizeofI32 = 0

section Construction

variable [Native] {offset : SlotIndex} {entries : Fin N → TableEntry} {store : Storage w}
  {m : Memory}

/-- The request over an adequate storage. -/
def ofStore (offset : SlotIndex) (entries : Fin N → TableEntry) (store : Storage w) :
    PreparedFilesUpdate w N := ⟨store, entries, offset, store.addr⟩

theorem at_ok (offset : SlotIndex) (entries : Fin N → TableEntry) (m : Memory) (hN : 0 < N)
    (hstore : Adequate store N) :
    PreparedFilesUpdate.at offset entries store m
      = (.ok (ofStore offset entries store), (ofStore offset entries store).publish m) := by
  rw [PreparedFilesUpdate.at, if_neg (by omega)]
  dsimp only
  rw [if_neg (Nat.not_lt_of_le hstore.room), if_neg (fun h => h hstore.aligned)]
  rfl

end Construction

/-! ### Pushes that are refused -/

/-- Any number of pushes that a full queue refused, each of the request that the one before it
handed back. -/
inductive RefusedPushes (request : PreparedFilesUpdate w N) : PreparedFilesUpdate w N → Prop
  | none : RefusedPushes request request
  | push {q q' : PreparedFilesUpdate w N} {self self' : OwnedSubmitter} {e : Error}
      {rs : List KRound} {world world' : World} (before : RefusedPushes request q)
      (refused : (self.pushFilesUpdate q).run ringMachine rs world
        = some ((.error (q', e), self'), world')) : RefusedPushes request q'

/-- A refused push changes nothing about the request. -/
theorem RefusedPushes.eq {request q : PreparedFilesUpdate w N} (h : RefusedPushes request q) :
    q = request := by
  induction h with
  | none => rfl
  | push before refused ih =>
      rcases OwnedSubmitter.pushWith_cases refused with ⟨hres, -⟩ | ⟨hres, -⟩
      · cases hres
        exact ih
      · cases hres

/-! ### What the kernel is told -/

/-- The SQE names the published words and the first slot. -/
structure Names [Native] (q : PreparedFilesUpdate w N) (offset : SlotIndex) (m : Memory)
    (sqe : Sqe) : Prop where
  opcode : sqe.opcode = Opcode.filesUpdate.toU8
  addr : sqe.addr.toNat = q.addr.toNat
  len : sqe.len.toNat = N
  off : sqe.off.toNat = offset.get.toNat
  words : kernelFds m.bytes sqe = List.ofFn (q.published m)

/-- The request says what `entries` mean. -/
structure Faithful [Native] (q : PreparedFilesUpdate w N) (offset : SlotIndex)
    (entries : Fin N → TableEntry) (m : Memory) : Prop where
  /-- Only an entry that clears is published as the clearing value. -/
  clear : ∀ i, q.published m i = -1 ↔ entries i = .clear
  /-- A descriptor is published as itself. -/
  install : ∀ i fd, entries i = .install fd → (q.published m i).toInt = fd.raw
  nonneg : ∀ i fd, entries i = .install fd → 0 ≤ q.published m i
  distinct : ∀ i j fd fd', entries i = .install fd → entries j = .install fd' → fd ≠ fd' →
    q.published m i ≠ q.published m j
  /-- Under whatever identity the request is pushed. -/
  names : ∀ ring id, q.Names offset m (q.intoPending ring id).1

section

variable [Native] {q : PreparedFilesUpdate w N} {m : Memory}

/-- The kernel reads what `published` reads, if the SQE can say how much. -/
theorem names_intoPending (hN : N < 2 ^ 32) (ring : RingId) (id : RequestId) :
    q.Names q.offset m (q.intoPending ring id).1 := by
  have hlen : (q.intoPending ring id).1.len.toNat = N := UInt32.toNat_ofNat_of_lt' hN
  have haddr : (q.intoPending ring id).1.addr.toNat = q.addr.toNat := toNat_ptr_asU64 q.addr
  refine ⟨rfl, haddr, hlen, rfl, ?_⟩
  rw [kernelFds, hlen, haddr]
  refine List.ext_getElem (by simp) fun i h1 h2 => ?_
  simp [published]

/-- Publishing is faithful exactly for the descriptors that an `i32` has, and as many entries
as the SQE can say. -/
theorem faithful_publish_iff (q : PreparedFilesUpdate w N) (m : Memory) :
    q.Faithful q.offset q.entries (q.publish m) ↔
      N < 2 ^ 32 ∧ ∀ i fd, q.entries i = .install fd → fd.raw < 2 ^ 31 := by
  constructor
  · intro h
    constructor
    · -- Any identity will do: the SQE has the same length under all of them.
      have hlen := (h.names ⟨0⟩ ⟨0⟩).len
      rw [← hlen]
      exact UInt32.toNat_lt _
    · intro i fd hi
      have hint := h.install i fd hi
      rw [q.published_publish, hi] at hint
      exact fd.asI32_toInt_iff.mp hint
  · rintro ⟨hN, hfds⟩
    have hinstall : ∀ i fd, q.entries i = .install fd →
        (q.published (q.publish m) i).toInt = fd.raw := by
      intro i fd hi
      rw [q.published_publish, hi]
      exact fd.asI32_toInt_iff.mpr (hfds i fd hi)
    refine ⟨fun i => ?_, hinstall, fun i fd hi => ?_, fun i j fd fd' hi hj hne heq => ?_,
      fun ring id => names_intoPending hN ring id⟩
    · rw [q.published_publish]
      exact TableEntry.raw_eq_clear_iff (hfds i)
    · rw [Int32.le_iff_toInt_le, hinstall i fd hi]
      exact Int.natCast_nonneg _
    · have hraw : (fd.raw : Int) = fd'.raw := by
        rw [← hinstall i fd hi, ← hinstall j fd' hj, heq]
      refine hne ?_
      rcases fd with ⟨a⟩
      rcases fd' with ⟨b⟩
      exact congrArg RawFd.mk (Int.ofNat_inj.mp hraw)

end

end PreparedFilesUpdate

/-! ### The law -/

/-- The request is accepted, and whatever number of pushes is refused, what is then in the
storage and in the SQE says what `entries` mean. -/
def FilesUpdateLaw [Native] (offset : SlotIndex) (entries : Fin N → TableEntry)
    (store : Storage w) (m : Memory) : Prop :=
  ∃ prepared m', PreparedFilesUpdate.at offset entries store m = (.ok prepared, m') ∧
    ∀ q, prepared.RefusedPushes q →
      q.Faithful offset entries m' ∧ q.published m' = prepared.published m'

/-- An update tells the kernel what its owner meant exactly when every descriptor is one that an
`i32` has and the number of entries is one that an SQE has. -/
theorem filesUpdateLaw_iff [Native] (offset : SlotIndex) (entries : Fin N → TableEntry)
    (store : Storage w) (m : Memory) (hN : 0 < N)
    (hstore : PreparedFilesUpdate.Adequate store N) :
    FilesUpdateLaw offset entries store m ↔
      N < 2 ^ 32 ∧ ∀ i fd, entries i = .install fd → fd.raw < 2 ^ 31 := by
  have hat := PreparedFilesUpdate.at_ok offset entries m hN hstore
  have hiff := (PreparedFilesUpdate.ofStore offset entries store).faithful_publish_iff m
  constructor
  · rintro ⟨prepared, m', hok, hlaw⟩
    rw [hat] at hok
    cases hok
    exact hiff.mp (hlaw _ .none).1
  · intro hfits
    refine ⟨_, _, hat, fun q hq => ?_⟩
    rw [hq.eq]
    exact ⟨hiff.mpr hfits, rfl⟩

/-- Two descriptors around a slot that is cleared. -/
def installClearInstall : Fin 3 → TableEntry := fun i =>
  if i = 1 then .clear else .install ⟨7 + i⟩

theorem filesUpdateLaw_three :
    @FilesUpdateLaw .w64 3 ⟨.little⟩ ⟨2⟩ installClearInstall ⟨4096, 12, by decide⟩
      (Memory.of fun _ => 0) := by
  let little : Native := ⟨.little⟩
  refine (filesUpdateLaw_iff _ _ _ _ (by decide) ⟨by decide, by decide⟩).mpr ⟨by decide, ?_⟩
  intro i fd hi
  rw [installClearInstall] at hi
  split at hi
  · cases hi
  · cases hi
    have hlt := i.isLt
    show 7 + i.val < _
    omega

/-- A descriptor made of `usize::MAX`, which is what `-1` becomes as a `usize`. -/
def strayEntry : Fin 1 → TableEntry := fun _ => .install ⟨18446744073709551615⟩

def strayStore : Storage .w64 := ⟨4096, 4, by decide⟩

/-- It is published as the value that clears the slot. -/
theorem strayEntry_clears :
    let update := PreparedFilesUpdate.ofStore ⟨0⟩ strayEntry strayStore
    let m := Memory.of fun _ => 0
    @PreparedFilesUpdate.published _ _ ⟨.little⟩ update
        (@PreparedFilesUpdate.publish _ _ ⟨.little⟩ update m) 0 = CLEAR ∧
      ¬ @FilesUpdateLaw _ _ ⟨.little⟩ ⟨0⟩ strayEntry strayStore m := by
  intro update m
  let little : Native := ⟨.little⟩
  have hword : update.published (update.publish m) 0 = CLEAR := update.published_publish m 0
  refine ⟨hword, ?_⟩
  rintro ⟨prepared, m', hok, hlaw⟩
  rw [PreparedFilesUpdate.at_ok _ _ _ (by decide) ⟨by decide, by decide⟩] at hok
  cases hok
  have hclear := ((hlaw _ .none).1.clear 0).mp hword
  cases hclear

end Ququmatz
