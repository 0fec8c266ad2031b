import Ququmatz.Lib.FlagExpr
import Ququmatz.Owned.Openat2
import Ququmatz.Proofs.Owned.MsgRegion

/-!
# `Ququmatz.Proofs.Owned.Openat2`: which opens the kernel does not reject

The check of the mode and the pairing of a mode with its flag leave no `open_how` whose mode is
rejected (`Openat2Mode.mode_le`, `Openat2Mode.flags_meaning`). The flags and the resolve flags are
not checked: their types have the operator `!`, which sets bits that no constant has, and these
bits are published. So the request has only known bits exactly when neither value is inverted
(`openat2Law_iff`).
-/

set_option autoImplicit false

namespace Ququmatz

open Lib

/-! ### The bits of the flag types -/

theorem Bitflags.isWord (kind : FlagKind) :
    FlagExpr.IsWord 32 fun flag : Bitflags kind => flag.bits.toNat :=
  .of_bitVec (fun flag : Bitflags kind => flag.bits.toBitVec) rfl (fun _ _ => rfl)
    (fun _ _ => rfl) fun _ => rfl

theorem ResolveFlags.isWord : FlagExpr.IsWord 64 fun flag : ResolveFlags => flag.bits.toNat :=
  .of_bitVec (fun flag : ResolveFlags => flag.bits.toBitVec) rfl (fun _ _ => rfl)
    (fun _ _ => rfl) fun _ => rfl

/-- No constant has bit 31. -/
theorem OpenFlags.named_iff (e : FlagExpr OpenFlags.named) :
    (∀ i, e.eval.bits.toNat.testBit i = true →
        ∃ flag ∈ OpenFlags.named, flag.bits.toNat.testBit i = true) ↔ e.inverted = false :=
  (Bitflags.isWord .fileOpen).named_iff (by decide : 31 < 32) (by decide) e

/-- No constant has bit 63. -/
theorem ResolveFlags.named_iff (e : FlagExpr ResolveFlags.named) :
    (∀ i, e.eval.bits.toNat.testBit i = true →
        ∃ flag ∈ ResolveFlags.named, flag.bits.toNat.testBit i = true) ↔ e.inverted = false :=
  ResolveFlags.isWord.named_iff (by decide : 63 < 64) (by decide) e

/-- A union keeps the flags of its parts. -/
theorem Bitflags.or_and_of_and {a b flag : UInt32} (h : b &&& flag = flag) :
    (a ||| b) &&& flag = flag := by
  refine UInt32.toNat_inj.mp (Nat.eq_of_testBit_eq fun i => ?_)
  have hbit : (b &&& flag).toNat.testBit i = flag.toNat.testBit i := by rw [h]
  rw [UInt32.toNat_and, Nat.testBit_and] at hbit
  rw [UInt32.toNat_and, UInt32.toNat_or, Nat.testBit_and, Nat.testBit_or,
    Bool.and_or_distrib_right, hbit]
  cases flag.toNat.testBit i <;> simp

/-! ### The mode -/

namespace Openat2Mode

/-- The check of the mode leaves its low 12 bits. -/
theorem mode_le {mode : Openat2Mode} (h : mode.mode.bits &&& ~~~MODE_BITS = 0) :
    mode.mode.bits.toNat ≤ 0o7777 := by
  have hstray : ∀ i, i < 32 → 12 ≤ i → (~~~MODE_BITS).toNat.testBit i = true := by decide
  -- a bit from the twelfth on is stray below the width, and beyond it there is none
  refine Nat.le_of_lt_succ (Nat.lt_pow_two_of_testBit (n := 12) _ fun i hi => ?_)
  by_cases h32 : i < 32
  · have hbit : (mode.mode.bits &&& ~~~MODE_BITS).toNat.testBit i = false := by
      rw [h]
      exact Nat.zero_testBit i
    rwa [UInt32.toNat_and, Nat.testBit_and, hstray i h32 hi, Bool.and_true] at hbit
  · exact Nat.testBit_lt_two_pow (Nat.lt_of_lt_of_le mode.mode.bits.toNat_lt
      (Nat.pow_le_pow_right (by decide) (Nat.le_of_not_lt h32)))

/-- The flags that a mode implies, as they are written. -/
def flagsExpr : Openat2Mode → FlagExpr OpenFlags.named
  | .existing => .empty
  | .create _ => .name OpenFlags.CREAT (by decide)
  | .createNew _ => .or (.name OpenFlags.CREAT (by decide)) (.name OpenFlags.EXCL (by decide))
  | .tmpfile _ => .name OpenFlags.TMPFILE (by decide)

@[simp] theorem eval_flagsExpr (mode : Openat2Mode) : mode.flagsExpr.eval = mode.flags := by
  cases mode <;> rfl

@[simp] theorem inverted_flagsExpr (mode : Openat2Mode) : mode.flagsExpr.inverted = false := by
  cases mode <;> rfl

/-- A mode comes with the flag that gives it meaning. -/
theorem flags_meaning {mode : Openat2Mode} (h : mode.mode.bits ≠ 0) :
    ∃ flag ∈ [OpenFlags.CREAT, OpenFlags.TMPFILE],
      mode.flags.bits &&& flag.bits = flag.bits := by
  cases mode with
  | existing => exact absurd rfl h
  | create mode => exact ⟨OpenFlags.CREAT, by decide, UInt32.and_self⟩
  | createNew mode =>
      refine ⟨OpenFlags.CREAT, by decide, ?_⟩
      show (OpenFlags.CREAT ||| OpenFlags.EXCL).bits &&& _ = _
      decide
  | tmpfile mode => exact ⟨OpenFlags.TMPFILE, by decide, UInt32.and_self⟩

end Openat2Mode

/-! ### The `open_how` of a request -/

namespace PreparedOpenat2

variable {w : Width}

/-- The request over adequate storage. -/
def ofParts (dir : DirFd) (path : OwnedPath w) (flags : OpenFlags) (mode : Openat2Mode)
    (resolve : ResolveFlags) (howStore : Storage w) : PreparedOpenat2 w where
  path := path
  howStore := howStore
  dir := dir
  flags := flags
  mode := mode
  resolve := resolve
  pathAddr := path.stablePtr
  howAddr := howStore.addr

/-- The `open_how` is one that `openat2` does not reject, exactly when neither its flags nor its
resolve flags are inverted. -/
theorem how_accepted_iff (dir : DirFd) (path : OwnedPath w) (flags : FlagExpr OpenFlags.named)
    {mode : Openat2Mode} (resolve : FlagExpr ResolveFlags.named)
    (hmode : mode.mode.bits &&& ~~~MODE_BITS = 0) (howStore : Storage w) :
    (ofParts dir path flags.eval mode resolve.eval howStore).how.Accepted ↔
      flags.inverted = false ∧ resolve.inverted = false := by
  -- the flags of the request are an expression too
  have hflags : (ofParts dir path flags.eval mode resolve.eval howStore).how.flags.toNat
      = (flags.or mode.flagsExpr).eval.bits.toNat := by
    rw [FlagExpr.eval, mode.eval_flagsExpr]
    rfl
  have hinv : (flags.or mode.flagsExpr).inverted = flags.inverted := by
    show (flags.inverted || mode.flagsExpr.inverted) = _
    rw [mode.inverted_flagsExpr, Bool.or_false]
  constructor
  · intro h
    have hnamed := h.flags
    rw [hflags] at hnamed
    exact ⟨hinv.symm.trans ((OpenFlags.named_iff _).mp hnamed),
      (ResolveFlags.named_iff resolve).mp h.resolve⟩
  · rintro ⟨hf, hr⟩
    refine ⟨?_, (ResolveFlags.named_iff resolve).mpr hr, ?_, ?_⟩
    · rw [hflags]
      exact (OpenFlags.named_iff _).mpr (hinv.trans hf)
    · show mode.mode.bits.toUInt64.toNat ≤ _
      rw [UInt32.toNat_toUInt64]
      exact Openat2Mode.mode_le hmode
    · intro hne
      have hbits : mode.mode.bits ≠ 0 := fun h0 => hne (by rw [ofParts, how, h0]; rfl)
      obtain ⟨flag, hmem, hand⟩ := Openat2Mode.flags_meaning hbits
      refine ⟨flag, hmem, ?_⟩
      show (flags.eval.bits ||| mode.flags.bits).toUInt64 &&& _ = _
      rw [← UInt32.toUInt64_and, Bitflags.or_and_of_and hand]

/-! ### Construction -/

section

variable [Native]

/-- The mode has only permission bits, and the storage has room for an `open_how` where its
alignment allows one. -/
structure Adequate (mode : Openat2Mode) (howStore : Storage w) : Prop where
  mode : mode.mode.bits &&& ~~~MODE_BITS = 0
  room : OpenHow.layout.size ≤ howStore.len
  aligned : howStore.addr.toNat % OpenHow.layout.align = 0

variable (dir : DirFd) (path : OwnedPath w) (flags : OpenFlags) {mode : Openat2Mode}
  (resolve : ResolveFlags) {howStore : Storage w} (m : Memory)

theorem at_ok (h : Adequate mode howStore) :
    PreparedOpenat2.at dir path flags mode resolve howStore m
      = (.ok (ofParts dir path flags mode resolve howStore),
          (ofParts dir path flags mode resolve howStore).publishHow m) := by
  rw [PreparedOpenat2.at]
  dsimp only
  rw [if_neg (fun hne => hne h.mode), if_neg (Nat.not_lt_of_le h.room),
    if_neg (fun hne => hne h.aligned)]
  rfl

/-- A request that is refused hands back both storages, and nothing was written. -/
theorem at_refused (h : ¬ Adequate mode howStore) :
    ∃ e, PreparedOpenat2.at dir path flags mode resolve howStore m
      = (.error (path, howStore, e), m) := by
  rw [PreparedOpenat2.at]
  dsimp only
  -- the three checks, in the order of the source
  split
  · exact ⟨_, rfl⟩
  · rename_i hmode
    split
    · exact ⟨_, rfl⟩
    · rename_i hroom
      split
      · exact ⟨_, rfl⟩
      · rename_i haligned
        exact absurd ⟨Decidable.not_not.mp hmode, Nat.le_of_not_lt hroom,
          Decidable.not_not.mp haligned⟩ h

/-! ### What is published -/

/-- The `open_how` is read back. -/
theorem publishedHow_publishHow (self : PreparedOpenat2 w) (m : Memory) :
    self.publishedHow (self.publishHow m) = self.how := by
  rw [publishedHow, publishHow, Memory.writeAll_bytes]
  exact (OpenHow.layout.stands_store _ _ _).load_eq

/-- Under whatever identity the request is pushed, the kernel reads the published `open_how`. -/
theorem kernelHow_intoPending (self : PreparedOpenat2 w) (m : Memory) (ring : RingId)
    (id : RequestId) :
    kernelHow m.bytes (self.intoPending ring id).1 = some (self.publishedHow m) := by
  have haddr : (self.intoPending ring id).1.off.toNat = self.howAddr.toNat :=
    toNat_ptr_asU64 self.howAddr
  rw [kernelHow, if_pos (by rfl), haddr]
  rfl

end

end PreparedOpenat2

/-! ### The law -/

variable {w : Width}

/-- An accepted request publishes an `open_how` that `openat2` does not reject, and the kernel
reads this one. A refused request hands everything back. -/
def Openat2Law [Native] (dir : DirFd) (path : OwnedPath w) (flags : FlagExpr OpenFlags.named)
    (mode : Openat2Mode) (resolve : FlagExpr ResolveFlags.named) (howStore : Storage w)
    (m : Memory) : Prop :=
  match PreparedOpenat2.at dir path flags.eval mode resolve.eval howStore m with
  | (.ok prepared, m') =>
      (prepared.publishedHow m').Accepted ∧ ∀ ring id,
        kernelHow m'.bytes (prepared.intoPending ring id).1 = some (prepared.publishedHow m')
  | (.error (path', howStore', _), m') => path' = path ∧ howStore' = howStore ∧ m' = m

/-- A request that is not refused keeps to what `openat2` knows exactly when neither flag value
is inverted. -/
theorem openat2Law_iff [Native] (dir : DirFd) (path : OwnedPath w)
    (flags : FlagExpr OpenFlags.named) (mode : Openat2Mode) (resolve : FlagExpr ResolveFlags.named)
    (howStore : Storage w) (m : Memory) :
    Openat2Law dir path flags mode resolve howStore m ↔
      (PreparedOpenat2.Adequate mode howStore →
        flags.inverted = false ∧ resolve.inverted = false) := by
  by_cases hadequate : PreparedOpenat2.Adequate mode howStore
  · rw [Openat2Law, PreparedOpenat2.at_ok dir path flags.eval resolve.eval m hadequate]
    dsimp only
    rw [PreparedOpenat2.publishedHow_publishHow,
      PreparedOpenat2.how_accepted_iff dir path flags resolve hadequate.mode howStore]
    -- the kernel reads what was published, so only the words themselves matter
    constructor
    · rintro ⟨h, -⟩ -
      exact h
    · intro h
      refine ⟨h hadequate, fun ring id => ?_⟩
      rw [PreparedOpenat2.kernelHow_intoPending, PreparedOpenat2.publishedHow_publishHow]
  · obtain ⟨e, he⟩ :=
      PreparedOpenat2.at_refused dir path flags.eval resolve.eval m hadequate
    rw [Openat2Law, he]
    exact iff_of_true ⟨rfl, rfl, rfl⟩ fun h => absurd h hadequate

/-- `!ResolveFlags::NO_XDEV`. -/
def notNoXdev : FlagExpr ResolveFlags.named := .not (.name ResolveFlags.NO_XDEV (by decide))

/-- A path with its terminator at address 64. -/
def etcPath : OwnedPath .w64 := ⟨⟨64, 5, by decide⟩, 4⟩

def howStorage : Storage .w64 := ⟨4096, 24, by decide⟩

/-- The request is accepted, and 58 bits that the kernel does not know are in its `resolve`. -/
theorem notNoXdev_published :
    let m := Memory.of fun _ => 0
    let prepared := @PreparedOpenat2.ofParts .w64 .cwd etcPath ∅ .existing notNoXdev.eval
      howStorage
    @PreparedOpenat2.publishedHow _ ⟨.little⟩ prepared
        (@PreparedOpenat2.publishHow _ ⟨.little⟩ prepared m) = ⟨0, 0, 0xFFFFFFFFFFFFFFFE⟩ ∧
      ¬ @Openat2Law .w64 ⟨.little⟩ .cwd etcPath .empty .existing notNoXdev howStorage m := by
  intro m prepared
  let little : Native := ⟨.little⟩
  refine ⟨?_, ?_⟩
  · rw [PreparedOpenat2.publishedHow_publishHow]
    decide
  · rw [openat2Law_iff]
    intro h
    have hinverted := (h ⟨by decide, by decide, by decide⟩).2
    cases hinverted

end Ququmatz
