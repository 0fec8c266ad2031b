import Ququmatz.Proofs.Ring.Setup
import Ququmatz.Ring.NoMmap

/-!
# `Ququmatz.Proofs.Ring.NoMmap`: the `NO_MMAP` regions are large enough

Over unbounded integers the computation is a formula in the exact counts `exactSq` and
`exactCq` (`allocSizes_unbounded`). A target gives the same numbers as long as the counts fit a
`u32` and the sizes a `usize`, since everything in between is smaller; and what a target gives
always fits, so it gives the same numbers only then (`sizesExact_iff_fits`). For which requests
they fit is arithmetic (`fits_iff_moderate`).

What the kernel accepts is moderate on every target, and there the prediction is the kernel's
own count.
-/

set_option autoImplicit false

namespace Ququmatz

open Lib

/-! ### One operation -/

section Fit

variable {t : Target} {w : Width} {n m : Nat}

/-- What comes out of an operation fits its type. -/
theorem Target.lt_of_arith (h : t.arith w n = some m) : m < 2 ^ w.bits := by
  rw [Target.arith] at h
  split at h
  case isTrue hlt =>
    cases h
    exact hlt
  case isFalse =>
    split at h
    · cases h
    · cases h
      exact Nat.mod_lt _ (Nat.two_pow_pos _)

end Fit

/-! ### The computation over unbounded integers -/

/-- A count, cut down to the kernel's limit where the flag says so. -/
def clampCount (clamp : Bool) (max n : UInt32) : UInt32 := if n > max && clamp then max else n

/-- The number of submission entries. -/
def exactSq (entries : UInt32) (params : IoUringParams) : Nat :=
  ceilPow (clampCount ((⟨params.flags⟩ : SetupFlags).contains SetupFlags.CLAMP)
    IORING_MAX_ENTRIES entries).toNat

/-- The number that was asked for as the number of completion entries. -/
def exactCqAsked (params : IoUringParams) : Nat :=
  ceilPow (clampCount ((⟨params.flags⟩ : SetupFlags).contains SetupFlags.CLAMP)
    IORING_MAX_CQ_ENTRIES params.cqEntries).toNat

/-- A number of completion entries was asked for. -/
def asksCq (params : IoUringParams) : Bool :=
  (⟨params.flags⟩ : SetupFlags).contains SetupFlags.CQSIZE && decide (params.cqEntries > 0)

/-- The number of completion entries. -/
def exactCq (entries : UInt32) (params : IoUringParams) : Nat :=
  if asksCq params then max (exactCqAsked params) (exactSq entries params)
  else min (exactSq entries params * 2) 4294967295

/-- The bytes of the ring region before the rounding. -/
def ringBytesFor (sqEntries cqEntries : Nat) (hasSqArray : Bool) : Nat :=
  256 + cqEntries * 16 + if hasSqArray then sqEntries * 4 else 0

/-- The bytes of the ring region. -/
def exactRingRegion (sqEntries cqEntries : Nat) (hasSqArray : Bool) : Nat :=
  alignUp PAGE_SIZE (ringBytesFor sqEntries cqEntries hasSqArray) + PAGE_SIZE

/-- The bytes of the SQE region. -/
def exactSqesRegion (sqEntries : Nat) : Nat := alignUp PAGE_SIZE (sqEntries * 64)

theorem ringBytesFor_lt (sqEntries cqEntries : Nat) (hasSqArray : Bool) :
    ringBytesFor sqEntries cqEntries hasSqArray + PAGE_SIZE ≤
      exactRingRegion sqEntries cqEntries hasSqArray :=
  Nat.add_le_add_right (le_alignUp (by decide) _) _

theorem ringBytesFor_le (sqEntries cqEntries : Nat) (hasSqArray : Bool) :
    ringBytesFor sqEntries cqEntries hasSqArray ≤ 256 + cqEntries * 16 + sqEntries * 4 := by
  cases hasSqArray with
  | false => exact Nat.le_add_right _ _
  | true => exact Nat.le_refl _

/-- What an exact computation of the sizes gives. -/
def exactSizes (entries : UInt32) (params : IoUringParams) : NoMmapSizes where
  sqEntries := exactSq entries params
  cqEntries := exactCq entries params
  ringRegion :=
    exactRingRegion (exactSq entries params) (exactCq entries params) (hasSqArray params.flags)
  sqesRegion := exactSqesRegion (exactSq entries params)

/-- The counts that `predict_entries` gives, where it does not fail to round. -/
theorem predictEntries_eq (fit : Arith) (entries : UInt32) (params : IoUringParams) :
    fit.predictEntries entries params =
      (fit .w32 (exactSq entries params)).bind fun sq =>
        if asksCq params then (fit .w32 (exactCqAsked params)).map fun cq => (sq, max cq sq)
        else some (sq, min (sq * 2) 4294967295) := by
  unfold Arith.predictEntries
  refine bind_congr fun sq => ?_
  show (if asksCq params = true then _ else _) = _
  split
  · exact Option.map_eq_bind.symm
  · rfl

theorem pageAlign_eq (fit : Arith) (usize : Width) (len : Nat)
    (h : fit usize (alignUp PAGE_SIZE len) = some (alignUp PAGE_SIZE len)) :
    fit.pageAlign usize len = some (alignUp PAGE_SIZE len) := by
  rw [alignUp_eq (by decide)] at h ⊢
  unfold Arith.pageAlign
  split
  · rfl
  · next hmod => rwa [if_neg hmod] at h

/-- The ring region comes out exact where no operation below its size fails. -/
theorem ringRegionSize_eq (fit : Arith) (usize : Width) (sq cq : Nat) (hasSqArray : Bool)
    (h : ∀ n, n ≤ exactRingRegion sq cq hasSqArray → fit usize n = some n) :
    fit.ringRegionSize usize sq cq hasSqArray = some (exactRingRegion sq cq hasSqArray) := by
  -- each operand is below the size, so that no operation fails before the last
  have hle := ringBytesFor_lt sq cq hasSqArray
  have hpage := pageAlign_eq fit usize (ringBytesFor sq cq hasSqArray) (h _ (Nat.le_add_right _ _))
  have hend := h _ (Nat.le_refl _)
  have hheader : fit usize (RINGS_HEADER_SLACK * 2) = some 256 :=
    h 256 (by simp only [ringBytesFor] at hle; omega)
  have hcqes : fit usize (cq * sizeofIoUringCqe) = some (cq * 16) :=
    h (cq * 16) (by simp only [ringBytesFor] at hle; omega)
  have hsize := h (256 + cq * 16) (by simp only [ringBytesFor] at hle; omega)
  cases hasSqArray with
  | false =>
      have hpage : fit.pageAlign usize (256 + cq * 16) = _ := hpage
      simp only [Arith.ringRegionSize, hheader, hcqes, hsize, hpage, Option.bind_eq_bind,
        Option.bind_some, Bool.false_eq_true, if_false, Option.pure_def]
      exact hend
  | true =>
      have hpage : fit.pageAlign usize (256 + cq * 16 + sq * 4) = _ := hpage
      have harray := h (sq * 4) (by simp only [ringBytesFor, if_true] at hle; omega)
      have hsum := h (256 + cq * 16 + sq * 4) (by simp only [ringBytesFor, if_true] at hle; omega)
      simp only [Arith.ringRegionSize, hheader, hcqes, hsize, harray, hsum, hpage,
        Option.bind_eq_bind, Option.bind_some, if_true]
      exact hend

theorem sqesRegionSize_eq (fit : Arith) (usize : Width) (sq : Nat)
    (h : ∀ n, n ≤ exactSqesRegion sq → fit usize n = some n) :
    fit.sqesRegionSize usize sq = some (exactSqesRegion sq) := by
  have hsize : fit usize (sq * sizeofIoUringSqe) = some (sq * 64) :=
    h (sq * 64) (le_alignUp (by decide) _)
  rw [Arith.sqesRegionSize, hsize]
  exact pageAlign_eq fit usize (sq * 64) (h _ (Nat.le_refl _))

/-- The whole computation comes out exact where no operation fails. -/
theorem allocSizes_eq (fit : Arith) (usize : Width) (entries : UInt32) (params : IoUringParams)
    (hsq : fit .w32 (exactSq entries params) = some (exactSq entries params))
    (hcq : asksCq params = true → fit .w32 (exactCqAsked params) = some (exactCqAsked params))
    (hring : ∀ n, n ≤ (exactSizes entries params).ringRegion → fit usize n = some n)
    (hsqes : ∀ n, n ≤ (exactSizes entries params).sqesRegion → fit usize n = some n) :
    fit.allocSizes usize entries params = some (exactSizes entries params) := by
  have hpredict : fit.predictEntries entries params =
      some (exactSq entries params, exactCq entries params) := by
    rw [predictEntries_eq, hsq, Option.bind_some, exactCq]
    split
    case isTrue h => rw [hcq h, Option.map_some]
    case isFalse => rfl
  have hr := ringRegionSize_eq fit usize _ _ _ hring
  have hs := sqesRegionSize_eq fit usize _ hsqes
  simp only [Arith.allocSizes, hpredict, hr, hs, Option.bind_eq_bind, Option.bind_some]
  rfl

theorem allocSizes_unbounded (usize : Width) (entries : UInt32) (params : IoUringParams) :
    Arith.unbounded.allocSizes usize entries params = some (exactSizes entries params) :=
  allocSizes_eq _ _ _ _ rfl (fun _ => rfl) (fun _ _ => rfl) (fun _ _ => rfl)

/-! ### When the numbers fit -/

/-- The numbers fit their types. -/
structure NoMmapSizes.Fits (s : NoMmapSizes) (usize : Width) : Prop where
  sqEntries : s.sqEntries < 2 ^ 32
  cqEntries : s.cqEntries < 2 ^ 32
  ringRegion : s.ringRegion < 2 ^ usize.bits
  sqesRegion : s.sqesRegion < 2 ^ usize.bits

section Fits

variable {t : Target} {entries : UInt32} {params : IoUringParams} {s : NoMmapSizes}

theorem lt_of_predictEntries {sq cq : Nat}
    (h : t.arith.predictEntries entries params = some (sq, cq)) : sq < 2 ^ 32 ∧ cq < 2 ^ 32 := by
  rw [predictEntries_eq] at h
  obtain ⟨sq', hsq, h⟩ := Option.bind_eq_some_iff.mp h
  have hlt : sq' < 2 ^ 32 := Target.lt_of_arith hsq
  split at h
  · obtain ⟨cq', hcq, heq⟩ := Option.map_eq_some_iff.mp h
    have hlt' : cq' < 2 ^ 32 := Target.lt_of_arith hcq
    cases heq
    omega
  · cases h
    omega

theorem lt_of_ringRegionSize {sq cq n : Nat} {hasSqArray : Bool}
    (h : t.arith.ringRegionSize t.usize sq cq hasSqArray = some n) : n < 2 ^ t.usize.bits := by
  simp only [Arith.ringRegionSize, Option.bind_eq_bind] at h
  obtain ⟨_, _, h⟩ := Option.bind_eq_some_iff.mp h
  obtain ⟨_, _, h⟩ := Option.bind_eq_some_iff.mp h
  obtain ⟨size, _, h⟩ := Option.bind_eq_some_iff.mp h
  -- Either way the last operation is the addition of the page.
  cases hasSqArray with
  | false =>
      obtain ⟨_, _, hend⟩ := Option.bind_eq_some_iff.mp h
      exact Target.lt_of_arith hend
  | true =>
      obtain ⟨_, _, h⟩ := Option.bind_eq_some_iff.mp h
      obtain ⟨_, _, h⟩ := Option.bind_eq_some_iff.mp h
      obtain ⟨_, _, hend⟩ := Option.bind_eq_some_iff.mp h
      exact Target.lt_of_arith hend

theorem lt_of_sqesRegionSize {sq n : Nat} (h : t.arith.sqesRegionSize t.usize sq = some n) :
    n < 2 ^ t.usize.bits := by
  obtain ⟨len, hlen, h⟩ := Option.bind_eq_some_iff.mp h
  rw [Arith.pageAlign] at h
  split at h
  · cases h
    exact Target.lt_of_arith hlen
  · exact Target.lt_of_arith h

/-- What a target gives fits, in every case. -/
theorem fits_of_allocSizes (h : t.allocSizes entries params = some s) : s.Fits t.usize := by
  simp only [Target.allocSizes, Arith.allocSizes, Option.bind_eq_bind,
    Option.bind_eq_some_iff] at h
  obtain ⟨⟨sq, cq⟩, hpredict, ring, hring, sqes, hsqes, heq⟩ := h
  cases heq
  exact ⟨(lt_of_predictEntries hpredict).1, (lt_of_predictEntries hpredict).2,
    lt_of_ringRegionSize hring, lt_of_sqesRegionSize hsqes⟩

theorem allocSizes_of_fits (h : (exactSizes entries params).Fits t.usize) :
    t.allocSizes entries params = some (exactSizes entries params) := by
  refine allocSizes_eq _ _ _ _ (Target.arith_of_lt h.sqEntries) (fun hasks => ?_)
    (fun n hn => Target.arith_of_lt (Nat.lt_of_le_of_lt hn h.ringRegion))
    (fun n hn => Target.arith_of_lt (Nat.lt_of_le_of_lt hn h.sqesRegion))
  have hcq : exactCq entries params < 2 ^ 32 := h.cqEntries
  rw [exactCq, if_pos hasks] at hcq
  exact Target.arith_of_lt (Nat.lt_of_le_of_lt (Nat.le_max_left _ _) hcq)

theorem sizesExact_iff_fits :
    t.SizesExact entries params ↔ (exactSizes entries params).Fits t.usize := by
  rw [Target.SizesExact, allocSizes_unbounded]
  exact ⟨fits_of_allocSizes, allocSizes_of_fits⟩

/-! ### For which requests they fit -/

theorem clampCount_le (max n : UInt32) : (clampCount true max n).toNat ≤ max.toNat := by
  rw [clampCount, Bool.and_true]
  split
  · exact Nat.le_refl _
  · next h => exact Nat.le_of_not_lt fun hlt => h (decide_eq_true hlt)

@[simp] theorem clampCount_false (max n : UInt32) : clampCount false max n = n := by
  rw [clampCount, Bool.and_false]
  rfl

theorem exactCqAsked_le (hasks : asksCq params = true) :
    exactCqAsked params ≤ exactCq entries params := by
  rw [exactCq, if_pos hasks]
  exact Nat.le_max_left _ _

/-- A count that fits a `u32`, and whose entries fit a `usize`: on 32 bits the entries are what
limits it. -/
theorem le_of_ceil_fits (w : Width) {n size k : Nat} (hsize : 2 ^ (k + 1) * size = 2 ^ 32)
    (hcount : ceilPow n < 2 ^ 32) :
    ceilPow n * size < 2 ^ w.bits → n ≤ match w with
      | .w32 => 2 ^ k
      | .w64 => 2 ^ 31 := by
  intro hfits
  cases w with
  | w32 =>
      rw [show Width.w32.bits = 32 from rfl, ← hsize] at hfits
      exact ceilPow_lt_pow.mp (Nat.lt_of_mul_lt_mul_right hfits)
  | w64 => exact ceilPow_lt_pow.mp hcount

/-- Counts and sizes that fit were asked for moderately. -/
theorem moderate_of_fits (h : (exactSizes entries params).Fits t.usize) :
    t.Moderate entries params := by
  by_cases hclamp : (⟨params.flags⟩ : SetupFlags).contains SetupFlags.CLAMP = true
  · exact Or.inl hclamp
  have hsq : exactSq entries params = ceilPow entries.toNat := by
    rw [exactSq, Bool.eq_false_iff.mpr hclamp, clampCount_false]
  have hcq : exactCqAsked params = ceilPow params.cqEntries.toNat := by
    rw [exactCqAsked, Bool.eq_false_iff.mpr hclamp, clampCount_false]
  have hsqes : ceilPow entries.toNat * 64 < 2 ^ t.usize.bits := by
    have hlt : exactSqesRegion (exactSq entries params) < 2 ^ t.usize.bits := h.sqesRegion
    rw [hsq] at hlt
    exact Nat.lt_of_le_of_lt (le_alignUp (by decide) _) hlt
  have hcqLt : exactCq entries params < 2 ^ 32 := h.cqEntries
  -- the CQEs are part of the ring region
  have hring : exactCq entries params * 16 < 2 ^ t.usize.bits := by
    have hlt : exactRingRegion _ _ _ < 2 ^ t.usize.bits := h.ringRegion
    have hle := ringBytesFor_lt (exactSq entries params) (exactCq entries params)
      (hasSqArray params.flags)
    simp only [ringBytesFor] at hle
    omega
  refine Or.inr ⟨?_, fun hcqsize => ?_⟩
  · exact le_of_ceil_fits t.usize (k := 25) (by decide) (hsq ▸ h.sqEntries) hsqes
  · -- a request for no completion entries asks for none
    by_cases hzero : params.cqEntries.toNat = 0
    · rw [hzero]
      exact Nat.zero_le _
    have hasks : asksCq params = true := by
      rw [asksCq, hcqsize, Bool.true_and, decide_eq_true_eq, gt_iff_lt, UInt32.lt_iff_toNat_lt]
      exact Nat.pos_of_ne_zero hzero
    have hle : exactCqAsked params ≤ exactCq entries params := exactCqAsked_le hasks
    rw [hcq] at hle
    exact le_of_ceil_fits t.usize (k := 27) (by decide) (Nat.lt_of_le_of_lt hle hcqLt)
      (Nat.lt_of_le_of_lt (Nat.mul_le_mul_right 16 hle) hring)

/-- The counts of a moderate request. -/
theorem counts_le (h : t.Moderate entries params) :
    exactSq entries params ≤ t.maxSqEntries ∧
      (asksCq params = true → exactCqAsked params ≤ t.maxCqEntries) := by
  rcases h with hclamp | ⟨hsq, hcq⟩
  · -- clamped: the limits are powers of two, so rounding up does not pass them
    have hsq : exactSq entries params ≤ 2 ^ 15 := by
      rw [exactSq, hclamp]
      exact ceilPow_le_pow.mpr (clampCount_le _ _)
    have hcq : exactCqAsked params ≤ 2 ^ 16 := by
      rw [exactCqAsked, hclamp]
      exact ceilPow_le_pow.mpr (clampCount_le _ _)
    cases hw : t.usize <;> simp only [Target.maxSqEntries, Target.maxCqEntries, hw] <;>
      exact ⟨by omega, fun _ => by omega⟩
  · have hpow : ∀ (max n : UInt32) (clamp : Bool) (k : Nat), n.toNat ≤ 2 ^ k →
        ceilPow (clampCount clamp max n).toNat ≤ 2 ^ k := by
      intro max n clamp k hn
      refine ceilPow_le_pow.mpr (Nat.le_trans ?_ hn)
      rw [clampCount]
      split
      · next h =>
          exact Nat.le_of_lt (UInt32.lt_iff_toNat_lt.mp (of_decide_eq_true
            ((Bool.and_eq_true_iff.mp h).1)))
      · exact Nat.le_refl _
    have hsize : asksCq params = true → params.cqEntries.toNat ≤ t.maxCqEntries :=
      fun hasks => hcq (Bool.and_eq_true_iff.mp hasks).1
    cases hw : t.usize <;> simp only [Target.maxSqEntries, Target.maxCqEntries, hw] at hsq hsize ⊢
    · exact ⟨hpow _ _ _ 25 hsq, fun hasks => hpow _ _ _ 27 (hsize hasks)⟩
    · exact ⟨hpow _ _ _ 31 hsq, fun hasks => hpow _ _ _ 31 (hsize hasks)⟩

theorem fits_of_moderate (h : t.Moderate entries params) :
    (exactSizes entries params).Fits t.usize := by
  obtain ⟨hsq, hasked⟩ := counts_le h
  -- With no number asked for, there are twice as many completion entries.
  have hcq : exactCq entries params ≤
      max (max t.maxCqEntries t.maxSqEntries) (min (t.maxSqEntries * 2) 4294967295) := by
    rw [exactCq]
    split
    case isTrue hasks =>
      have := hasked hasks
      omega
    case isFalse => omega
  have hring : exactRingRegion (exactSq entries params) (exactCq entries params)
      (hasSqArray params.flags) ≤
        256 + exactCq entries params * 16 + exactSq entries params * 4 + 4096 + 4096 := by
    have hlt := alignUp_lt (a := PAGE_SIZE) (by decide)
      (ringBytesFor (exactSq entries params) (exactCq entries params) (hasSqArray params.flags))
    have hle := ringBytesFor_le (exactSq entries params) (exactCq entries params)
      (hasSqArray params.flags)
    have hpage : PAGE_SIZE = 4096 := rfl
    rw [exactRingRegion]
    omega
  have hsqes : exactSqesRegion (exactSq entries params) < exactSq entries params * 64 + 4096 :=
    alignUp_lt (by decide) _
  cases hw : t.usize <;> simp only [Target.maxSqEntries, Target.maxCqEntries, hw] at hsq hcq
  · have hbits : 2 ^ Width.w32.bits = 4294967296 := rfl
    exact ⟨by show exactSq _ _ < _; omega, by show exactCq _ _ < _; omega,
      by show exactRingRegion _ _ _ < _; omega, by show exactSqesRegion _ < _; omega⟩
  · have hbits : 2 ^ Width.w64.bits = 18446744073709551616 := rfl
    exact ⟨by show exactSq _ _ < _; omega, by show exactCq _ _ < _; omega,
      by show exactRingRegion _ _ _ < _; omega, by show exactSqesRegion _ < _; omega⟩

end Fits

/-- The size computation neither panics nor wraps exactly when `CLAMP` cuts the counts down, or
the caller asks for at most `2^31` entries of each kind; with a `usize` of 32 bits, for at most
`2^25` and `2^27`. -/
theorem sizesExact_iff (t : Target) (entries : UInt32) (params : IoUringParams) :
    t.SizesExact entries params ↔ t.Moderate entries params :=
  sizesExact_iff_fits.trans ⟨moderate_of_fits, fits_of_moderate⟩

/-- A request for `2^31 + 1` entries on a target of 64 bits: `next_power_of_two` panics, or
comes out as zero. -/
theorem sizes_not_exact :
    ¬ ∀ (t : Target) (entries : UInt32) (params : IoUringParams), t.SizesExact entries params :=
  fun h => absurd
    (moderate_of_fits (sizesExact_iff_fits.mp
      (h ⟨.w64, false⟩ 2147483649 ⟨0, 0, 0, 0, ⟨0, 0⟩, ⟨0, 0⟩⟩)))
    (by decide)

/-! ### The sizes of the setup path -/

theorem nextPowerOfTwo_toNat (n : UInt32) :
    (nextPowerOfTwo n).toNat = ceilPow n.toNat % 2 ^ 32 := by
  rw [nextPowerOfTwo]
  split
  case isTrue h =>
    have hle : n.toNat ≤ 2 ^ 0 := UInt32.le_iff_toNat_le.mp h
    have hone : ceilPow n.toNat = 1 :=
      Nat.le_antisymm (ceilPow_le_pow.mpr hle) (ceilPow_pos _)
    rw [hone]
    rfl
  case isFalse h =>
    have hlt : 1 < n.toNat := Nat.lt_of_not_le fun hle => h (UInt32.le_iff_toNat_le.mpr hle)
    rw [ceilPow_eq_log2 hlt, UInt32.toNat_ofNat']

theorem release_arith (usize w : Width) (n : Nat) :
    (⟨usize, false⟩ : Target).arith w n = some (n % 2 ^ w.bits) := by
  rw [Target.arith]
  split
  · next h => rw [Nat.mod_eq_of_lt h]
  · rfl

theorem toNat_max (a b : UInt32) : (max a b).toNat = max a.toNat b.toNat := by
  show (if a ≤ b then b else a).toNat = _
  split
  case isTrue h => rw [Nat.max_eq_right (UInt32.le_iff_toNat_le.mp h)]
  case isFalse h =>
    rw [Nat.max_eq_left (Nat.le_of_not_le fun hle => h (UInt32.le_iff_toNat_le.mpr hle))]

theorem saturating_double (n : UInt32) :
    (if n.toNat * 2 < 2 ^ 32 then n * 2 else 4294967295).toNat = min (n.toNat * 2) 4294967295 := by
  have hlt := n.toNat_lt
  split
  case isTrue h =>
    rw [UInt32.toNat_mul, show (2 : UInt32).toNat = 2 from rfl, Nat.mod_eq_of_lt h]
    omega
  case isFalse h =>
    rw [show (4294967295 : UInt32).toNat = 4294967295 from rfl]
    omega

/-- The counts of the setup path are those of a build without overflow checks. -/
theorem predictEntries_release (usize : Width) (entries : UInt32) (params : IoUringParams) :
    (⟨usize, false⟩ : Target).arith.predictEntries entries params =
      some ((predictEntries entries params).1.toNat, (predictEntries entries params).2.toNat) := by
  let cq := clampCount ((⟨params.flags⟩ : SetupFlags).contains SetupFlags.CLAMP)
    IORING_MAX_CQ_ENTRIES params.cqEntries
  have hsq : (predictEntries entries params).1.toNat = exactSq entries params % 2 ^ 32 :=
    nextPowerOfTwo_toNat _
  have hcq : (nextPowerOfTwo cq).toNat = exactCqAsked params % 2 ^ 32 := nextPowerOfTwo_toNat _
  have hsecond : (predictEntries entries params).2 =
      if asksCq params then max (nextPowerOfTwo cq) (predictEntries entries params).1
      else if (predictEntries entries params).1.toNat * 2 < 2 ^ 32
        then (predictEntries entries params).1 * 2 else 4294967295 := rfl
  rw [predictEntries_eq, release_arith, Option.bind_some, release_arith, Option.map_some,
    show Width.w32.bits = 32 from rfl, ← hsq, ← hcq, hsecond]
  split
  · rw [toNat_max]
  · rw [saturating_double]

/-- The sizes of the setup path are those of a 64-bit build without overflow checks. -/
theorem allocSizes_release (entries : UInt32) (params : IoUringParams) :
    (⟨.w64, false⟩ : Target).allocSizes entries params =
      some
        { sqEntries := (predictEntries entries params).1.toNat
          cqEntries := (predictEntries entries params).2.toNat
          ringRegion := ringRegionSize (predictEntries entries params).1
            (predictEntries entries params).2 (hasSqArray params.flags)
          sqesRegion := sqesRegionSize (predictEntries entries params).1 } := by
  -- two counts of 32 bits give regions far below 2 ^ 64
  generalize hp : predictEntries entries params = p
  have hpredict := predictEntries_release .w64 entries params
  have hsq := p.1.toNat_lt
  have hcq := p.2.toNat_lt
  have hle := ringBytesFor_le p.1.toNat p.2.toNat (hasSqArray params.flags)
  have hup := alignUp_lt (a := PAGE_SIZE) (by decide)
    (ringBytesFor p.1.toNat p.2.toNat (hasSqArray params.flags))
  have hup' := alignUp_lt (a := PAGE_SIZE) (by decide) (p.1.toNat * 64)
  have hpage : PAGE_SIZE = 4096 := rfl
  have hbits : 2 ^ Width.w64.bits = 18446744073709551616 := rfl
  have hring := ringRegionSize_eq (⟨.w64, false⟩ : Target).arith .w64 p.1.toNat
    p.2.toNat (hasSqArray params.flags) fun n hn =>
    Target.arith_of_lt (by rw [exactRingRegion] at hn; omega)
  have hsqes := sqesRegionSize_eq (⟨.w64, false⟩ : Target).arith .w64 p.1.toNat
    fun n hn => Target.arith_of_lt (by rw [exactSqesRegion] at hn; omega)
  have hringEq : exactRingRegion p.1.toNat p.2.toNat (hasSqArray params.flags) =
      ringRegionSize p.1 p.2 (hasSqArray params.flags) := by
    cases hasSqArray params.flags <;> rfl
  rw [hp] at hpredict
  rw [hringEq] at hring
  simp only [Target.allocSizes, Arith.allocSizes, hpredict, Option.bind_eq_bind, Option.bind_some,
    hring, hsqes]
  rfl

/-! ### What the kernel accepts -/

section Kernel

variable {t : Target} {entries : UInt32} {params : IoUringParams} {sq cq : Nat}

theorem kernelLimit_eq {clamp : Bool} {max n : UInt32} {m : Nat}
    (h : kernelLimit clamp max.toNat n.toNat = some m) :
    (clampCount clamp max n).toNat = m ∧ 0 < n.toNat ∧ (clamp = true ∨ n.toNat ≤ max.toNat) := by
  rw [kernelLimit] at h
  split at h
  · cases h
  next hpos =>
    split at h
    case isTrue hle =>
      cases h
      refine ⟨?_, Nat.pos_of_ne_zero hpos, Or.inr hle⟩
      have hnot : ¬ n > max := fun hgt => Nat.not_lt.mpr hle (UInt32.lt_iff_toNat_lt.mp hgt)
      rw [clampCount, decide_eq_false hnot]
      rfl
    case isFalse hgt =>
      split at h
      · next hclamp =>
          cases h
          refine ⟨?_, Nat.pos_of_ne_zero hpos, Or.inl hclamp⟩
          have hgt' : n > max := UInt32.lt_iff_toNat_lt.mpr (Nat.lt_of_not_le hgt)
          rw [clampCount, hclamp, decide_eq_true hgt']
          rfl
      · cases h

/-- Counts within the kernel's limits give no target trouble. -/
theorem moderate_of_limits
    (hsq : (⟨params.flags⟩ : SetupFlags).contains SetupFlags.CLAMP = true ∨
      entries.toNat ≤ IORING_MAX_ENTRIES.toNat)
    (hcq : (⟨params.flags⟩ : SetupFlags).contains SetupFlags.CQSIZE = true →
      (⟨params.flags⟩ : SetupFlags).contains SetupFlags.CLAMP = true ∨
        params.cqEntries.toNat ≤ IORING_MAX_CQ_ENTRIES.toNat) (t : Target) :
    t.Moderate entries params := by
  by_cases hclamp : (⟨params.flags⟩ : SetupFlags).contains SetupFlags.CLAMP = true
  · exact Or.inl hclamp
  have hmaxSq : IORING_MAX_ENTRIES.toNat ≤ t.maxSqEntries := by
    cases hw : t.usize <;> simp only [Target.maxSqEntries, hw] <;> decide
  have hmaxCq : IORING_MAX_CQ_ENTRIES.toNat ≤ t.maxCqEntries := by
    cases hw : t.usize <;> simp only [Target.maxCqEntries, hw] <;> decide
  refine Or.inr ⟨?_, fun hcqsize => ?_⟩
  · exact Nat.le_trans (hsq.resolve_left hclamp) hmaxSq
  · exact Nat.le_trans ((hcq hcqsize).resolve_left hclamp) hmaxCq

theorem exactSq_le_of_limit
    (hsq : (⟨params.flags⟩ : SetupFlags).contains SetupFlags.CLAMP = true ∨
      entries.toNat ≤ IORING_MAX_ENTRIES.toNat) : exactSq entries params ≤ 2 ^ 15 := by
  refine ceilPow_le_pow.mpr ?_
  rcases hsq with hclamp | hmax
  · rw [hclamp]
    exact clampCount_le _ _
  · rw [clampCount]
    split
    · exact Nat.le_refl _
    · exact hmax

/-- The kernel's counts are the predicted ones, and no target has trouble with them. -/
theorem counts_of_kernel (h : kernelCounts entries params = some (sq, cq)) (t : Target) :
    exactSq entries params = sq ∧ exactCq entries params = cq ∧ t.Moderate entries params := by
  obtain ⟨n, hn, h⟩ := Option.bind_eq_some_iff.mp h
  have hn : kernelLimit _ IORING_MAX_ENTRIES.toNat entries.toNat = some n := hn
  obtain ⟨hsq, -, hlimit⟩ := kernelLimit_eq hn
  have hsqEq : exactSq entries params = ceilPow n := by rw [exactSq, hsq]
  dsimp only at h
  split at h
  · next hcqsize =>
      obtain ⟨m, hm, h⟩ := Option.bind_eq_some_iff.mp h
      have hm : kernelLimit _ IORING_MAX_CQ_ENTRIES.toNat params.cqEntries.toNat = some m := hm
      obtain ⟨hcq, hpos, hlimit'⟩ := kernelLimit_eq hm
      have hasks : asksCq params = true := by
        rw [asksCq, hcqsize, Bool.true_and, decide_eq_true_eq, gt_iff_lt, UInt32.lt_iff_toNat_lt]
        exact hpos
      have hcqEq : exactCqAsked params = ceilPow m := by rw [exactCqAsked, hcq]
      split at h
      · cases h
      next hnot =>
        cases h
        refine ⟨hsqEq, ?_, moderate_of_limits hlimit (fun _ => hlimit') t⟩
        rw [exactCq, if_pos hasks, hcqEq, hsqEq]
        exact Nat.max_eq_left (Nat.le_of_not_lt hnot)
  · next hcqsize =>
      cases h
      have hasks : asksCq params = false := by
        rw [asksCq, Bool.eq_false_iff.mpr hcqsize, Bool.false_and]
      refine ⟨hsqEq, ?_, moderate_of_limits hlimit (fun hon => absurd hon hcqsize) t⟩
      -- The saturation is far away.
      have hle := exactSq_le_of_limit hlimit
      rw [exactCq, hasks, ← hsqEq]
      show min _ _ = _
      omega

/-- The regions that a build reserves hold what the kernel lays out in them. -/
theorem kernelRingSize_le {header : Nat} (hheader : header ≤ 320) (hasSqArray : Bool) :
    kernelRingSize header sq cq hasSqArray ≤ exactRingRegion sq cq hasSqArray := by
  have hle := ringBytesFor_lt sq cq hasSqArray
  have hup := alignUp_lt (a := 64) (by decide) (header + 16 * cq)
  have hpage : PAGE_SIZE = 4096 := rfl
  rw [kernelRingSize]
  cases hasSqArray <;> simp only [ringBytesFor] at hle ⊢ <;> simp at hle ⊢ <;> omega

/-- What a run of `NoMmapGuard::alloc` reserves has the computed sizes. -/
theorem NoMmapGuard.alloc_returns :
    (NoMmapGuard.alloc entries params).Returns fun res =>
      match res with
      | .error _ => True
      | .ok (guard, _) =>
          guard.ringRegion.len = ringRegionSize (predictEntries entries params).1
            (predictEntries entries params).2 (hasSqArray params.flags) ∧
          guard.sqesRegion.len = sqesRegionSize (predictEntries entries params).1 := by
  intro ringAddr
  cases ringAddr with
  | error e => trivial
  | ok ringAddr =>
      intro sqesAddr
      cases sqesAddr with
      | error e => exact fun _ => trivial
      | ok sqesAddr => exact ⟨rfl, rfl⟩

/-- What the kernel needs of the two regions. -/
def kernelNeeds (header sq cq : Nat) (hasSqArray : Bool) (ringRegion sqesRegion : Nat) : Prop :=
  kernelRingSize header sq cq hasSqArray ≤ ringRegion ∧ 64 * sq ≤ sqesRegion

/-- For every request that the kernel accepts, the prediction is the kernel's own pair of counts,
and both regions are mapped and large enough for the kernel's layout. The sizes are the same on
every target. -/
theorem noMmap_adequate (h : kernelCounts entries params = some (sq, cq)) :
    (predictEntries entries params).1.toNat = sq ∧
      (predictEntries entries params).2.toNat = cq ∧
      (∀ header ≤ 320, ∀ (rs : List OsRound) (os os' : Os) (guard : NoMmapGuard)
          (params' : IoUringParams),
        (NoMmapGuard.alloc entries params).run osMachine rs os = some (.ok (guard, params'), os') →
        .mapping guard.ringRegion ∈ os'.ledger.live ∧ .mapping guard.sqesRegion ∈ os'.ledger.live ∧
          kernelNeeds header sq cq (hasSqArray params.flags) guard.ringRegion.len
            guard.sqesRegion.len) ∧
      ∀ header ≤ 320, ∀ t : Target, ∃ sizes, t.allocSizes entries params = some sizes ∧
        sizes.sqEntries = sq ∧ sizes.cqEntries = cq ∧
        kernelNeeds header sq cq (hasSqArray params.flags) sizes.ringRegion sizes.sqesRegion := by
  -- what the kernel accepts is moderate, so that every target computes the exact sizes
  have hexact : ∀ t : Target, t.allocSizes entries params = some (exactSizes entries params) :=
    fun t => allocSizes_of_fits (fits_of_moderate (counts_of_kernel h t).2.2)
  obtain ⟨hsq, hcq, -⟩ := counts_of_kernel h ⟨.w64, false⟩
  have hneeds : ∀ header ≤ 320, kernelNeeds header sq cq (hasSqArray params.flags)
      (exactSizes entries params).ringRegion (exactSizes entries params).sqesRegion := by
    intro header hheader
    rw [← hsq, ← hcq]
    refine ⟨kernelRingSize_le hheader _, ?_⟩
    rw [Nat.mul_comm]
    exact le_alignUp (by decide) _
  -- the setup computes what a 64-bit target without overflow checks does
  have hsetup := (allocSizes_release entries params).symm.trans (hexact ⟨.w64, false⟩)
  obtain ⟨hsq', hcq', hring, hsqes⟩ := NoMmapSizes.mk.inj (Option.some.inj hsetup)
  refine ⟨hsq'.trans hsq, hcq'.trans hcq, ?_, fun header hheader t =>
    ⟨_, hexact t, hsq, hcq, hneeds header hheader⟩⟩
  intro header hheader rs os os' guard params' hrun
  obtain ⟨hlen, hlen'⟩ := NoMmapGuard.alloc_returns.of_run hrun
  have hview := (NoMmapGuard.alloc_spec (v := os.view) rfl rs os _ os' os.at_view hrun).1
  refine ⟨?_, ?_, ?_⟩
  · exact hview.since.live.mem_iff.mpr (by simp [NoMmapGuard.parts])
  · exact hview.since.live.mem_iff.mpr (by simp [NoMmapGuard.parts])
  · rw [hlen, hlen', hring, hsqes]
    exact hneeds header hheader

end Kernel

/-- A ring of four entries: the run that maps its two regions. -/
theorem noMmap_adequate_four :
    ∃ (guard : NoMmapGuard) (params' : IoUringParams) (os' : Os),
      (NoMmapGuard.alloc 3 ⟨0, 0, 0, 0, ⟨0, 0⟩, ⟨0, 0⟩⟩).run osMachine
        (answers [.mapped 4096, .mapped 65536]) emptyOs = some (.ok (guard, params'), os') ∧
      kernelNeeds 320 4 8 true guard.ringRegion.len guard.sqesRegion.len := by
  have hany : (((NoMmapGuard.alloc 3 ⟨0, 0, 0, 0, ⟨0, 0⟩, ⟨0, 0⟩⟩).run osMachine
      (answers [.mapped 4096, .mapped 65536]) emptyOs).any fun x => x.1.isOk) = true := by
    decide +kernel
  obtain ⟨⟨res, os'⟩, hrun, hok⟩ := (Option.any_eq_true _ _).mp hany
  cases res with
  | error e => cases hok
  | ok x =>
      have hcounts : kernelCounts 3 ⟨0, 0, 0, 0, ⟨0, 0⟩, ⟨0, 0⟩⟩ = some (4, 8) := by decide
      obtain ⟨-, -, hsizes, -⟩ := noMmap_adequate hcounts
      exact ⟨x.1, x.2, os', hrun, (hsizes 320 (by decide) _ _ _ _ _ hrun).2.2⟩

end Ququmatz
