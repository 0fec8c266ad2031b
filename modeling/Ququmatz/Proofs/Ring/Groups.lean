import Ququmatz.Proofs.Ring.Lifetime

/-!
# `Ququmatz.Proofs.Ring.Groups`: which pool a registration belongs to

The kernel finds a registration by its group id, and so does the drop of a pool. `Life.Kept`
says that every live pool has its registration, unless its group id was explicitly
unregistered. The drop of a pool breaks this exactly when another live pool has the
registration of the same group id, which takes an explicit unregistration before
(`pool_registration_kept_iff`). `pool_registration_stolen` is the shortest such run.
-/

set_option autoImplicit false

namespace Ququmatz

open Lib

/-- Another group id, or another descriptor, keeps its registration. -/
theorem withGroup_of_ne {groups : RawFd → UInt16 → Option UInt64} {fd : RawFd}
    {bgid bgid' : UInt16} {reg : Option UInt64} (h : bgid' ≠ bgid) :
    withGroup groups fd bgid reg fd bgid' = groups fd bgid' :=
  if_neg fun heq => h heq.2

@[simp] theorem withGroup_self {groups : RawFd → UInt16 → Option UInt64} {fd : RawFd}
    {bgid : UInt16} {reg : Option UInt64} : withGroup groups fd bgid reg fd bgid = reg :=
  if_pos ⟨rfl, rfl⟩

namespace Life

variable {usizeBits : Nat} {os₀ : Os} {r : OsRing} {page : RingResources} {s s' : Life}
  {a : LifeAction}

/-- In a state in which every pool has its registration, a step keeps this exactly when it is
no drop of a pool whose group id another registered pool has. -/
theorem step_kept_iff (hmade : page.Made r) (h : s.Inv os₀ r page) (hk : s.Kept)
    (hs : s.step usizeBits a = some s') : s'.Kept ↔ s.DropsApart a := by
  obtain ⟨-, heffect⟩ := h.step hmade hs
  cases heffect with
  | same hdrop hpools hgroups =>
      refine ⟨fun _ => ?_, fun _ => ?_⟩
      · cases a with
        | dropPool i rs => exact absurd rfl (hdrop i rs)
        | _ => trivial
      · unfold Kept
        rw [hpools, hgroups]
        exact hk
  | registered pool hfd hbgid hfree hpools hgroups =>
      refine ⟨fun _ => trivial, fun _ x hx hlive => ?_⟩
      rw [hpools] at hx
      rw [hgroups]
      rcases List.mem_append.mp hx with hx | hx
      · -- A pool that has its registration has another group id than the new one.
        have hreg := hk x hx hlive
        rw [(h.pools x hx).1] at hreg ⊢
        rw [withGroup_of_ne, hreg]
        rintro heq
        rw [heq, hfree] at hreg
        cases hreg
      · cases List.mem_singleton.mp hx
        show withGroup _ _ _ _ pool.fd pool.bgid = _
        rw [hfd, hbgid, withGroup_self]
  | @revoked bgid rs hpools hgroups =>
      -- The pools that lose their registration are those that the step marks.
      refine ⟨fun _ => trivial, fun _ x hx hlive => ?_⟩
      rw [hpools] at hx
      obtain ⟨y, hy, rfl⟩ := List.mem_map.mp hx
      by_cases hb : y.pool.bgid = bgid
      · rw [if_pos hb] at hlive
        cases hlive
      · rw [if_neg hb] at hlive ⊢
        have hreg := hk y hy hlive
        rw [(h.pools y hy).1] at hreg ⊢
        rw [hgroups, withGroup_of_ne hb, hreg]
  | dropped x hx hpools hgroups =>
      have hreg : ∀ y ∈ s'.pools, y.revoked = false →
          s.os.groups page.fd y.pool.bgid = some (UInt64.ofNat y.pool.ringAddr) ∧
            y.pool.fd = page.fd := by
        intro y hy hlive
        rw [hpools] at hy
        have hmem := List.eraseIdx_subset hy
        have hfd := (h.pools y hmem).1
        exact ⟨hfd ▸ hk y hmem hlive, hfd⟩
      constructor
      · -- A live pool of the same group id has lost its registration.
        intro hk' x' hx' y hy hlive heq
        rw [hx] at hx'
        cases hx'
        have hy' : y ∈ s'.pools := hpools ▸ hy
        have hsome := hk' y hy' hlive
        rw [hgroups, (hreg y hy' hlive).2, heq, withGroup_self] at hsome
        cases hsome
      · intro hapart y hy hlive
        have hne := hapart x hx y (hpools ▸ hy) hlive
        rw [hgroups, (hreg y hy hlive).2, withGroup_of_ne hne, (hreg y hy hlive).1]

end Life

/-- In every state of a run each live pool has its registration, unless its group id was
explicitly unregistered, if and only if no pool is dropped while another live pool has a
registration under the same group id. -/
theorem pool_registration_kept_iff (usizeBits : Nat) (os₀ os : Os) (entries : UInt32)
    (params : IoUringParams) (rs : List OsRound) (r : OsRing)
    (hsetup : (fromParams entries params).run osMachine rs os₀ = some (.ok r, os))
    (as : List LifeAction) :
    (∀ n s, Life.run usizeBits (as.take n) (Life.start os r) = some s → s.Kept) ↔
      Life.ApartRun usizeBits as (Life.start os r) := by
  obtain ⟨page, groups, hos, hmade⟩ := fromParams_made hsetup
  have hok : IsOkRun (Life.step usizeBits) Life.DropsApart (Life.ApartRun usizeBits) :=
    ⟨fun _ => trivial, fun _ _ _ => Iff.rfl⟩
  have hkept : (Life.start os r).Kept := fun x hx => by cases hx
  exact (Life.isRun usizeBits).prefixes_iff hok (fun _ _ _ h hs => (h.step hmade hs).1)
    (fun _ _ _ h hk hs => Life.step_kept_iff hmade h hk hs) as (Life.start_inv hmade hos) hkept

/-! ### Two pools under one group id -/

/-- A pool is registered, its group id is unregistered, and a second pool takes it. -/
def reRegistered : List LifeAction :=
  [.register 7 2 64 .empty (poolSetup 20480 24576),
    .unregister 7 (answers [.done]),
    .register 7 2 64 .empty (poolSetup 28672 32768)]

/-- As long as no pool is dropped, the second one has its registration. -/
theorem pool_registration_replaced :
    ∃ r os, (fromParams 8 plainParams).run osMachine dualSetup emptyOs = some (.ok r, os) ∧
      ∀ n s, Life.run 64 (reRegistered.take n) (Life.start os r) = some s → s.Kept := by
  obtain ⟨r, os, -, hsetup, -⟩ := dualLife_any reRegistered (fun _ => true) (by decide +kernel)
  refine ⟨r, os, hsetup, (pool_registration_kept_iff 64 emptyOs os 8 plainParams dualSetup r hsetup
    reRegistered).mpr ?_⟩
  exact fun _ _ => ⟨trivial, fun _ _ => ⟨trivial, fun _ _ => ⟨trivial, trivial⟩⟩⟩

def dropFirst : LifeAction := .dropPool 0 (answers (List.replicate 4 .done))

/-- A live pool of group `7`, never unregistered, is left without its registration. -/
def Life.lost (s : Life) : Bool :=
  decide (s.pools.map (fun x => (x.pool.bgid, x.revoked)) = [(7, false)]) && decide (¬ s.Kept)

/-- The drop of the first pool takes the registration of the second, which is live and was never
unregistered. -/
theorem pool_registration_stolen :
    ∃ r os s s', (fromParams 8 plainParams).run osMachine dualSetup emptyOs = some (.ok r, os) ∧
      Life.run 64 reRegistered (Life.start os r) = some s ∧ s.Kept ∧
      s.step 64 dropFirst = some s' ∧
      s'.pools.map (fun x => (x.pool.bgid, x.revoked)) = [(7, false)] ∧ ¬ s'.Kept := by
  obtain ⟨r, os, s, hsetup, hrun, hboth⟩ := dualLife_any reRegistered
    (fun s => decide s.Kept && (s.step 64 dropFirst).any Life.lost) (by decide +kernel)
  obtain ⟨hkept, hdrop⟩ := Bool.and_eq_true_iff.mp hboth
  obtain ⟨s', hstep, hlost⟩ := (Option.any_eq_true _ _).mp hdrop
  obtain ⟨hpools, hlost⟩ := Bool.and_eq_true_iff.mp hlost
  exact ⟨r, os, s, s', hsetup, hrun, of_decide_eq_true hkept, hstep, of_decide_eq_true hpools,
    of_decide_eq_true hlost⟩

end Ququmatz
