import Ququmatz.Pool.Guards
import Ququmatz.Proofs.Pool.Basic

/-!
# `Ququmatz.Proofs.Pool.Guards`: when a guard puts its slot back too early

Neither `CompletedBuffer::drop` nor `Arrival::drop` looks at `BUF_MORE`: both put their slot
back. `Guard.drop_eq` says so once for both. So a run keeps its slots in order exactly when
no guard that is dropped was made of a completion with `BUF_MORE`.
-/

set_option autoImplicit false

namespace Ququmatz

/-- Both kinds of guard drop through `recycle_and_commit`. -/
theorem Guard.drop_eq_recycleAndCommit (g : Guard) (p : ProvidedBufferRing) :
    g.drop p = p.recycleAndCommit g.bufId := by
  cases g with
  | completed lease => rfl
  | arrival a => rfl

/-- Dropping a guard puts its slot back, whatever the flags of its completion were. -/
theorem Guard.drop_eq {g : Guard} {p : ProvidedBufferRing} (h : p.HasSlot g.bufId) :
    g.drop p = .ok (p.recycled g.bufId).commit := by
  rw [g.drop_eq_recycleAndCommit]
  unfold ProvidedBufferRing.recycleAndCommit
  rw [ProvidedBufferRing.recycle_eq h]
  rfl

theorem Guard.drop_panics {g : Guard} {p : ProvidedBufferRing} (h : ¬ p.HasSlot g.bufId) :
    g.drop p = .error .bufIdOutOfRange := by
  rw [g.drop_eq_recycleAndCommit]
  unfold ProvidedBufferRing.recycleAndCommit
  rw [ProvidedBufferRing.recycle_panics h]
  rfl

namespace GuardSys

/-- The registration's descriptors are on the producer ring. -/
def Sound (s : GuardSys) : Prop := s.start ≤ s.pool.produced.length

/-- A later delivery is not the latest one of an earlier descriptor. -/
theorem latest_deliver {s : GuardSys} (g : Guard) (cqe : Completion) (b : UInt16) {k : Nat}
    (hk : k < s.pool.produced.length) : (s.deliver g cqe).latest b k = s.latest b k := by
  unfold latest deliver
  rw [List.filter_append]
  have hlate : ¬ s.pool.produced.length ≤ k := by omega
  simp [hlate]

/-- The delivery just made is the latest of its slot. -/
theorem latest_deliver_self {s : GuardSys} (g : Guard) (cqe : Completion) :
    (s.deliver g cqe).latest g.bufId s.pool.produced.length
      = some ⟨g.bufId, cqe.flags.contains CqeFlags.BUF_MORE, s.pool.produced.length⟩ := by
  unfold latest deliver
  rw [List.filter_append]
  simp

/-- A delivery alone puts nothing back. -/
theorem law_deliver {s : GuardSys} (g : Guard) (cqe : Completion) :
    (s.deliver g cqe).Law ↔ s.Law := by
  refine forall₄_congr fun k e _ he => ?_
  have hk : k < s.pool.produced.length := (List.getElem?_eq_some_iff.mp he).1
  rw [latest_deliver g cqe e.bid hk]

/-- A delivery whose guard is dropped puts its slot back: the law goes on to hold exactly if
the completion had no `BUF_MORE`. -/
theorem law_dropped {s : GuardSys} (h : s.Sound) (g : Guard) (cqe : Completion) :
    GuardSys.Law { s.deliver g cqe with pool := (s.pool.recycled g.bufId).commit } ↔
      s.Law ∧ cqe.flags.contains CqeFlags.BUF_MORE = false := by
  -- the new descriptor stands behind all others
  obtain ⟨e, hbid, hprod⟩ : ∃ e : IoUringBuf, e.bid = g.bufId ∧
      (s.pool.recycled g.bufId).commit.produced = s.pool.produced ++ [e] := ⟨_, rfl, rfl⟩
  have hlatest : ∀ b k,
      GuardSys.latest { s.deliver g cqe with pool := (s.pool.recycled g.bufId).commit } b k
        = (s.deliver g cqe).latest b k := fun _ _ => rfl
  constructor
  · intro hlaw
    constructor
    · intro k e' hk he'
      have hlt : k < s.pool.produced.length := (List.getElem?_eq_some_iff.mp he').1
      obtain ⟨c, hc, hmore⟩ := hlaw k e' hk (by
        rw [hprod, List.getElem?_append_left hlt]
        exact he')
      rw [hlatest, latest_deliver g cqe e'.bid hlt] at hc
      exact ⟨c, hc, hmore⟩
    · obtain ⟨c, hc, hmore⟩ := hlaw s.pool.produced.length e h (by
        rw [hprod]
        exact List.getElem?_concat_length)
      rw [hlatest, hbid, latest_deliver_self g cqe] at hc
      rw [← Option.some.inj hc] at hmore
      exact hmore
  · rintro ⟨hlaw, hmore⟩ k e' hk he'
    rw [hprod] at he'
    rw [hlatest]
    by_cases hlt : k < s.pool.produced.length
    · rw [List.getElem?_append_left hlt] at he'
      rw [latest_deliver g cqe e'.bid hlt]
      exact hlaw k e' hk he'
    · have hlen := (List.getElem?_eq_some_iff.mp he').1
      rw [List.length_append, List.length_singleton] at hlen
      have hkeq : k = s.pool.produced.length := by omega
      subst hkeq
      rw [List.getElem?_concat_length] at he'
      rw [← Option.some.inj he', hbid, latest_deliver_self g cqe]
      exact ⟨_, rfl, hmore⟩

/-- What a step does: it keeps the record sound, and keeps the law exactly if it is final. -/
theorem Sound.step {s s' : GuardSys} (h : s.Sound) {d : Handled} (hs : s.step d = .ok s') :
    s'.Sound ∧ (s'.Law ↔ s.Law ∧ s.final d = true) := by
  unfold GuardSys.step at hs
  cases hg : d.route.guard s.pool d.completion with
  | none =>
      rw [hg] at hs
      cases hs
      exact ⟨h, by simp [final, hg]⟩
  | some g =>
      rw [hg] at hs
      cases hf : d.fate with
      | forgotten =>
          -- the pool is never told
          simp only [hf] at hs
          cases hs
          refine ⟨h, ?_⟩
          rw [law_deliver]
          simp [final, hg, hf]
      | dropped =>
          simp only [hf] at hs
          by_cases hslot : s.pool.HasSlot g.bufId
          · have hdrop : g.drop (s.deliver g d.completion).pool
                = .ok (s.pool.recycled g.bufId).commit := Guard.drop_eq hslot
            rw [hdrop] at hs
            cases hs
            constructor
            · show s.start ≤ (s.pool.produced ++ [_]).length
              rw [List.length_append]
              exact Nat.le_add_right_of_le h
            · rw [law_dropped h]
              have hlt : g.bufId.toUInt32 < s.pool.entries := hslot
              simp [final, hg, hf, hlt]
          · have hdrop : g.drop (s.deliver g d.completion).pool = .error .bufIdOutOfRange :=
              Guard.drop_panics hslot
            rw [hdrop] at hs
            cases hs

/-- A step that panics was about to drop a guard over an id that is no slot. -/
theorem final_of_panic {s : GuardSys} {d : Handled} {e : Panic} (hs : s.step d = .error e) :
    s.final d = true := by
  unfold GuardSys.step at hs
  cases hg : d.route.guard s.pool d.completion with
  | none => simp [final, hg]
  | some g =>
      rw [hg] at hs
      cases hf : d.fate with
      | forgotten => simp [final, hg, hf]
      | dropped =>
          by_cases hslot : s.pool.HasSlot g.bufId
          · have hdrop : g.drop (s.deliver g d.completion).pool
                = .ok (s.pool.recycled g.bufId).commit := Guard.drop_eq hslot
            simp only [hf, hdrop] at hs
            cases hs
          · have hlt : ¬ g.bufId.toUInt32 < s.pool.entries := hslot
            simp [final, hg, hf, hlt]

theorem NeverEarly.law {ds : List Handled} {s : GuardSys} (h : NeverEarly ds s) : s.Law := by
  cases ds with
  | nil => exact h
  | cons d ds => exact h.1

/-- From a state that keeps the law, a run keeps it if and only if all of it is final. -/
theorem Sound.neverEarly_iff {ds : List Handled} {s : GuardSys} (h : s.Sound) (hlaw : s.Law) :
    NeverEarly ds s ↔ allFinal ds s = true := by
  induction ds generalizing s with
  | nil => exact ⟨fun _ => rfl, fun _ => hlaw⟩
  | cons d ds ih =>
      show (s.Law ∧ ∀ s', s.step d = .ok s' → NeverEarly ds s') ↔ (s.final d && _) = true
      rw [Bool.and_eq_true]
      cases hs : s.step d with
      | ok s1 =>
          obtain ⟨h1, hiff⟩ := h.step hs
          constructor
          · rintro ⟨-, hrest⟩
            have hnext := hrest s1 rfl
            exact ⟨(hiff.mp hnext.law).2, (ih h1 hnext.law).mp hnext⟩
          · rintro ⟨hfinal, hrest⟩
            refine ⟨hlaw, fun s' hs' => ?_⟩
            cases hs'
            exact (ih h1 (hiff.mpr ⟨hlaw, hfinal⟩)).mpr hrest
      | error e =>
          -- only a drop over an id that is no slot panics, and it puts nothing back
          refine ⟨fun _ => ⟨final_of_panic hs, rfl⟩, fun _ => ⟨hlaw, fun s' hs' => ?_⟩⟩
          cases hs'

/-- The registration's descriptors need no delivery. -/
theorem law_init (pool : ProvidedBufferRing) : (GuardSys.init pool).Law := by
  intro k e hk he
  have hlt : k < pool.produced.length := (List.getElem?_eq_some_iff.mp he).1
  exact absurd hk (Nat.not_le.mpr hlt)

end GuardSys

/-- Over every pool and every sequence of completions handled through guards, a slot is put
back only after a completion for it without `BUF_MORE`, if and only if no guard over a slot
of the pool that is dropped was made of a completion with `BUF_MORE`. -/
theorem guards_never_early_iff (pool : ProvidedBufferRing) (ds : List Handled) :
    GuardSys.NeverEarly ds (GuardSys.init pool) ↔
      GuardSys.allFinal ds (GuardSys.init pool) = true :=
  GuardSys.Sound.neverEarly_iff (Nat.le_refl _) (GuardSys.law_init pool)

/-- An incremental pool of two slots of 64 bytes. -/
def incrementalPool : ProvidedBufferRing :=
  ((ProvidedBufferRing.mapped ⟨3⟩ 7 2 64 4096 32 8192 128).populate 2).commit

theorem registered_incrementalPool : Registered .INC incrementalPool :=
  ⟨64, ⟨3⟩, 7, 2, 64, [⟨[], .ok 4096⟩, ⟨[], .ok 8192⟩, ⟨[], .ok 0⟩, ⟨[], .ok 0⟩], _, rfl⟩

/-- Ten bytes in slot `1`, which the kernel goes on filling. -/
def partlyFilled : Completion where
  userData := 5
  result := 10
  flags := ⟨CqeFlags.BUFFER.bits ||| CqeFlags.BUF_MORE.bits ||| CqeFlags.MORE.bits |||
    ((1 : UInt32) <<< 16)⟩

/-- A completion with `BUF_MORE`, claimed or recorded, and its guard dropped: the slot is
back on the producer ring while the kernel still fills it. -/
theorem guards_early :
    Registered .INC incrementalPool ∧
    (do
      let s ← (GuardSys.init incrementalPool).step ⟨partlyFilled, .claim, .dropped⟩
      return (s.pool.produced.map IoUringBuf.bid, s.delivered.map Delivered.more))
        = .ok ([0, 1, 1], [true]) ∧
    ¬ GuardSys.NeverEarly [⟨partlyFilled, .claim, .dropped⟩] (GuardSys.init incrementalPool) ∧
    ¬ GuardSys.NeverEarly [⟨partlyFilled, .recv ⟨1⟩ ⟨⟨1⟩, ⟨5⟩, 7, ⟨9⟩⟩, .dropped⟩]
      (GuardSys.init incrementalPool) := by
  have hsound : (GuardSys.init incrementalPool).Sound := Nat.le_refl _
  have hlaw := GuardSys.law_init incrementalPool
  refine ⟨registered_incrementalPool, by decide +kernel, ?_, ?_⟩
  · rw [hsound.neverEarly_iff hlaw]
    decide +kernel
  · rw [hsound.neverEarly_iff hlaw]
    decide +kernel

end Ququmatz
