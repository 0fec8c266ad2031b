import Ququmatz.Lib.Run
import Ququmatz.Owned.Identity
import Ququmatz.Proofs.Owned.Queue

/-!
# `Ququmatz.Proofs.Owned.Identity`: when two rings share an identity

The counter of `RingId::next` moves with every `split_owned`, also with one that the setup
flags refuse, and after `2^32` calls it comes round. `Process.Inv` says which identity a live
half has: the one of its call. A new pair therefore gets the identity of a live one exactly
when a multiple of `2^32` calls lies between the two, and `ring_ids_distinct_iff` says so for
whole runs. `ring_ids_collide` is such a run: one pair is kept while `2^32 - 1` splits of a
`SINGLE_ISSUER` ring are refused.
-/

set_option autoImplicit false

namespace Ququmatz

open Lib

/-- `split_owned` takes an identity in either case, and the flags decide the rest. -/
theorem IoUring.splitOwned_run {r : IoUring} {counter counter' : UInt32} {rs : List KRound}
    {w w' : World} {res : Except (IoUring × Error) (OwnedSubmitter × OwnedCompleter)}
    (h : (r.splitOwned counter).run ringMachine rs w = some ((res, counter'), w')) :
    counter' = counter + 1 ∧
      ((setupFlagsForbidSplit r.setupFlags = true ∧ ∃ e, res = .error e) ∨
        (setupFlagsForbidSplit r.setupFlags = false ∧
          ∃ sub com, res = .ok (sub, com) ∧ sub.ring = ⟨counter⟩ ∧ com.ring = ⟨counter⟩)) := by
  unfold splitOwned split at h
  by_cases hf : setupFlagsForbidSplit r.setupFlags = true
  · rw [if_pos hf] at h
    obtain ⟨-, hx, -⟩ := Prog.run_ret.mp h
    cases hx
    exact ⟨rfl, Or.inl ⟨hf, _, rfl⟩⟩
  · rw [if_neg hf] at h
    obtain ⟨_, _, _, _, _, -, -, -, h⟩ := run_perform.mp h
    obtain ⟨-, hx, -⟩ := Prog.run_ret.mp h
    cases hx
    exact ⟨rfl, Or.inr ⟨Bool.eq_false_iff.mpr hf, _, _, rfl, rfl, rfl⟩⟩

namespace Process

variable {s s' : Process} {a : ProcessAction}

/-- The counter has moved once for each call, and a half has the identity of its call. -/
structure Inv (s : Process) : Prop where
  counter : s.counter = UInt32.ofNat (1 + s.calls)
  rings : ∀ x ∈ s.halves, x.call < s.calls ∧ x.half.ring = ⟨UInt32.ofNat (1 + x.call)⟩

/-- What a step does. -/
theorem step_cases (h : s.step a = some s') :
    (a.splits = true ∧ ∃ sub com, sub.ring = ⟨s.counter⟩ ∧ com.ring = ⟨s.counter⟩ ∧
        s' = { counter := s.counter + 1
               calls := s.calls + 1
               halves := s.halves ++
                [⟨.submitter sub, s.calls⟩, ⟨.completer com, s.calls⟩] }) ∨
      (a.splits = false ∧ s' = { s with counter := s.counter + 1, calls := s.calls + 1 }) ∨
      (a.splits = false ∧ ∃ i, s' = { s with halves := s.halves.eraseIdx i }) := by
  cases a with
  | splitOwned ring w rs =>
      obtain ⟨⟨⟨res, counter'⟩, w'⟩, hrun, rfl⟩ := Option.map_eq_some_iff.mp h
      obtain ⟨rfl, hcase⟩ := IoUring.splitOwned_run hrun
      rcases hcase with ⟨hf, e, rfl⟩ | ⟨hf, sub, com, rfl, hsub, hcom⟩
      · exact Or.inr (Or.inl ⟨by simp [ProcessAction.splits, hf], rfl⟩)
      · exact Or.inl ⟨by simp [ProcessAction.splits, hf], sub, com, hsub, hcom, rfl⟩
  | dropHalf i =>
      cases h
      exact Or.inr (Or.inr ⟨rfl, i, rfl⟩)

theorem next_counter (h : s.Inv) : s.counter + 1 = UInt32.ofNat (1 + (s.calls + 1)) := by
  rw [h.counter, ← Nat.add_assoc, UInt32.ofNat_add (1 + s.calls) 1]
  rfl

theorem Inv.step (h : s.Inv) (hs : s.step a = some s') : s'.Inv := by
  rcases step_cases hs with ⟨-, sub, com, hsub, hcom, rfl⟩ | ⟨-, rfl⟩ | ⟨-, i, rfl⟩
  · refine ⟨next_counter h, ?_⟩
    intro x hx
    rcases List.mem_append.mp hx with hx | hx
    · exact ⟨Nat.lt_succ_of_lt (h.rings x hx).1, (h.rings x hx).2⟩
    · rw [h.counter] at hsub hcom
      simp only [List.mem_cons, List.not_mem_nil, or_false] at hx
      rcases hx with rfl | rfl
      · exact ⟨Nat.lt_succ_self _, hsub⟩
      · exact ⟨Nat.lt_succ_self _, hcom⟩
  · exact ⟨next_counter h, fun x hx => ⟨Nat.lt_succ_of_lt (h.rings x hx).1, (h.rings x hx).2⟩⟩
  · exact ⟨h.counter, fun x hx => h.rings x (List.eraseIdx_subset hx)⟩

/-- A live half has the identity that is handed out next exactly when a multiple of `2^32`
calls lies between. -/
theorem ring_eq_next (h : s.Inv) {x : LiveHalf} (hx : x ∈ s.halves) :
    x.half.ring = ⟨s.counter⟩ ↔ (s.calls - x.call) % 2 ^ 32 = 0 := by
  obtain ⟨hlt, hring⟩ := h.rings x hx
  rw [hring, h.counter]
  constructor
  · intro heq
    have hval := congrArg (fun id => id.raw.toNat) heq
    simp only [UInt32.toNat_ofNat'] at hval
    omega
  · intro hmod
    refine congrArg RingId.mk (UInt32.toNat_inj.mp ?_)
    rw [UInt32.toNat_ofNat', UInt32.toNat_ofNat']
    omega

/-- The identities stay distinct over a step exactly when a new pair comes at a spaced time. -/
theorem step_distinct_iff (h : s.Inv) (hd : s.Distinct) (hs : s.step a = some s') :
    s'.Distinct ↔ (a.splits = true → s.Spaced) := by
  rcases step_cases hs with ⟨hsplits, sub, com, hsub, hcom, rfl⟩ | ⟨hno, rfl⟩ | ⟨hno, i, rfl⟩
  · have hnew : ∀ y ∈ [⟨.submitter sub, s.calls⟩, (⟨.completer com, s.calls⟩ : LiveHalf)],
        y.call = s.calls ∧ y.half.ring = ⟨s.counter⟩ := by
      intro y hy
      simp only [List.mem_cons, List.not_mem_nil, or_false] at hy
      rcases hy with rfl | rfl
      · exact ⟨rfl, hsub⟩
      · exact ⟨rfl, hcom⟩
    have hold : ∀ x ∈ s.halves, x.call ≠ s.calls := fun x hx => Nat.ne_of_lt (h.rings x hx).1
    constructor
    · -- two identities meet exactly when their calls are a multiple of the counter's range apart
      intro hd' _ x hx hmod
      exact hd' x (List.mem_append_left _ hx) ⟨.submitter sub, s.calls⟩
        (List.mem_append_right _ List.mem_cons_self) (hold x hx)
        (((ring_eq_next h hx).mpr hmod).trans hsub.symm)
    · -- old with old, old with new, new with old; the two new halves share their call
      intro hspaced x hx y hy hne
      rcases List.mem_append.mp hx with hx | hx
      · rcases List.mem_append.mp hy with hy | hy
        · exact hd x hx y hy hne
        · rw [(hnew y hy).2]
          exact fun heq => hspaced hsplits x hx ((ring_eq_next h hx).mp heq)
      · rcases List.mem_append.mp hy with hy | hy
        · rw [(hnew x hx).2]
          exact fun heq => hspaced hsplits y hy ((ring_eq_next h hy).mp heq.symm)
        · exact absurd ((hnew x hx).1.trans (hnew y hy).1.symm) hne
  · exact ⟨fun _ ha => absurd (ha.symm.trans hno) (by simp), fun _ => hd⟩
  · refine ⟨fun _ ha => absurd (ha.symm.trans hno) (by simp), fun _ x hx y hy => ?_⟩
    exact hd x (List.eraseIdx_subset hx) y (List.eraseIdx_subset hy)

/-- Distinct identities keep receipts and tickets of different rings apart. -/
theorem Distinct.separate (h : s.Distinct) : s.Separate := by
  intro x hx y hy hne sub com hsub hcom id cqe receipt hev
  have hring : receipt.ring = com.ring := by
    unfold Event.ofCompletion at hev
    split at hev <;> cases hev
    rfl
  have hdiff := h x hx y hy hne
  rw [hsub, hcom] at hdiff
  unfold Receipt.belongsTo
  rw [Bool.and_eq_false_iff]
  refine Or.inr (beq_eq_false_iff_ne.mpr fun heq => hdiff ?_)
  show sub.ring = com.ring
  rw [← hring]
  exact (congrArg RingId.mk heq).symm

theorem init_inv : init.Inv := ⟨rfl, fun x hx => by cases hx⟩

theorem init_distinct : init.Distinct := fun x hx => by cases hx

theorem isRun : IsRun Process.step Process.run := ⟨fun _ => rfl, fun _ _ _ => rfl⟩

/-- A run is spaced when each of its splits is. -/
theorem isOkRun : IsOkRun Process.step (fun s a => a.splits = true → s.Spaced) SpacedRun :=
  ⟨fun _ => trivial, fun _ _ _ => Iff.rfl⟩

/-- The run lemma: distinct in every state that is passed, exactly for a spaced run. -/
theorem run_distinct_iff (h : s.Inv) (hd : s.Distinct) (as : List ProcessAction) :
    (∀ n t, s.run (as.take n) = some t → t.Distinct) ↔ SpacedRun as s :=
  isRun.prefixes_iff isOkRun (fun _ _ _ hi hs => hi.step hs)
    (fun _ _ _ hi hd hs => step_distinct_iff hi hd hs) as h hd

end Process

/-- In every state of a run the live pairs have identities of their own, and their receipts
and tickets are kept apart, if and only if every pair is made at a spaced time. -/
theorem ring_ids_distinct_iff (as : List ProcessAction) :
    (∀ n s, Process.init.run (as.take n) = some s → s.Distinct ∧ s.Separate) ↔
      Process.SpacedRun as Process.init := by
  rw [← Process.run_distinct_iff Process.init_inv Process.init_distinct as]
  exact ⟨fun h n s hs => (h n s hs).1, fun h n s hs => ⟨h n s hs, (h n s hs).separate⟩⟩

/-! ### A collision -/

/-- A ring that can be split. -/
def splittableRing : IoUring := IoUring.fromParsed Sys.wrapping.world

/-- A `SINGLE_ISSUER` ring, which cannot. -/
def singleIssuerRing : IoUring :=
  { splittableRing with setupFlags := SetupFlags.SINGLE_ISSUER.bits }

/-- A split that is refused touches no memory of its ring. -/
def refusedSplit : ProcessAction := .splitOwned singleIssuerRing Sys.wrapping.world []

def allowedSplit : ProcessAction := .splitOwned splittableRing Sys.wrapping.world [.quiet]

theorem Process.run_refused (n : Nat) (s : Process) :
    s.run (List.replicate n refusedSplit)
      = some { s with counter := s.counter + UInt32.ofNat n, calls := s.calls + n } := by
  induction n generalizing s with
  | zero =>
      show some s = _
      rw [show UInt32.ofNat 0 = 0 from rfl, UInt32.add_zero]
      rfl
  | succ n ih =>
      have hstep : s.step refusedSplit
          = some { s with counter := s.counter + 1, calls := s.calls + 1 } := rfl
      rw [List.replicate_succ, Process.run, hstep, Option.bind_some, ih]
      have hcounter : s.counter + 1 + UInt32.ofNat n = s.counter + UInt32.ofNat (n + 1) := by
        rw [UInt32.add_assoc, UInt32.ofNat_add, UInt32.add_comm 1]
        rfl
      have hcalls : s.calls + 1 + n = s.calls + (n + 1) := by omega
      simp only [hcounter, hcalls]

/-- A pair is made, `2^32 - 1` splits are refused, and a second pair is made. -/
def collidingRun : List ProcessAction :=
  [allowedSplit] ++ List.replicate 4294967295 refusedSplit ++ [allowedSplit]

/-- Both pairs are live and have the same identity. -/
theorem ring_ids_collide :
    ∃ s, Process.init.run collidingRun = some s ∧ ¬ s.Distinct ∧ ¬ s.Separate := by
  have hfirst : ∃ s, Process.init.run [allowedSplit] = some s ∧ s.counter = 2 ∧
      ∃ sub com, s.halves = [⟨.submitter sub, 0⟩, ⟨.completer com, 0⟩] ∧ sub.ring = ⟨1⟩ :=
    ⟨_, rfl, rfl, _, _, rfl, rfl⟩
  obtain ⟨s, hs, hcounter, sub, com, hhalves, hsub⟩ := hfirst
  -- The refused splits bring the counter round to its first value.
  have hround : ∀ t : Process, t.counter = 1 → ∃ t', t.run [allowedSplit] = some t' ∧
      ∃ sub' com', t'.halves
        = t.halves ++ [⟨.submitter sub', t.calls⟩, ⟨.completer com', t.calls⟩] ∧
        com'.ring = ⟨1⟩ := by
    intro t ht
    refine ⟨_, rfl, _, _, rfl, ?_⟩
    show RingId.mk t.counter = ⟨1⟩
    rw [ht]
  obtain ⟨t, ht, sub', com', hnew, hcom'⟩ := hround
    { s with counter := s.counter + UInt32.ofNat 4294967295, calls := s.calls + 4294967295 }
    (by show s.counter + UInt32.ofNat 4294967295 = 1; rw [hcounter]; decide)
  have hx : (⟨.submitter sub, 0⟩ : LiveHalf) ∈ t.halves := by simp [hnew, hhalves]
  have hy : (⟨.completer com', s.calls + 4294967295⟩ : LiveHalf) ∈ t.halves := by simp [hnew]
  have hne : 0 ≠ s.calls + 4294967295 := by omega
  refine ⟨t, ?_, ?_, ?_⟩
  · unfold collidingRun
    rw [Process.isRun.append, Process.isRun.append, hs, Option.bind_some, Process.run_refused,
      Option.bind_some]
    exact ht
  · intro hd
    exact hd _ hx _ hy hne (hsub.trans hcom'.symm)
  · intro hsep
    have hfalse := hsep _ hx _ hy hne sub com' rfl rfl ⟨1⟩ ⟨1, 0, ⟨0⟩⟩
      ⟨com'.ring, ⟨1⟩, 0, ⟨0⟩⟩ rfl
    rw [hsub, hcom'] at hfalse
    exact absurd hfalse (by decide)

end Ququmatz
