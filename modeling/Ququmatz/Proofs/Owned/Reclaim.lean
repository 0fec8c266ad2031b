import Ququmatz.Proofs.Owned.Receipts

/-!
# `Ququmatz.Proofs.Owned.Reclaim`: normal redemption gives all memory back

A program that keeps its tickets and receipts loses no memory. `Custody.Keeping` is what such a
program keeps, and `redeem_first` is the progress lemma: a ticket whose request is settled can be
redeemed. By induction on the tickets and the requests that are left, all blocks come back.
-/

set_option autoImplicit false

namespace Ququmatz

open Lib

variable {ι : Type} {K : ι → RequestKind}

namespace Custody

variable {s s' : Custody K}

/-- The step gives no ticket and no receipt away, and uses the owned ring by the push methods. -/
def frugal (s : Custody K) (a : CustodyAction K) : Bool :=
  s.plain a && (s.ownAction a).all s.own.thrifty &&
    match a with
    | .dropTicket _ => false
    | _ => true

/-- Every step of the run is frugal in the state it starts from. -/
def frugalRun : List (CustodyAction K) → Custody K → Bool
  | [], _ => true
  | a :: as, s =>
      s.frugal a &&
        match s.step a with
        | none => false
        | some s' => frugalRun as s'

/-- The action takes a ticket or a request apart. -/
def takesBack : CustodyAction K → Bool
  | .redeem _ _ => true
  | .takeApart _ => true
  | _ => false

/-- What a frugal program keeps. -/
structure Keeping (s : Custody K) (k : Nat) : Prop where
  tracked : s.Tracked
  receipted : s.own.Receipted k
  closed : s.own.Closed
  unleaked : s.leaked = []

theorem Keeping.step {k : Nat} (h : s.Keeping k) {a : CustodyAction K}
    (hk : a.isPush = true → k < 2 ^ 64) (ha : s.frugal a = true) (hs : s.step a = some s')
    (hclosed : s'.own.Closed) : s'.Keeping (if a.isPush then k + 1 else k) := by
  have hdoes := does_of_step h.tracked.tickets hs
  simp only [frugal, plain, Bool.and_eq_true] at ha
  refine ⟨h.tracked.step hs, ?_, hclosed, ?_⟩
  · rcases hdoes.own with ⟨hnone, hsame⟩ | ⟨b, hb, hstep⟩
    · rw [hsame]
      cases hdoes <;> first | exact h.receipted | (simp_all [ownAction])
    · rw [← isPush_own hs hb] at hk ⊢
      rw [hb] at ha
      exact h.receipted.step hk ha.1.1 ha.1.2 hstep hclosed
  · cases hdoes with
    | dropTicket _ _ => exact absurd ha.2 (by simp)
    | _ => exact h.unleaked

theorem Keeping.run {k : Nat} (h : s.Keeping k) {as : List (CustodyAction K)}
    (hc : frugalRun as s = true) (hcount : k + as.countP CustodyAction.isPush ≤ 2 ^ 64)
    (hr : s.run as = some s') (hclosed : s'.own.Closed) : ∃ n, s'.Keeping n := by
  induction as generalizing s k with
  | nil =>
      cases hr
      exact ⟨k, h⟩
  | cons a as ih =>
      obtain ⟨s1, h1, h2⟩ := Option.bind_eq_some_iff.mp hr
      simp only [frugalRun, h1, Bool.and_eq_true] at hc
      rw [List.countP_cons] at hcount
      have hk : a.isPush = true → k < 2 ^ 64 := by
        intro hpush
        rw [if_pos hpush] at hcount
        omega
      have hclosed1 := hclosed.of_grows ((h.tracked.step h1).run_grows h2)
      exact ih (h.step hk hc.1 h1 hclosed1) hc.2 (count_next hcount) h2

/-! ### Progress -/

/-- The first ticket, when its request is settled, can be redeemed. -/
theorem Keeping.redeem_first {k : Nat} (h : s.Keeping k) {t : Taken K} {ts : List (Taken K)}
    (ht : s.tickets = t :: ts) (hset : s.own.settled t.slot = true) :
    ∃ j s', s.step (.redeem 0 j) = some s' ∧ s'.tickets = ts ∧ s'.requests = s.requests ∧
      s'.own.sys = s.own.sys ∧ s'.hand = s.hand ++ t.memory ∧ s'.freed = s.freed ∧
      s'.allocated = s.allocated := by
  have hheld : s.own.tickets = t.held :: ts.map Taken.held := by
    rw [h.tracked.tickets, ht]
    rfl
  have hmem : t.held ∈ s.own.tickets := hheld ▸ List.mem_cons_self
  obtain ⟨r, hr, hacc⟩ := (h.receipted.opens_iff hmem).mpr hset
  obtain ⟨j, hj⟩ := List.mem_iff_getElem?.mp hr
  have hown := OwnedSys.redeem_eq (i := 0) (h := t.held) (by rw [hheld]; rfl) hj
  rw [if_pos hacc] at hown
  have hbelongs : r.belongsTo t.ring t.id = true := hacc
  rcases (K t.kind).redeem_cases t.request t.ring t.id r with
    ⟨-, done, hredeem, hback⟩ | ⟨hno, -⟩
  · have hstep : s.step (.redeem 0 j) = s.redeem 0 j := rfl
    have hfirst : s.tickets[0]? = some t := by rw [ht]; rfl
    unfold Custody.redeem at hstep
    rw [hfirst, hj] at hstep
    simp only [hown, Option.map_some, Taken.pending, hredeem] at hstep
    refine ⟨j, _, hstep, ?_, rfl, rfl, ?_, rfl, rfl⟩
    · rw [ht]
      rfl
    · rw [t.memory_eq, hback]
  · rw [hbelongs] at hno
    cases hno

/-- All tickets, when their requests are settled, can be redeemed. -/
theorem Keeping.redeem_all {k : Nat} (h : s.Keeping k)
    (hset : ∀ t ∈ s.tickets, s.own.settled t.slot = true) :
    ∃ bs s', (∀ b ∈ bs, takesBack b = true) ∧ s.run bs = some s' ∧ s'.Keeping k ∧
      s'.tickets = [] ∧ s'.freed = s.freed ∧ s'.allocated = s.allocated := by
  generalize hts : s.tickets = ts at hset
  induction ts generalizing s with
  | nil => exact ⟨[], s, (fun b hb => by cases hb), rfl, h, hts, rfl, rfl⟩
  | cons t ts ih =>
      rw [List.forall_mem_cons] at hset
      obtain ⟨j, s1, hstep, ht1, -, hsys, -, hfreed, halloc⟩ := h.redeem_first hts hset.1
      have hclosed : s1.own.Closed := by
        unfold OwnedSys.Closed
        rw [hsys]
        exact h.closed
      have h1 := h.step (fun hpush => by cases hpush) rfl hstep hclosed
      have hset1 : ∀ u ∈ ts, s1.own.settled u.slot = true := by
        unfold OwnedSys.settled
        rw [hsys]
        exact hset.2
      obtain ⟨bs, s2, hbs, hrun, h2, ht2, hfreed2, halloc2⟩ := ih h1 ht1 hset1
      refine ⟨.redeem 0 j :: bs, s2, ?_, ?_, h2, ht2, hfreed2.trans hfreed,
        halloc2.trans halloc⟩
      · exact List.forall_mem_cons.mpr ⟨rfl, hbs⟩
      · exact isRun.cons_eq_some.mpr ⟨s1, hstep, hrun⟩

/-- So can all requests that are not queued be taken apart. -/
theorem takeApart_all (s : Custody K) :
    ∃ bs s', (∀ b ∈ bs, takesBack b = true) ∧ s.run bs = some s' ∧ s'.requests = [] ∧
      s'.tickets = s.tickets ∧ s'.leaked = s.leaked ∧ s'.freed = s.freed ∧
      s'.allocated = s.allocated := by
  generalize hqs : s.requests = qs
  induction qs generalizing s with
  | nil => exact ⟨[], s, (fun b hb => by cases hb), rfl, hqs, rfl, rfl, rfl, rfl⟩
  | cons q qs ih =>
      have hfirst : s.requests[0]? = some q := by rw [hqs]; rfl
      let s1 : Custody K := { s with
        hand := s.hand ++ (K q.1).holds q.2
        requests := s.requests.eraseIdx 0 }
      have hstep : s.step (.takeApart 0) = some s1 := by
        show (s.requests[0]?).map _ = _
        rw [hfirst]
        rfl
      have hrest : s1.requests = qs := by
        show s.requests.eraseIdx 0 = qs
        rw [hqs]
        rfl
      obtain ⟨bs, s2, hbs, hrun, hq2, hsame⟩ := ih s1 hrest
      refine ⟨.takeApart 0 :: bs, s2, List.forall_mem_cons.mpr ⟨rfl, hbs⟩, ?_, hq2, hsame⟩
      exact isRun.cons_eq_some.mpr ⟨s1, hstep, hrun⟩

/-- With no ticket, no request and no leak, what was not freed is in hand. -/
theorem Tracked.all_in_hand (h : s.Tracked) (ht : s.tickets = []) (hq : s.requests = [])
    (hl : s.leaked = []) : (s.hand ++ s.freed).Perm s.allocated := by
  have hbalance := h.balance
  simpa [Loans.all, Loans.out, loans, prepared, ht, hq, hl] using hbalance

end Custody

section Methods

variable [Native] {B R : Type} [StableBuffer B] [StableBuffer R] {w : Width} {packed : Bool}

/-- When the requests of a frugal program are settled, redeeming its tickets and taking apart its
requests succeeds, and then the program has all the memory that it did not free. -/
theorem memory_reclaimed (params : RingParams) (resources : RingResources)
    (sqStart cqStart : UInt32) (sqArray : Nat → UInt32) (sqes : Nat → Sqe) (cqes : Nat → Cqe)
    (as : List (CustodyAction (PushMethod.kind B R w packed)))
    (s : Custody (PushMethod.kind B R w packed))
    (hr : (Custody.start B R w packed
      (Sys.init params resources sqStart cqStart sqArray sqes cqes)).run as = some s)
    (hclosed : s.own.Closed)
    (hfrugal : Custody.frugalRun as (Custody.start B R w packed
      (Sys.init params resources sqStart cqStart sqArray sqes cqes)) = true)
    (hcount : as.countP CustodyAction.isPush ≤ 2 ^ 64)
    (hset : ∀ t ∈ s.tickets, s.own.settled t.slot = true) :
    ∃ bs s', (∀ b ∈ bs, Custody.takesBack b = true) ∧ s.run bs = some s' ∧
      s'.freed = s.freed ∧ (s'.hand ++ s.freed).Perm s.allocated := by
  have hstart : (Custody.start B R w packed
      (Sys.init params resources sqStart cqStart sqArray sqes cqes)).Keeping 0 := by
    refine ⟨Custody.ofSys_tracked _,
      OwnedSys.ofSys_receipted params resources sqStart cqStart sqArray sqes cqes, ?_, rfl⟩
    have hposted := Sys.init_posted params resources sqStart cqStart sqArray sqes cqes
    intro p hp
    replace hp : p ∈ (Sys.init params resources sqStart cqStart sqArray sqes cqes).world.posted :=
      hp
    rw [hposted] at hp
    cases hp
  obtain ⟨k, hk⟩ := hstart.run hfrugal (by omega) hr hclosed
  obtain ⟨bs, s1, hbs, hrun1, h1, ht1, hfreed1, halloc1⟩ := hk.redeem_all hset
  obtain ⟨cs, s2, hcs, hrun2, hq2, ht2, hl2, hfreed2, halloc2⟩ := Custody.takeApart_all s1
  have hrun : s.run (bs ++ cs) = some s2 := by
    rw [Custody.isRun.append, hrun1]
    exact hrun2
  have hhand := (h1.tracked.run hrun2).all_in_hand (ht2.trans ht1) hq2 (hl2.trans h1.unleaked)
  refine ⟨bs ++ cs, s2, fun b hb => ?_, hrun, hfreed2.trans hfreed1, ?_⟩
  · exact (List.mem_append.mp hb).elim (hbs b) (hcs b)
  · rw [hfreed2, hfreed1, halloc2, halloc1] at hhand
    exact hhand

end Methods

section Run

local instance nativeLittle : Native := ⟨.little⟩

/-- After `readAndOpen` the open completes, and its receipt is reaped. -/
def openDone : List (CustodyAction (PushMethod.kind MmapBuffer MmapBuffer .w64 true)) :=
  readAndOpen ++
    [.other (.inner (.kernel (.post (.request 1) ⟨2, 5, 0⟩))),
      .other (.reapEvent [.quiet, .quiet])]

theorem memory_reclaimed_openDone :
    ∃ s, twoEntryStart.run openDone = some s ∧ s.tickets.length = 1 ∧
      ∃ bs s', (∀ b ∈ bs, Custody.takesBack b = true) ∧ s.run bs = some s' ∧
        s'.freed = s.freed ∧ (s'.hand ++ s.freed).Perm s.allocated := by
  have heval : (twoEntryStart.run openDone).map (fun s =>
      (decide s.own.Closed, s.tickets.length,
        decide (∀ t ∈ s.tickets, s.own.settled t.slot = true)))
      = some (true, 1, true) := by decide +kernel
  have hfrugal : Custody.frugalRun openDone twoEntryStart = true := by decide +kernel
  obtain ⟨s, hrun, heval⟩ := Option.map_eq_some_iff.mp heval
  obtain ⟨hclosed, hone, hset⟩ := by simpa only [Prod.mk.injEq] using heval
  exact ⟨s, hrun, hone, memory_reclaimed _ _ _ _ _ _ _ openDone s hrun
    (of_decide_eq_true hclosed) hfrugal (by decide) (of_decide_eq_true hset)⟩

end Run

end Ququmatz
