import Ququmatz.Proofs.Ring.Channel

/-!
# `Ququmatz.Proofs.Ring.Progress`: a ring can always be emptied

`Ququmatz.Proofs.Ring.Fifo` says what no run does. This module says what the owner can always do.
`submit` offers the kernel every entry that was pushed and not read, and `complete` returns every
completion that was posted, so from any reachable state a `submit`, as many reaps as there are
completions, and a `sync_cq` leave both queues empty (`ring_drains`). All that is asked of the
kernel is that it takes the entries that it is offered, or, with an SQPOLL thread, those that
it sees.
-/

set_option autoImplicit false

namespace Ququmatz

open Lib

/-! ### What the kernel can take -/

namespace SqAt

variable {b p : Nat} {w : World}

theorem consumeOne_of_lt (h : SqAt b p w) (hlt : w.consumed.length < p) :
    ∃ w', w.consumeOne = some w' := by
  unfold World.consumeOne
  rw [if_neg]
  · exact ⟨_, rfl⟩
  · intro heq
    have := h.head_eq_tail_iff.mp heq
    omega

/-- The kernel can take any number of published entries. -/
theorem consumeN_of_le (h : SqAt b p w) {n : Nat} (hn : w.consumed.length + n ≤ p) :
    ∃ w', w.consumeN n = some w' ∧ w'.consumed.length = w.consumed.length + n ∧
      w'.posted = w.posted := by
  induction n generalizing w with
  | zero => exact ⟨w, rfl, rfl, rfl⟩
  | succ n ih =>
      obtain ⟨w1, h1⟩ := h.consumeOne_of_lt (by omega)
      have hlen : w1.consumed.length = w.consumed.length + 1 := by
        rw [World.consumeOne_some h1, List.length_append, List.length_singleton]
      have hposted : w1.posted = w.posted := by rw [World.consumeOne_some h1]
      obtain ⟨w', h2, hlen', hposted'⟩ := ih (h.consumeOne h1) (by omega)
      refine ⟨w', ?_, by omega, hposted'.trans hposted⟩
      show w.consumeOne.bind _ = _
      rw [h1]
      exact h2

/-- Once the whole queue is published, the tail says so. -/
theorem pub_eq (h : SqAt b p w)
    (htail : w.sqTail = UInt32.ofNat (b + w.written.length)) : p = w.written.length := by
  have hq := h.queue
  have hroom := hq.room
  have hsize := w.params.sq.size_lt
  have hgot := hq.got_le
  have hpub := hq.pub_le
  rw [h.tail] at htail
  have := (ofNat_inj_window (by omega) (by omega)).mp htail
  omega

end SqAt

/-- A call that does not wait is satisfied at once. -/
theorem World.waitSatisfied_empty (w : World) (minComplete : UInt32) :
    w.waitSatisfied minComplete .empty = true := by
  unfold World.waitSatisfied
  rw [Bool.or_eq_true]
  exact Or.inl (by decide)

namespace RingAt

variable {v : View} {w : World}

/-- The kernel can take all that it is offered by a `submit`. -/
theorem enter_takes (h : RingAt v w) (hpoll : w.sqpoll = false) {toSubmit : UInt32}
    (hn : w.consumed.length + toSubmit.toNat ≤ v.sqPub) :
    ∃ w', w.enter toSubmit 0 .empty ⟨.ok toSubmit.toNat, []⟩ = some (.ok toSubmit.toNat, w') ∧
      w'.consumed.length = w.consumed.length + toSubmit.toNat ∧ w'.posted = w.posted := by
  obtain ⟨w', htake, hlen, hposted⟩ := h.sq.consumeN_of_le hn
  refine ⟨w', ?_, hlen, hposted⟩
  unfold World.enter World.takeEntries
  simp only [Nat.le_refl, if_true, hpoll, Bool.false_eq_true, if_false, htake, Option.bind_some,
    envSteps, World.waitSatisfied_empty]

end RingAt

/-! ### `submit` offers everything -/

namespace Submitter

variable {v : View} {s : Submitter} {w : World}

/-- What a `submit` asks the kernel for is what it has not read. -/
theorem Tracks.toSubmit (ht : s.Tracks v) (h : RingAt v w) (hsync : v.synced = true)
    (hpoll : w.sqpoll = false) :
    w.consumed.length + (s.sqTailLocal - s.sqSubmitted).toNat = v.written.length := by
  have hused := h.sq.queue.used_toNat
  have hle := h.sq.queue.got_prefix.length_le
  rw [h.written] at hused hle
  rw [ht.submitted hsync, ← h.head hpoll, ht.tail, h.sq.head, hused]
  omega

/-- What a `submit` returns of which the kernel took `n`. -/
def submitted (s : Submitter) (n : Nat) : Except Error UInt32 × Submitter :=
  (.ok (UInt32.ofNat n), { s with sqSubmitted := s.sqSubmitted + UInt32.ofNat n })

theorem submit_takes (h : RingAt v w) (ht : s.Tracks v) (hsync : v.synced = true)
    (hpoll : w.sqpoll = false) :
    ∃ rs x w', s.submit.run ringMachine rs w = some (x, w') ∧
      w'.consumed.length = v.written.length ∧ w'.posted = w.posted := by
  have hoffer := ht.toSubmit h hsync hpoll
  have h1 := h.storeSqTail
  rw [← ht.tail] at h1
  by_cases hzero : s.sqTailLocal - s.sqSubmitted = 0
  · refine ⟨[KRound.quiet], (.ok 0, s), { w with sqTail := s.sqTailLocal }, ?_, ?_, rfl⟩
    · unfold submit flushSqTail
      refine run_perform.mpr ⟨.quiet, [], w, (), _, rfl, rfl,
        World.access_storeSqTail.mpr ⟨rfl, rfl, rfl⟩, ?_⟩
      rw [if_pos hzero]
      rfl
    · rw [hzero] at hoffer
      exact hoffer
  · obtain ⟨w', henter, hlen, hposted⟩ := h1.enter_takes hpoll (Nat.le_of_eq hoffer)
    refine ⟨[KRound.quiet, KRound.entered ⟨.ok (s.sqTailLocal - s.sqSubmitted).toNat, []⟩],
      s.submitted (s.sqTailLocal - s.sqSubmitted).toNat, w', ?_, hlen.trans hoffer, hposted⟩
    unfold submit flushSqTail
    refine run_perform.mpr ⟨.quiet, _, w, (), _, rfl, rfl,
      World.access_storeSqTail.mpr ⟨rfl, rfl, rfl⟩, ?_⟩
    rw [if_neg hzero]
    refine run_perform.mpr ⟨_, [], _, .ok _, w', rfl, rfl,
      World.access_enter.mpr ⟨_, rfl, henter⟩, ?_⟩
    rfl

end Submitter

namespace IoUring

variable {v : View} {r : IoUring} {w : World}

/-- The ring publishes its CQ head in addition. -/
theorem submit_takes (h : RingAt v w) (ht : r.Tracks v) (hsync : v.synced = true)
    (hpoll : w.sqpoll = false) :
    ∃ rs x w', r.submit.run ringMachine rs w = some (x, w') ∧
      w'.consumed.length = v.written.length ∧ w'.posted = w.posted := by
  have hoffer := ht.sq.toSubmit h hsync hpoll
  have h1 := h.storeSqTail
  rw [← ht.sq.tail] at h1
  by_cases hzero : r.sqTailLocal - r.sqSubmitted = 0
  · refine ⟨[KRound.quiet], (.ok 0, r), { w with sqTail := r.sqTailLocal }, ?_, ?_, rfl⟩
    · unfold submit flushSqTail
      refine run_perform.mpr ⟨.quiet, [], w, (), _, rfl, rfl,
        World.access_storeSqTail.mpr ⟨rfl, rfl, rfl⟩, ?_⟩
      rw [if_pos hzero]
      rfl
    · rw [show r.submitter.sqTailLocal - r.submitter.sqSubmitted = 0 from hzero] at hoffer
      exact hoffer
  · obtain ⟨w', henter, hlen, hposted⟩ := h1.enter_takes hpoll (Nat.le_of_eq hoffer)
    refine ⟨[KRound.quiet, KRound.entered ⟨.ok (r.sqTailLocal - r.sqSubmitted).toNat, []⟩,
      KRound.quiet], (.ok (UInt32.ofNat (r.sqTailLocal - r.sqSubmitted).toNat),
        { r with sqSubmitted := r.sqSubmitted
            + UInt32.ofNat (r.sqTailLocal - r.sqSubmitted).toNat }),
      { w' with cqHead := r.cqHeadLocal }, ?_, hlen.trans hoffer, hposted⟩
    unfold submit flushSqTail
    refine run_perform.mpr ⟨.quiet, _, w, (), _, rfl, rfl,
      World.access_storeSqTail.mpr ⟨rfl, rfl, rfl⟩, ?_⟩
    rw [if_neg hzero]
    refine run_perform.mpr ⟨_, _, _, .ok _, w', rfl, rfl,
      World.access_enter.mpr ⟨_, rfl, henter⟩, ?_⟩
    exact run_perform.mpr ⟨.quiet, [], w', (), _, rfl, rfl,
      World.access_storeCqHead.mpr ⟨rfl, rfl, rfl⟩, rfl⟩

end IoUring

/-! ### `complete` returns everything -/

/-- The half can reap what was posted. -/
theorem Completer.complete_runs {v : View} {c : Completer} {w : World} (h : RingAt v w)
    (ht : c.Tracks v) (hlt : v.read.length < w.posted.length) :
    ∃ x w', c.complete.run ringMachine [KRound.quiet, KRound.quiet] w = some (x, w') ∧
      w'.consumed = w.consumed ∧ w'.posted = w.posted := by
  have hne : c.cqHeadLocal ≠ w.cqTail := by
    have hempty := h.cq.queue.empty_iff
    rw [h.read] at hempty
    rw [ht.head, h.cq.tail]
    intro heq
    have := hempty.mp heq
    omega
  refine ⟨(some (Completion.ofCqe (w.cqes (c.cqHeadLocal &&& c.cqMask).toNat)),
      { c with cqHeadLocal := c.cqHeadLocal + 1 }),
    { w with read := w.read ++ [w.cqes (c.cqHeadLocal &&& c.cqMask).toNat] }, ?_, rfl, rfl⟩
  unfold complete
  refine run_perform.mpr ⟨.quiet, _, w, w.cqTail, w, rfl, rfl,
    World.access_loadCqTail.mpr ⟨rfl, rfl, rfl⟩, ?_⟩
  rw [if_neg hne]
  exact run_perform.mpr ⟨.quiet, [], w, _, _, rfl, rfl,
    World.access_readCqe.mpr ⟨rfl, rfl, rfl⟩, rfl⟩

namespace Handles

/-- Both queues have a handle that works on them. -/
def both : Handles → Bool
  | .whole _ => true
  | .halves (some _) (some _) => true
  | _ => false

variable {v : View} {hs : Handles} {w : World}

theorem submit_takes (h : RingAt v w) (ht : hs.Tracks v) (hsync : v.synced = true)
    (hpoll : w.sqpoll = false) (hboth : hs.both = true) :
    ∃ p rs a hs' w', hs.submit = some p ∧ p.run ringMachine rs w = some ((a, hs'), w') ∧
      hs'.both = true ∧ w'.consumed.length = v.written.length ∧ w'.posted = w.posted := by
  cases hs with
  | whole r =>
      obtain ⟨rs, x, w', hrun, hlen, hposted⟩ := IoUring.submit_takes h ht hsync hpoll
      exact ⟨_, rs, x.1, .whole x.2, w', rfl, Prog.run_map.mpr ⟨x, hrun, rfl⟩, rfl, hlen, hposted⟩
  | halves s c =>
      cases s with
      | none => exact absurd hboth Bool.false_ne_true
      | some s =>
          cases c with
          | none => exact absurd hboth Bool.false_ne_true
          | some c =>
              obtain ⟨rs, x, w', hrun, hlen, hposted⟩ :=
                Submitter.submit_takes h (ht.1 s rfl) hsync hpoll
              exact ⟨_, rs, x.1, .halves (some x.2) (some c), w', rfl,
                Prog.run_map.mpr ⟨x, hrun, rfl⟩, rfl, hlen, hposted⟩
  | gone => exact absurd hboth Bool.false_ne_true

theorem flushSqTail_runs (ht : hs.Tracks v) (hboth : hs.both = true) (w : World) :
    ∃ p, hs.flushSqTail = some p ∧ p.run ringMachine [KRound.quiet] w
      = some (((), hs), { w with sqTail := UInt32.ofNat (v.sqBase + v.written.length) }) := by
  have hstore : ∀ x : UInt32, (perform (.storeSqTail x) : RingProg Unit).run ringMachine
      [KRound.quiet] w = some ((), { w with sqTail := x }) := fun _ => rfl
  cases hs with
  | whole r =>
      rw [← ht.sq.tail]
      exact ⟨_, rfl, Prog.run_map.mpr
        ⟨((), r), Prog.run_map.mpr ⟨(), hstore r.sqTailLocal, rfl⟩, rfl⟩⟩
  | halves s c =>
      cases s with
      | none => exact absurd hboth Bool.false_ne_true
      | some s =>
          rw [← (ht.1 s rfl).tail]
          exact ⟨_, rfl, Prog.run_map.mpr
            ⟨((), s), Prog.run_map.mpr ⟨(), hstore s.sqTailLocal, rfl⟩, rfl⟩⟩
  | gone => exact absurd hboth Bool.false_ne_true

theorem complete_runs (h : RingAt v w) (ht : hs.Tracks v) (hboth : hs.both = true)
    (hlt : v.read.length < w.posted.length) :
    ∃ p a hs' w', hs.complete = some p ∧
      p.run ringMachine [KRound.quiet, KRound.quiet] w = some ((a, hs'), w') ∧
      hs'.both = true ∧ w'.consumed = w.consumed ∧ w'.posted = w.posted := by
  cases hs with
  | whole r =>
      obtain ⟨x, w', hrun, hcons, hposted⟩ := Completer.complete_runs h ht.cq hlt
      refine ⟨_, x.1, .whole (r.withCompleter x.2), w', rfl, Prog.run_map.mpr
        ⟨(x.1, r.withCompleter x.2), ?_, rfl⟩, rfl, hcons, hposted⟩
      show r.complete.run ringMachine _ w = _
      rw [IoUring.complete_eq]
      exact Prog.run_map.mpr ⟨x, hrun, rfl⟩
  | halves s c =>
      cases s with
      | none => exact absurd hboth Bool.false_ne_true
      | some s =>
          cases c with
          | none => exact absurd hboth Bool.false_ne_true
          | some c =>
              obtain ⟨x, w', hrun, hcons, hposted⟩ :=
                Completer.complete_runs h (ht.2 c rfl) hlt
              exact ⟨_, x.1, .halves (some s) (some x.2), w', rfl,
                Prog.run_map.mpr ⟨x, hrun, rfl⟩, rfl, hcons, hposted⟩
  | gone => exact absurd hboth Bool.false_ne_true

theorem syncCq_runs (ht : hs.Tracks v) (hboth : hs.both = true) (w : World) :
    ∃ p, hs.syncCq = some p ∧ p.run ringMachine [KRound.quiet] w
      = some (((), hs), { w with cqHead := UInt32.ofNat (v.cqBase + v.read.length) }) := by
  have hstore : ∀ x : UInt32, (perform (.storeCqHead x) : RingProg Unit).run ringMachine
      [KRound.quiet] w = some ((), { w with cqHead := x }) := fun _ => rfl
  cases hs with
  | whole r =>
      rw [← ht.cq.head]
      exact ⟨_, rfl, Prog.run_map.mpr
        ⟨((), r), Prog.run_map.mpr ⟨(), hstore r.cqHeadLocal, rfl⟩, rfl⟩⟩
  | halves s c =>
      cases s with
      | none => exact absurd hboth Bool.false_ne_true
      | some s =>
          cases c with
          | none => exact absurd hboth Bool.false_ne_true
          | some c =>
              rw [← (ht.2 c rfl).head]
              exact ⟨_, rfl, Prog.run_map.mpr
                ⟨((), c), Prog.run_map.mpr ⟨(), hstore c.cqHeadLocal, rfl⟩, rfl⟩⟩
  | gone => exact absurd hboth Bool.false_ne_true

end Handles

/-! ### Runs that empty the ring -/

/-- The owner asks the kernel to take what was pushed, or takes what was posted; or the SQPOLL
thread reads. -/
def Action.drains : Action → Bool
  | .call .submit _ => true
  | .call .flushSqTail _ => true
  | .call .complete _ => true
  | .call .syncCq _ => true
  | .kernel .consume => true
  | _ => false

namespace Sys

variable {v : View} {s : Sys}

/-- What a run that drains has left alone. -/
structure Spares (s s' : Sys) : Prop where
  both : s'.handles.both = true
  accepted : s'.accepted = s.accepted
  posted : s'.world.posted = s.world.posted

theorem exec_of_run {α : Type} {p : Option (RingProg (α × Handles))} {prog : RingProg (α × Handles)}
    {rs : List KRound} {record : α → Sys → Sys} {a : α} {hs' : Handles} {w' : World}
    (hp : p = some prog) (hrun : prog.run ringMachine rs s.world = some ((a, hs'), w')) :
    s.exec p rs record = some (record a { s with world := w', handles := hs' }) := by
  rw [hp]
  show (prog.run ringMachine rs s.world).map _ = _
  rw [hrun]
  rfl

/-- The thread can read all that is published. -/
theorem Inv.consumes (h : s.Inv v) (hpoll : s.world.sqpoll = true) {n : Nat}
    (hn : s.world.consumed.length + n ≤ v.sqPub) :
    ∃ w', s.run (List.replicate n (.kernel .consume)) = some { s with world := w' } ∧
      w'.posted = s.world.posted ∧ w'.consumed.length = s.world.consumed.length + n := by
  induction n generalizing s with
  | zero => exact ⟨s.world, rfl, rfl, rfl⟩
  | succ n ih =>
      obtain ⟨w1, h1⟩ := h.ring.sq.consumeOne_of_lt (by omega)
      have hlen : w1.consumed.length = s.world.consumed.length + 1 := by
        rw [World.consumeOne_some h1, List.length_append, List.length_singleton]
      have henv : s.world.env .consume = some w1 := by
        show (if s.world.sqpoll = true then s.world.consumeOne else none) = _
        rw [if_pos hpoll]
        exact h1
      have hinv : Sys.Inv v { s with world := w1 } :=
        ⟨h.ring.env henv, h.tracks, h.accepted, h.reaped, h.shares⟩
      have hpoll1 : w1.sqpoll = true := by
        rw [World.consumeOne_some h1]
        exact hpoll
      obtain ⟨w', hrun, hposted', hcons⟩ := ih hinv hpoll1 (by
        show w1.consumed.length + n ≤ v.sqPub
        omega)
      have hposted : w1.posted = s.world.posted := by rw [World.consumeOne_some h1]
      refine ⟨w', ?_, hposted'.trans hposted, ?_⟩
      · rw [List.replicate_succ, isRun.cons_eq_some]
        refine ⟨{ s with world := w1 }, ?_, hrun⟩
        show (s.world.env .consume).map _ = _
        rw [henv]
        rfl
      · rw [hcons]
        show w1.consumed.length + n = _
        omega

/-- The submission queue can be emptied. Without a thread that reads it, a `submit` does it,
as long as its count follows the head. -/
theorem Inv.drains_sq (h : s.Inv v) (hboth : s.handles.both = true)
    (hmode : s.world.sqpoll = true ∨ v.synced = true) :
    ∃ as s', s.run as = some s' ∧ s.Spares s' ∧ (∀ a ∈ as, a.drains = true) ∧
      s'.reaped = s.reaped ∧ s'.world.consumed.length = s.accepted.length := by
  by_cases hpoll : s.world.sqpoll = true
  · obtain ⟨p, hp, hrun⟩ := Handles.flushSqTail_runs h.tracks hboth s.world
    have hstep : s.step (.call .flushSqTail [KRound.quiet]) = some { s with
        world := { s.world with sqTail := UInt32.ofNat (v.sqBase + v.written.length) } } :=
      exec_of_run hp hrun
    obtain ⟨v1, hf, -⟩ := h.step hstep
    have hwritten : v1.written.length = s.accepted.length := by rw [← hf.inv.accepted]
    -- everything is published now, and the thread reads it
    have hpub : v1.sqPub = s.accepted.length := by
      refine (hf.inv.ring.sq.pub_eq ?_).trans (by rw [hf.inv.ring.written, hwritten])
      show UInt32.ofNat (v.sqBase + v.written.length)
        = UInt32.ofNat (v1.sqBase + s.world.written.length)
      rw [hf.fixed.sqBase, h.ring.written]
    have hle := h.consumed_prefix.length_le
    obtain ⟨w', hrun', hposted, hcons⟩ := hf.inv.consumes hpoll
      (n := s.accepted.length - s.world.consumed.length) (by
        show s.world.consumed.length + _ ≤ v1.sqPub
        omega)
    refine ⟨_ :: _, _, isRun.cons_eq_some.mpr ⟨_, hstep, hrun'⟩, ⟨hboth, rfl, hposted⟩, ?_, rfl, ?_⟩
    · intro a ha
      rcases List.mem_cons.mp ha with rfl | ha
      · rfl
      · rw [List.eq_of_mem_replicate ha]
        rfl
    · show w'.consumed.length = _
      rw [hcons]
      show s.world.consumed.length + _ = _
      omega
  · have hpoll := Bool.eq_false_iff.mpr hpoll
    have hsync : v.synced = true := by
      rcases hmode with hpoll' | hsync
      · rw [hpoll] at hpoll'
        exact absurd hpoll' Bool.false_ne_true
      · exact hsync
    obtain ⟨p, rs, a, hs', w', hp, hrun, hboth', hlen, hposted⟩ :=
      Handles.submit_takes h.ring h.tracks hsync hpoll hboth
    have hstep : s.step (.call .submit rs) = some { s with world := w', handles := hs' } :=
      exec_of_run hp hrun
    refine ⟨[.call .submit rs], _, isRun.cons_eq_some.mpr ⟨_, hstep, rfl⟩,
      ⟨hboth', rfl, hposted⟩, ?_, rfl, ?_⟩
    · intro b hb
      rw [List.mem_singleton.mp hb]
      rfl
    · rw [h.accepted]
      exact hlen

/-- The completion queue can be emptied. -/
theorem Inv.drains_cq (h : s.Inv v) (hboth : s.handles.both = true) {n : Nat}
    (hn : s.reaped.length + n = s.world.posted.length) :
    ∃ s', s.run (List.replicate n (.call .complete [.quiet, .quiet])) = some s' ∧
      s.Spares s' ∧ s'.world.consumed = s.world.consumed ∧
      s'.reaped.length = s.world.posted.length := by
  induction n generalizing s v with
  | zero => exact ⟨s, rfl, ⟨hboth, rfl, rfl⟩, rfl, hn⟩
  | succ n ih =>
      have hread : s.reaped.length = v.read.length := by rw [h.reaped, List.length_map]
      obtain ⟨p, a, hs', w', hp, hrun, hboth', hcons, hposted⟩ :=
        Handles.complete_runs h.ring h.tracks hboth (by omega)
      have hstep : s.step (.call .complete [.quiet, .quiet])
          = some (recordReap a { s with world := w', handles := hs' }) := exec_of_run hp hrun
      obtain ⟨v1, hf, -⟩ := h.step hstep
      -- what is returned is a completion, since there is one
      obtain ⟨r, rs', w1, hrs, hb, -, hcase⟩ := Handles.complete_run h.ring h.tracks hp hrun
      cases hrs
      cases hb
      rcases hcase with ⟨hempty, -⟩ | ⟨o, cqe, -, rfl, -⟩
      · omega
      · have hone : (recordReap (some (Completion.ofCqe cqe))
            { s with world := w', handles := hs' }).reaped.length = s.reaped.length + 1 := by
          show (s.reaped ++ [_]).length = _
          rw [List.length_append, List.length_singleton]
        obtain ⟨s', hrun', hspares, hcons', hreaped⟩ := ih hf.inv hboth' (by
          rw [hone]
          show _ = w'.posted.length
          rw [hposted]
          omega)
        refine ⟨s', ?_, ⟨hspares.both, hspares.accepted, hspares.posted.trans hposted⟩,
          hcons'.trans hcons, hreaped.trans (congrArg List.length hposted)⟩
        rw [List.replicate_succ, isRun.cons_eq_some]
        exact ⟨_, hstep, hrun'⟩

/-- When everything is reaped, the published head can be brought up to the tail. -/
theorem Inv.syncs (h : s.Inv v) (hboth : s.handles.both = true)
    (hreaped : s.reaped.length = s.world.posted.length) :
    ∃ s', s.step (.call .syncCq [.quiet]) = some s' ∧ s.Spares s' ∧
      s'.channel = s.channel ∧ s'.world.cqHead = s'.world.cqTail := by
  obtain ⟨p, hp, hrun⟩ := Handles.syncCq_runs h.tracks hboth s.world
  refine ⟨_, exec_of_run hp hrun, ⟨hboth, rfl, rfl⟩, rfl, ?_⟩
  show UInt32.ofNat (v.cqBase + v.read.length) = s.world.cqTail
  rw [h.ring.cq.tail, ← hreaped, h.reaped, List.length_map]

/-- A channel is empty when everything was read and reaped. -/
theorem channel_empty (hcons : s.world.consumed.length = s.accepted.length)
    (hreaped : s.reaped.length = s.world.posted.length) : s.channel = Channel.empty := by
  unfold channel World.channelAt
  rw [hcons, hreaped, List.drop_length, List.drop_length]
  rfl

/-- The published tail lies between what is read and what is written. -/
theorem Inv.head_eq_tail (h : s.Inv v) (hch : s.channel = Channel.empty) :
    s.world.sqHead = s.world.sqTail := by
  refine h.ring.sq.head_eq_tail_iff.mpr ?_
  have hgot := h.ring.sq.queue.got_le
  have hpub := h.ring.sq.queue.pub_le
  have hlen := congrArg (fun c => c.requests.length) hch
  rw [h.ring.written, ← h.accepted] at hpub
  simp only [channel, World.channelAt, Channel.empty, List.length_drop, List.length_nil] at hlen
  omega

end Sys

/-- From every reachable state in which both queues have a handle, the ring can be emptied: the
owner only submits, reaps and publishes, and the kernel only takes what it is offered. -/
theorem ring_drains (params : RingParams) (resources : RingResources)
    (sqStart cqStart : UInt32) (sqArray : Nat → UInt32) (sqes : Nat → Sqe) (cqes : Nat → Cqe)
    (as : List Action) (s : Sys)
    (hr : (Sys.init params resources sqStart cqStart sqArray sqes cqes).run as = some s)
    (hboth : s.handles.both = true)
    (hmode : s.world.sqpoll = true ∨ ∀ a ∈ as, a.notSqpoll = true) :
    ∃ bs s', s.run bs = some s' ∧ (∀ b ∈ bs, b.drains = true) ∧ s'.handles.both = true ∧
      s'.accepted = s.accepted ∧ s'.world.posted = s.world.posted ∧
      s'.channel = Channel.empty ∧
      s'.world.sqHead = s'.world.sqTail ∧ s'.world.cqHead = s'.world.cqTail := by
  obtain ⟨v, hf, hsync⟩ := (Sys.init_inv params resources sqStart cqStart sqArray sqes
    cqes).run hr
  obtain ⟨as1, s1, hrun1, hs1, hdrains1, hreaped1, hcons1⟩ :=
    hf.inv.drains_sq hboth (hmode.imp_right hsync)
  obtain ⟨v1, hf1, -⟩ := hf.inv.run hrun1
  have hle : s1.reaped.length ≤ s1.world.posted.length := by
    have := hf1.inv.reaped_prefix.length_le
    rwa [List.length_map] at this
  obtain ⟨s2, hrun2, hs2, hcons2, hreaped2⟩ :=
    hf1.inv.drains_cq hs1.both (Nat.add_sub_of_le hle)
  obtain ⟨v2, hf2, -⟩ := hf1.inv.run hrun2
  have hall : s2.reaped.length = s2.world.posted.length := by rw [hreaped2, hs2.posted]
  obtain ⟨s3, hstep3, hs3, hch3, hhead⟩ := hf2.inv.syncs hs2.both hall
  obtain ⟨v3, hf3, -⟩ := hf2.inv.step hstep3
  have hempty : s3.channel = Channel.empty :=
    hch3.trans (Sys.channel_empty (by rw [hcons2, hcons1, hs2.accepted, hs1.accepted]) hall)
  refine ⟨as1 ++ (List.replicate (s1.world.posted.length - s1.reaped.length)
    (.call .complete [.quiet, .quiet]) ++ [.call .syncCq [.quiet]]), s3, ?_, ?_, hs3.both,
    hs3.accepted.trans (hs2.accepted.trans hs1.accepted),
    hs3.posted.trans (hs2.posted.trans hs1.posted), hempty, hf3.inv.head_eq_tail hempty, hhead⟩
  · rw [Sys.isRun.append, hrun1]
    show s1.run (_ ++ _) = _
    rw [Sys.isRun.append, hrun2]
    exact Sys.isRun.cons_eq_some.mpr ⟨s3, hstep3, rfl⟩
  · intro b hb
    rcases List.mem_append.mp hb with hb | hb
    · exact hdrains1 b hb
    · rcases List.mem_append.mp hb with hb | hb
      · rw [List.eq_of_mem_replicate hb]
        rfl
      · rw [List.mem_singleton.mp hb]
        rfl

/-- Two entries are pushed over the wrap, and nothing was submitted. -/
theorem ring_drains_wrapping :
    ∃ s, Sys.wrapping.run (wrappingSubmits.take 3) = some s ∧ s.channel ≠ Channel.empty ∧
      ∃ bs s', s.run bs = some s' ∧ (∀ b ∈ bs, b.drains = true) ∧ s'.handles.both = true ∧
        s'.accepted = s.accepted ∧ s'.world.posted = s.world.posted ∧
        s'.channel = Channel.empty ∧
        s'.world.sqHead = s'.world.sqTail ∧ s'.world.cqHead = s'.world.cqTail := by
  have heval : (Sys.wrapping.run (wrappingSubmits.take 3)).map (fun s =>
      (s.channel.requests.length, s.handles.both)) = some (2, true) := by decide +kernel
  obtain ⟨s, hrun, heval⟩ := Option.map_eq_some_iff.mp heval
  obtain ⟨hlen, hboth⟩ := Prod.mk.inj heval
  refine ⟨s, hrun, ?_, ring_drains _ _ _ _ _ _ _ _ s hrun hboth (Or.inr ?_)⟩
  · intro heq
    rw [heq] at hlen
    exact absurd hlen (by decide)
  · decide

end Ququmatz
