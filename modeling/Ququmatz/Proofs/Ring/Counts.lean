import Ququmatz.Proofs.Ring.Fifo

/-!
# `Ququmatz.Proofs.Ring.Counts`: what a submitting call reports

On a ring without an SQPOLL thread the kernel reads SQEs only inside `io_uring_enter`, so a
submitting call can know how many it read. `FaithfulCount` is the contract: `Ok(n)` says
that the call made the kernel read `n` SQEs, and `Err` says that it read none.

`submitting_faithful_iff` is about `submit` and `submit_and_wait` of both handles, in every
reachable state and against every kernel. The contract fails for one pattern of replies
only: the first of two enters took entries and the second failed. Only the backpressure
path of `IoUring::submit_and_wait` enters twice, and there the `?` on the second enter
drops the progress of the first, which the comment above it says must be reported.
`submitAndWait_loses_progress` is such a call.
-/

set_option autoImplicit false

namespace Ququmatz

open Lib

/-- A call that took the world from `w` to `w'` returned a count that says what it did. -/
def FaithfulCount (w w' : World) : Except Error UInt32 → Prop
  | .ok n => w'.consumed.length = w.consumed.length + n.toNat
  | .error _ => w'.consumed.length = w.consumed.length

/-! ### The replies to the enters of a call -/

/-- The entries that an enter with this outcome took off the queue. -/
def EnterOutcome.took : EnterOutcome → Nat
  | .ok n => n
  | .early n => n
  | .err _ => 0

/-- The enter returned an error. -/
def EnterOutcome.failed : EnterOutcome → Bool
  | .err _ => true
  | _ => false

/-- The outcomes of the enters of a call, in order. -/
def enters (rs : List KRound) : List EnterOutcome :=
  rs.filterMap fun r => r.reply.map EnterReply.outcome

/-- The kernel let the first of two enters take entries and failed the second. -/
def LostProgress (outs : List EnterOutcome) : Prop :=
  ∃ first second, outs = [first, second] ∧ 0 < first.took ∧ second.failed = true

theorem not_lostProgress_of_length {outs : List EnterOutcome} (h : outs.length < 2) :
    ¬LostProgress outs := by
  rintro ⟨first, second, rfl, -, -⟩
  simp at h

theorem enters_quiet {r : KRound} (hr : r.reply = none) (rs : List KRound) :
    enters (r :: rs) = enters rs := by
  simp [enters, hr]

theorem enters_entered {r : KRound} {e : EnterReply} (hr : r.reply = some e)
    (rs : List KRound) : enters (r :: rs) = e.outcome :: enters rs := by
  simp [enters, hr]

/-! ### The kernel reads only inside an enter -/

/-- A ring without an SQPOLL thread whose kernel has read `n` SQEs. -/
structure World.Took (n : Nat) (w : World) : Prop where
  poll : w.sqpoll = false
  count : w.consumed.length = n

namespace World

variable {n : Nat} {w w' : World}

theorem Took.stable (n : Nat) : ringMachine.Stable (World.Took n) := by
  intro k w w' hw hk
  rcases World.env_cases hk with ⟨-, hpoll, -⟩ | ⟨o, cqe, -, hp⟩ | ⟨x, -, rfl⟩
  · rw [hw.poll] at hpoll
    exact absurd hpoll (by simp)
  · obtain ⟨-, -, rfl⟩ := CqAt.post_eq hp
    exact ⟨hw.poll, hw.count⟩
  · exact ⟨hw.poll, hw.count⟩

theorem Took.consumeN {k : Nat} (hw : w.Took n) (hc : w.consumeN k = some w') :
    w'.Took (n + k) := by
  induction k generalizing w n with
  | zero =>
      cases hc
      exact hw
  | succ k ih =>
      obtain ⟨w1, h1, h2⟩ := Option.bind_eq_some_iff.mp hc
      have heq := World.consumeOne_some h1
      subst heq
      have hone : World.Took (n + 1) { w with
          sqHead := w.sqHead + 1, consumed := w.consumed ++ [w.sqes w.sqIndex] } :=
        ⟨hw.poll, by simp [hw.count]⟩
      have hrest := ih hone h2
      rwa [show n + (k + 1) = n + 1 + k by omega]

/-- An enter takes the entries that its outcome says, and fails when its outcome says. -/
theorem Took.enter {toSubmit minComplete : UInt32} {flags : EnterFlags} {e : EnterReply}
    {x : Except Errno Nat} (hw : w.Took n)
    (he : w.enter toSubmit minComplete flags e = some (x, w')) :
    w'.Took (n + e.outcome.took) ∧
      ((∃ k, x = .ok k ∧ k ≤ toSubmit.toNat ∧ e.outcome.took = k ∧
          e.outcome.failed = false) ∨
        ∃ err, x = .error err ∧ e.outcome.took = 0 ∧ e.outcome.failed = true) := by
  rcases World.enter_cases he with ⟨err, hout, rfl, hs⟩ | ⟨k, w1, hout, rfl, hle, ht, hs⟩
  · rw [hout]
    exact ⟨(Took.stable n).steps _ _ _ hw hs, Or.inr ⟨err, rfl, rfl, rfl⟩⟩
  · have htook : e.outcome.took = k ∧ e.outcome.failed = false := by
      rcases hout with ⟨hout, -⟩ | hout
      · simp [hout, EnterOutcome.took, EnterOutcome.failed]
      · simp [hout, EnterOutcome.took, EnterOutcome.failed]
    -- Without an SQPOLL thread the entries are taken by the call itself.
    have h1 : w1.Took (n + k) := by
      simp only [takeEntries, hw.poll] at ht
      exact hw.consumeN ht
    refine ⟨?_, Or.inl ⟨k, rfl, hle, htook⟩⟩
    rw [htook.1]
    exact (Took.stable _).steps _ _ _ h1 hs

/-- An access other than an enter takes no reply of the kernel and no entry. -/
theorem Took.access {a : Access} {r : Option EnterReply} {x : a.Ans} (hw : w.Took n)
    (ha : ∀ fd toSubmit minComplete flags, a ≠ .enter fd toSubmit minComplete flags)
    (hacc : World.access a r w = some (x, w')) : r = none ∧ w'.Took n := by
  cases a with
  | enter fd toSubmit minComplete flags => exact absurd rfl (ha fd toSubmit minComplete flags)
  | _ =>
      cases r with
      | some e => cases hacc
      | none =>
          cases hacc
          exact ⟨rfl, hw.poll, hw.count⟩

end World

/-! ### The calls -/

section Calls

variable {α : Type} {n : Nat} {w w' : World} {rs : List KRound} {b : α}

/-- A run that starts with an access to memory. -/
theorem run_memory {a : Access} {f : a.Ans → RingProg α} (hw : w.Took n)
    (ha : ∀ fd toSubmit minComplete flags, a ≠ .enter fd toSubmit minComplete flags)
    (hr : (perform a >>= f).run ringMachine rs w = some (b, w')) :
    ∃ x rs' w1, enters rs = enters rs' ∧ w1.Took n ∧
      (f x).run ringMachine rs' w1 = some (b, w') := by
  obtain ⟨r, rs', w1, x, w2, rfl, hb, hacc, hrest⟩ := run_perform.mp hr
  obtain ⟨hq, h2⟩ := ((World.Took.stable n).steps _ _ _ hw hb).access ha hacc
  exact ⟨x, rs', w2, enters_quiet hq rs', h2, hrest⟩

/-- A run that starts with an enter: its outcome is the first of the call, and says how
many entries it took. -/
theorem run_enter {fd : RawFd} {toSubmit minComplete : UInt32} {flags : EnterFlags}
    {f : Except Errno Nat → RingProg α} (hw : w.Took n)
    (hr : (perform (.enter fd toSubmit minComplete flags) >>= f).run ringMachine rs w
      = some (b, w')) :
    ∃ out rs' w1, enters rs = out :: enters rs' ∧ w1.Took (n + out.took) ∧
      ((∃ k, out.took = k ∧ out.failed = false ∧ k ≤ toSubmit.toNat ∧
          (f (.ok k)).run ringMachine rs' w1 = some (b, w')) ∨
        ∃ err, out.took = 0 ∧ out.failed = true ∧
          (f (.error err)).run ringMachine rs' w1 = some (b, w')) := by
  obtain ⟨r, rs', w1, x, w2, rfl, hb, hacc, hrest⟩ := run_perform.mp hr
  obtain ⟨e, hq, he⟩ := World.access_enter.mp hacc
  obtain ⟨h2, hx⟩ := ((World.Took.stable n).steps _ _ _ hw hb).enter he
  refine ⟨e.outcome, rs', w2, enters_entered hq rs', h2, ?_⟩
  rcases hx with ⟨k, rfl, hle, htook, hok⟩ | ⟨err, rfl, htook, hfail⟩
  · exact Or.inl ⟨k, htook, hok, hle, hrest⟩
  · exact Or.inr ⟨err, htook, hfail, hrest⟩

/-- The end of a call: the rounds are used up. -/
theorem run_end {a : α} (hr : (Prog.ret a).run ringMachine rs w = some (b, w')) :
    enters rs = [] ∧ b = a ∧ w' = w := by
  obtain ⟨rfl, rfl, rfl⟩ := Prog.run_ret.mp hr
  exact ⟨rfl, rfl, rfl⟩

/-- A run of a last enter and a return. -/
theorem run_lastEnter {fd : RawFd} {toSubmit minComplete : UInt32} {flags : EnterFlags}
    {f : Except Errno Nat → RingProg α} {ok : Nat → α} {err : Errno → α} (hw : w.Took n)
    (hr : (perform (.enter fd toSubmit minComplete flags) >>= f).run ringMachine rs w
      = some (b, w'))
    (hok : ∀ k, f (.ok k) = .ret (ok k)) (herr : ∀ e, f (.error e) = .ret (err e)) :
    ∃ out, enters rs = [out] ∧ w'.Took (n + out.took) ∧
      ((out.took ≤ toSubmit.toNat ∧ out.failed = false ∧ b = ok out.took) ∨
        (out.took = 0 ∧ out.failed = true ∧ ∃ e, b = err e)) := by
  obtain ⟨out, rs1, w1, he1, h1, hcase⟩ := run_enter hw hr
  rcases hcase with ⟨k, rfl, hfail, hle, hr1⟩ | ⟨e, htook, hfail, hr1⟩
  · rw [hok] at hr1
    obtain ⟨he2, rfl, rfl⟩ := run_end hr1
    exact ⟨out, by rw [he1, he2], h1, Or.inl ⟨hle, hfail, rfl⟩⟩
  · rw [herr] at hr1
    obtain ⟨he2, rfl, rfl⟩ := run_end hr1
    exact ⟨out, by rw [he1, he2], h1, Or.inr ⟨htook, hfail, e, rfl⟩⟩

/-- The count of an enter survives the cast of the source. -/
theorem toNat_ofNat_of_le {k : Nat} {x : UInt32} (h : k ≤ x.toNat) :
    (UInt32.ofNat k).toNat = k :=
  UInt32.toNat_ofNat_of_lt' (Nat.lt_of_le_of_lt h x.toNat_lt)

end Calls

section Faithful

variable {w w' : World} {rs : List KRound} {res : Except Error UInt32}

/-- An `Ok` with the count of the only enter that took entries. -/
theorem faithful_ok {k : Nat} {x : UInt32} (hle : k ≤ x.toNat)
    (h : w'.Took (w.consumed.length + k)) : FaithfulCount w w' (.ok (UInt32.ofNat k)) := by
  show w'.consumed.length = _
  rw [h.count, toNat_ofNat_of_le hle]

/-- A failure after no entry was taken. -/
theorem faithful_error {e : Error} (h : w'.Took w.consumed.length) :
    FaithfulCount w w' (.error e) := h.count

theorem Submitter.submitAndWait_faithful {s s' : Submitter} {m : UInt32}
    (hpoll : w.sqpoll = false)
    (hr : (s.submitAndWait m).run ringMachine rs w = some ((res, s'), w')) :
    FaithfulCount w w' res ∧ ¬LostProgress (enters rs) := by
  unfold submitAndWait flushSqTail at hr
  obtain ⟨_, rs1, w1, he1, h1, hr1⟩ := run_memory ⟨hpoll, rfl⟩ (by simp) hr
  obtain ⟨out, he2, h2, hcase⟩ := run_lastEnter h1 hr1 (fun _ => rfl) (fun _ => rfl)
  refine ⟨?_, not_lostProgress_of_length (by simp [he1, he2])⟩
  rcases hcase with ⟨hle, -, hx⟩ | ⟨htook, -, e, hx⟩
  · cases hx
    exact faithful_ok hle h2
  · cases hx
    rw [htook] at h2
    exact faithful_error h2

theorem Submitter.submit_faithful {s s' : Submitter} (hpoll : w.sqpoll = false)
    (hr : s.submit.run ringMachine rs w = some ((res, s'), w')) :
    FaithfulCount w w' res ∧ ¬LostProgress (enters rs) := by
  unfold submit flushSqTail at hr
  obtain ⟨_, rs1, w1, he1, h1, hr1⟩ := run_memory ⟨hpoll, rfl⟩ (by simp) hr
  by_cases h0 : s.sqTailLocal - s.sqSubmitted = 0
  · -- Nothing to submit: no enter at all.
    rw [if_pos h0] at hr1
    obtain ⟨he2, hx, rfl⟩ := run_end hr1
    cases hx
    exact ⟨h1.count, not_lostProgress_of_length (by simp [he1, he2])⟩
  · rw [if_neg h0] at hr1
    obtain ⟨out, he2, h2, hcase⟩ := run_lastEnter h1 hr1 (fun _ => rfl) (fun _ => rfl)
    refine ⟨?_, not_lostProgress_of_length (by simp [he1, he2])⟩
    rcases hcase with ⟨hle, -, hx⟩ | ⟨htook, -, e, hx⟩
    · cases hx
      exact faithful_ok hle h2
    · cases hx
      rw [htook] at h2
      exact faithful_error h2

/-- `submit` on the whole ring publishes the CQ head after its enter; the count is the
same. -/
theorem IoUring.submit_faithful {r r' : IoUring} (hpoll : w.sqpoll = false)
    (hr : r.submit.run ringMachine rs w = some ((res, r'), w')) :
    FaithfulCount w w' res ∧ ¬LostProgress (enters rs) := by
  unfold submit flushSqTail flushCqHead at hr
  obtain ⟨_, rs1, w1, he1, h1, hr1⟩ := run_memory ⟨hpoll, rfl⟩ (by simp) hr
  by_cases h0 : r.sqTailLocal - r.sqSubmitted = 0
  · rw [if_pos h0] at hr1
    obtain ⟨he2, hx, rfl⟩ := run_end hr1
    cases hx
    exact ⟨h1.count, not_lostProgress_of_length (by simp [he1, he2])⟩
  · rw [if_neg h0] at hr1
    obtain ⟨out, rs2, w2, he2, h2, hcase⟩ := run_enter h1 hr1
    -- after an enter that succeeds the CQ head is stored, which takes no entry
    rcases hcase with ⟨k, rfl, -, hle, hr2⟩ | ⟨e, htook, -, hr2⟩
    · obtain ⟨_, rs3, w3, he3, h3, hr3⟩ := run_memory h2 (by simp) hr2
      obtain ⟨he4, hx, rfl⟩ := run_end hr3
      cases hx
      exact ⟨faithful_ok hle h3, not_lostProgress_of_length (by simp [he1, he2, he3, he4])⟩
    · obtain ⟨he3, hx, rfl⟩ := run_end hr2
      cases hx
      rw [htook] at h2
      exact ⟨faithful_error h2, not_lostProgress_of_length (by simp [he1, he2, he3])⟩

/-- The two enters of the backpressure path. The second is told to submit nothing, so it
takes nothing; when it fails, the call reports nothing of what the first one took. -/
theorem IoUring.submitAndWait_faithful_iff {r r' : IoUring} {m : UInt32}
    (hpoll : w.sqpoll = false)
    (hr : (r.submitAndWait m).run ringMachine rs w = some ((res, r'), w')) :
    FaithfulCount w w' res ↔ ¬LostProgress (enters rs) := by
  unfold submitAndWait flushSqTail flushCqHead at hr
  obtain ⟨_, rs1, w1, he1, h1, hr1⟩ := run_memory ⟨hpoll, rfl⟩ (by simp) hr
  obtain ⟨_, rs2, w2, he2, h2, hr2⟩ := run_memory h1 (by simp) hr1
  obtain ⟨(cqTail : UInt32), rs3, w3, he3, h3, hr3⟩ := run_memory h2 (by simp) hr2
  rw [he1, he2, he3]
  by_cases hfull : cqTail - r.cqHeadLocal > r.cqMask + 1 - (r.cqMask + 1) / 4
  · rw [if_pos hfull] at hr3
    obtain ⟨first, rs4, w4, he4, h4, hcase⟩ := run_enter h3 hr3
    rcases hcase with ⟨k, rfl, -, hle, hr4⟩ | ⟨e, htook, -, hr4⟩
    · obtain ⟨second, he5, h5, hcase⟩ := run_lastEnter h4 hr4 (fun _ => rfl) (fun _ => rfl)
      rw [he4, he5]
      rcases hcase with ⟨hle2, hfail, hx⟩ | ⟨htook, hfail, e, hx⟩
      · cases hx
        have hzero : second.took = 0 := Nat.le_zero.mp hle2
        rw [hzero] at h5
        refine iff_of_true ?_ ?_
        · rw [hzero, show UInt32.ofNat 0 = 0 from rfl, UInt32.add_zero]
          exact faithful_ok hle h5
        · rintro ⟨_, _, hout, -, hbad⟩
          cases hout
          rw [hfail] at hbad
          exact absurd hbad (by simp)
      · cases hx
        rw [htook] at h5
        have hcount : w'.consumed.length = w.consumed.length + first.took := h5.count
        -- The error is faithful exactly when the first enter took nothing.
        constructor
        · rintro hnone ⟨_, _, hout, hpos, -⟩
          cases hout
          have hsame : w'.consumed.length = w.consumed.length := hnone
          omega
        · intro hno
          have hzero : first.took = 0 := by
            by_contra hne
            exact hno ⟨first, second, rfl, Nat.pos_of_ne_zero hne, hfail⟩
          show w'.consumed.length = w.consumed.length
          omega
    · obtain ⟨he5, hx, rfl⟩ := run_end hr4
      cases hx
      rw [htook] at h4
      exact iff_of_true (faithful_error h4) (not_lostProgress_of_length (by simp [he4, he5]))
  · rw [if_neg hfull] at hr3
    obtain ⟨out, he4, h4, hcase⟩ := run_lastEnter h3 hr3 (fun _ => rfl) (fun _ => rfl)
    refine iff_of_true ?_ (not_lostProgress_of_length (by simp [he4]))
    rcases hcase with ⟨hle, -, hx⟩ | ⟨htook, -, e, hx⟩
    · cases hx
      exact faithful_ok hle h4
    · cases hx
      rw [htook] at h4
      exact faithful_error h4

end Faithful

/-- The counts that `submit` and `submit_and_wait` return are faithful, on the whole ring
and on the submission half, exactly when the kernel does not fail a second enter after the
first one took entries. -/
theorem submitting_faithful_iff (params : RingParams) (resources : RingResources)
    (sqStart cqStart : UInt32) (sqArray : Nat → UInt32) (sqes : Nat → Sqe) (cqes : Nat → Cqe)
    (as : List Action) (s : Sys) (p : RingProg (Except Error UInt32 × Handles))
    (rs : List KRound) (res : Except Error UInt32) (hs' : Handles) (w' : World)
    (hpoll : params.flags.contains SetupFlags.SQPOLL = false)
    (hr : (Sys.init params resources sqStart cqStart sqArray sqes cqes).run as = some s)
    (hp : s.handles.submit = some p ∨ ∃ m, s.handles.submitAndWait m = some p)
    (hrun : p.run ringMachine rs s.world = some ((res, hs'), w')) :
    FaithfulCount s.world w' res ↔ ¬LostProgress (enters rs) := by
  obtain ⟨v, hf, -⟩ := (Sys.init_inv params resources sqStart cqStart sqArray sqes
    cqes).run hr
  have hparams : s.world.params = params := hf.inv.ring.params.trans hf.fixed.params
  have hpoll' : s.world.sqpoll = false := by
    unfold World.sqpoll
    rw [hparams]
    exact hpoll
  -- only `submit_and_wait` of the whole ring can lose progress
  rcases hp with hp | ⟨m, hp⟩
  · rcases Handles.onSq_run hp hrun with ⟨r, r', -, -, hrun⟩ | ⟨t, t', c, -, -, hrun⟩
    · obtain ⟨hfaith, hkept⟩ := IoUring.submit_faithful hpoll' hrun
      exact iff_of_true hfaith hkept
    · obtain ⟨hfaith, hkept⟩ := Submitter.submit_faithful hpoll' hrun
      exact iff_of_true hfaith hkept
  · rcases Handles.onSq_run hp hrun with ⟨r, r', -, -, hrun⟩ | ⟨t, t', c, -, -, hrun⟩
    · exact IoUring.submitAndWait_faithful_iff hpoll' hrun
    · obtain ⟨hfaith, hkept⟩ := Submitter.submitAndWait_faithful hpoll' hrun
      exact iff_of_true hfaith hkept

/-! ### A wait that is interrupted after its submission -/

/-- A ring with eight entries on both sides. -/
def eightEntries : RingSize := RingSize.ofLog 3 (by decide)

/-- A ring with eight entries on both sides, without an SQPOLL thread. -/
def Sys.eight : Sys :=
  Sys.init ⟨eightEntries, eightEntries, .empty, 0⟩ ⟨0, ⟨3⟩, ⟨0, 0⟩, ⟨0, 0⟩, ⟨0, 0⟩, ⟨0, 0⟩⟩
    0 0 (fun _ => 0) (fun _ => Sqe.ZEROED) (fun _ => ⟨0, 0, 0⟩)

/-- Seven requests were submitted and completed, none of the completions was reaped, and an
eighth request is queued. -/
def crowded : List Action :=
  List.replicate 7 (.call (.push Sqe.nop) [.quiet, .quiet]) ++
    [.call .submit [.quiet, .entered ⟨.ok 7, (List.range 7).map fun k =>
        .post (.request k) ⟨0, 0, 0⟩⟩, .quiet],
      .call (.push Sqe.nop) [.quiet, .quiet]]

/-- The kernel's part in a `submit_and_wait(8)` there: the first enter submits the queued
request, and a signal interrupts the second (`EINTR`). -/
def interruptedWait : List KRound :=
  [.quiet, .quiet, .quiet, .entered ⟨.ok 1, []⟩, .entered ⟨.err ⟨4⟩, []⟩]

/-- The same wait with a kernel that lets it end: the eighth completion arrives. -/
def finishedWait : List KRound :=
  [.quiet, .quiet, .quiet, .entered ⟨.ok 1, []⟩,
    .entered ⟨.ok 0, [.post (.request 7) ⟨0, 0, 0⟩]⟩]

/-- The result of `submit_and_wait(8)` in the crowded state, and the number of SQEs that
the kernel has read before and after it. -/
def crowdedWait (rs : List KRound) : Option (Except Error UInt32 × Nat × Nat) :=
  (Sys.eight.run crowded).bind fun s => (s.handles.submitAndWait 8).bind fun p =>
    (p.run ringMachine rs s.world).map fun x =>
      (x.1.1, s.world.consumed.length, x.2.consumed.length)

theorem crowdedWait_eq_some {rs : List KRound} {res : Except Error UInt32} {m n : Nat}
    (h : crowdedWait rs = some (res, m, n)) :
    ∃ s p hs' w', Sys.eight.run crowded = some s ∧ s.handles.submitAndWait 8 = some p ∧
      p.run ringMachine rs s.world = some ((res, hs'), w') ∧
      s.world.consumed.length = m ∧ w'.consumed.length = n := by
  obtain ⟨s, hs, h⟩ := Option.bind_eq_some_iff.mp h
  obtain ⟨p, hp, h⟩ := Option.bind_eq_some_iff.mp h
  obtain ⟨⟨⟨res', hs'⟩, w'⟩, hrun, hx⟩ := Option.map_eq_some_iff.mp h
  cases hx
  exact ⟨s, p, hs', w', hs, hp, hrun, rfl, rfl⟩

theorem submitAndWait_finished :
    ∃ s p hs' w', Sys.eight.run crowded = some s ∧ s.handles.submitAndWait 8 = some p ∧
      p.run ringMachine finishedWait s.world = some ((.ok 1, hs'), w') ∧
      (FaithfulCount s.world w' (.ok 1) ↔ ¬LostProgress (enters finishedWait)) := by
  obtain ⟨s, p, hs', w', hs, hp, hrun, -, -⟩ :=
    crowdedWait_eq_some (show crowdedWait finishedWait = some (.ok 1, 7, 8) by decide +kernel)
  exact ⟨s, p, hs', w', hs, hp, hrun,
    submitting_faithful_iff _ _ _ _ _ _ _ crowded s p finishedWait (.ok 1) hs' w' (by decide)
      hs (Or.inr ⟨8, hp⟩) hrun⟩

/-- The call returns `EINTR`, and the kernel has read the SQE that was queued. -/
theorem submitAndWait_loses_progress :
    ∃ s p hs' w', Sys.eight.run crowded = some s ∧ s.handles.submitAndWait 8 = some p ∧
      p.run ringMachine interruptedWait s.world
        = some ((.error (.syscall ⟨4⟩), hs'), w') ∧
      w'.consumed.length = s.world.consumed.length + 1 ∧
      ¬FaithfulCount s.world w' (.error (.syscall ⟨4⟩)) := by
  obtain ⟨s, p, hs', w', hs, hp, hrun, hm, hn⟩ :=
    crowdedWait_eq_some (show crowdedWait interruptedWait = some (.error (.syscall ⟨4⟩), 7, 8)
      by decide +kernel)
  refine ⟨s, p, hs', w', hs, hp, hrun, by omega, ?_⟩
  intro hsame
  have hcount : w'.consumed.length = s.world.consumed.length := hsame
  omega

end Ququmatz
