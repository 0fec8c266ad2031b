import Ququmatz.Proofs.Ring.Fifo
import Ququmatz.Ring.Ops

/-!
# `Ququmatz.Proofs.Ring.Ops`: when a borrow really ends with a `do_*` call

`run_one` pushes an SQE that names a borrowed slice, and the caller takes the slice back
when it returns. `BorrowEnded` is the contract: the push was refused, or the completion of
that very SQE was reaped. `runOne_borrowEnded_iff` gives the exact condition. The contract
fails when an `io_uring_enter` of the call fails, when one returns and no completion is
there to be reaped, and when another completion with the same tag comes first.
`doRead_interrupted` is a run where a signal ends the wait: `do_read` returns
`NoCompletion` while the kernel still holds the request.

The condition speaks of the events of the call (`Prog.trace`): the reply to each access
and the world in which the access acts.
-/

set_option autoImplicit false

namespace Ququmatz

open Lib

/-- An access of a call: the kernel's reply, and the world in which the access acts. -/
abbrev KEvent := Option EnterReply × World

/-- The kernel serves the call: no `io_uring_enter` fails, and each time one has returned
an unread completion is there when the ring next looks. -/
def Attended : Bool → List KEvent → Prop
  | _, [] => True
  | returned, (reply, w) :: rest =>
      (returned = true → w.read.length < w.posted.length) ∧
      (∀ e ks, reply ≠ some ⟨.err e, ks⟩) ∧ Attended reply.isSome rest

/-- Whether the last event was an `io_uring_enter`. -/
def justEntered (returned : Bool) (events : List KEvent) : Bool :=
  events.foldl (fun _ e => e.1.isSome) returned

theorem attended_append (xs ys : List KEvent) (b : Bool) :
    Attended b (xs ++ ys) ↔ Attended b xs ∧ Attended (justEntered b xs) ys := by
  induction xs generalizing b with
  | nil => simp [Attended, justEntered]
  | cons x xs ih =>
      obtain ⟨reply, w⟩ := x
      show (_ ∧ _ ∧ Attended reply.isSome (xs ++ ys)) ↔ (_ ∧ _ ∧ _) ∧ _
      rw [ih]
      simp only [justEntered, List.foldl_cons]
      tauto

/-- An access to memory asks nothing of the kernel. -/
theorem attended_quiet (w : World) (tr : List KEvent) :
    Attended false ((none, w) :: tr) ↔ Attended false tr := by
  show ((_ → _) ∧ (∀ e ks, none ≠ some _) ∧ Attended false tr) ↔ _
  simp

theorem justEntered_quiet (w : World) (tr : List KEvent) :
    justEntered false ((none, w) :: tr) = justEntered false tr := by
  unfold justEntered
  rw [List.foldl_cons, Option.isSome_none]

/-- A run of one access and the rest of a program, with its events. -/
theorem trace_perform {α : Type} {a : Access} {f : a.Ans → RingProg α} {rs : List KRound}
    {w w' : World} {b : α} {tr : List KEvent}
    (hr : (perform a >>= f).run ringMachine rs w = some (b, w'))
    (htr : (perform a >>= f).trace ringMachine rs w = tr) :
    ∃ (r : KRound) (rs' : List KRound) (w1 : World) (x : a.Ans) (w2 : World)
      (tr' : List KEvent),
      rs = r :: rs' ∧ envSteps World.env r.before w = some w1 ∧
      World.access a r.reply w1 = some (x, w2) ∧
      (f x).run ringMachine rs' w2 = some (b, w') ∧
      tr = (r.reply, w1) :: tr' ∧ (f x).trace ringMachine rs' w2 = tr' := by
  obtain ⟨r, rs', w1, x, w2, rfl, h1, h2, h3⟩ := run_perform.mp hr
  exact ⟨r, rs', w1, x, w2, _, rfl, h1, h2, h3, htr.symm.trans (Prog.trace_op h1 h2), rfl⟩

/-! ### The events of each call -/

section Events

variable {v : View} {r r' : IoUring} {w w' : World} {rs : List KRound} {tr : List KEvent}

/-- A push asks nothing of the kernel. -/
theorem IoUring.push_attended {sqe : Sqe} {res : Except Error Unit}
    (hr : (r.push sqe).run ringMachine rs w = some ((res, r'), w'))
    (htr : (r.push sqe).trace ringMachine rs w = tr) :
    Attended false tr ∧ justEntered false tr = false := by
  unfold push at hr htr
  obtain ⟨r1, rs1, w1, _, w2, tr1, rfl, -, ha1, hr1, rfl, htr1⟩ := trace_perform hr htr
  obtain ⟨hq1, rfl, rfl⟩ := World.access_loadSqHead.mp ha1
  -- Refused after the load, or one more access to write the slot.
  by_cases hc : r.sqTailLocal + 1 - w2.sqHead > r.sqMask + 1
  · rw [if_pos hc] at htr1
    simp [← htr1, Prog.trace, Attended, justEntered, hq1]
  · rw [if_neg hc] at hr1 htr1
    obtain ⟨r2, rs2, w3, _, w4, tr2, rfl, -, ha2, -, rfl, htr2⟩ := trace_perform hr1 htr1
    obtain ⟨hq2, -, -⟩ := World.access_writeSqe.mp ha2
    simp [← htr2, Prog.trace, Attended, justEntered, hq1, hq2]

/-- A reap right after an `io_uring_enter` finds a completion exactly when the kernel
served the call. -/
theorem IoUring.complete_attended {res : Option Completion} (h : RingAt v w)
    (ht : r.Tracks v) (hr : r.complete.run ringMachine rs w = some ((res, r'), w'))
    (htr : r.complete.trace ringMachine rs w = tr) :
    (res = none → ¬Attended true tr) ∧
    (∀ c, res = some c → Attended true tr ∧ justEntered true tr = false) := by
  unfold complete at hr htr
  obtain ⟨r1, rs1, w1, _, w2, tr1, rfl, hb1, ha1, hr1, rfl, htr1⟩ := trace_perform hr htr
  obtain ⟨hq1, rfl, rfl⟩ := World.access_loadCqTail.mp ha1
  have h1 := h.steps hb1
  have hempty := h1.cq.queue.empty_iff
  have hle := h1.cq.queue.got_le
  have htail : UInt32.ofNat (v.cqBase + w2.read.length) = r.cqHeadLocal := by
    rw [h1.read]
    exact ht.cq.head.symm
  rw [htail, ← h1.cq.tail] at hempty
  -- Empty at the load of the tail, or not.
  by_cases hc : r.cqHeadLocal = w2.cqTail
  · rw [if_pos hc] at hr1
    obtain ⟨-, hx, -⟩ := Prog.run_ret.mp hr1
    cases hx
    have heq := hempty.mp hc
    refine ⟨fun _ hatt => ?_, fun c hc => absurd hc (by simp)⟩
    have hlt := hatt.1 rfl
    omega
  · rw [if_neg hc] at hr1 htr1
    obtain ⟨r2, rs2, w3, cqe, w4, tr2, rfl, -, ha2, hr2, rfl, htr2⟩ :=
      trace_perform hr1 htr1
    obtain ⟨hq2, -, -⟩ := World.access_readCqe.mp ha2
    obtain ⟨-, hx, -⟩ := Prog.run_ret.mp hr2
    cases hx
    have hne := mt hempty.mpr hc
    refine ⟨fun hn => absurd hn (by simp), fun c _ => ?_⟩
    simp only [Prog.pure_eq, Prog.trace] at htr2
    rw [hq1, hq2, ← htr2]
    refine ⟨⟨fun _ => by omega, by simp, ?_⟩, rfl⟩
    exact ⟨fun hf => absurd hf (by simp), by simp, trivial⟩

/-- The last `io_uring_enter` of a call decides whether the call was served. -/
theorem attended_entered {e : EnterReply} {w1 w2 : World} {toSubmit minComplete : UInt32}
    {flags : EnterFlags} {x : Except Errno Nat} (b : Bool)
    (hfed : b = true → w1.read.length < w1.posted.length)
    (he : w1.enter toSubmit minComplete flags e = some (x, w2)) :
    (∀ n, x = .ok n → Attended b [(some e, w1)]) ∧
    (∀ err, x = .error err → ∀ tr, ¬Attended b ((some e, w1) :: tr)) := by
  rcases World.enter_cases he with ⟨err, hout, rfl, -⟩ | ⟨n, w3, hout, rfl, -⟩
  · refine ⟨fun n hn => absurd hn (by simp), fun err' _ tr hatt => ?_⟩
    -- The failed enter is itself the event that is not served.
    exact hatt.2.1 err e.during (by rw [← hout])
  · refine ⟨fun m _ => ⟨hfed, fun err ks hks => ?_, trivial⟩,
      fun err herr => absurd herr (by simp)⟩
    cases hks
    rcases hout with ⟨hout, -⟩ | hout
    · exact absurd hout (by simp)
    · exact absurd hout (by simp)

/-- A call that ends with an `io_uring_enter` fails exactly when the kernel does not serve
it. -/
theorem lastEnter_attended {fd : RawFd} {toSubmit minComplete : UInt32} {flags : EnterFlags}
    {f : Except Errno Nat → RingProg (Except Error UInt32 × IoUring)} {b : Bool}
    {res : Except Error UInt32} (h : RingAt v w)
    (hfed : b = true → v.read.length < w.posted.length)
    (hok : ∀ n, ∃ m x, f (.ok n) = .ret (.ok m, x))
    (herr : ∀ e, ∃ e' x, f (.error e) = .ret (.error e', x))
    (hr : (perform (.enter fd toSubmit minComplete flags) >>= f).run ringMachine rs w
      = some ((res, r'), w'))
    (htr : (perform (.enter fd toSubmit minComplete flags) >>= f).trace ringMachine rs w = tr) :
    (∀ m, res = .ok m → Attended b tr ∧ justEntered b tr = true) ∧
    (∀ e, res = .error e → ¬Attended b tr) := by
  obtain ⟨r1, rs1, w1, x, w2, tr1, rfl, hb, ha, hr1, rfl, htr1⟩ := trace_perform hr htr
  obtain ⟨e, hq, he⟩ := World.access_enter.mp ha
  -- The kernel's steps before the enter can only add completions.
  have hfed1 : b = true → w1.read.length < w1.posted.length := by
    intro hb'
    have hgrow := (World.grows_of_steps hb).posted.length_le
    have := hfed hb'
    rw [(h.steps hb).read]
    omega
  have hlast := attended_entered b hfed1 he
  rw [hq]
  cases x with
  | error err =>
      obtain ⟨e', x, hf⟩ := herr err
      rw [hf] at hr1
      obtain ⟨-, hx, -⟩ := Prog.run_ret.mp hr1
      cases hx
      exact ⟨fun m hm => absurd hm (by simp), fun _ _ => hlast.2 err rfl _⟩
  | ok n =>
      obtain ⟨m, x, hf⟩ := hok n
      rw [hf] at hr1 htr1
      obtain ⟨rfl, hx, -⟩ := Prog.run_ret.mp hr1
      cases hx
      cases htr1
      exact ⟨fun m _ => ⟨hlast.1 n rfl, rfl⟩, fun e he => absurd he (by simp)⟩

/-- More than three quarters of the queue in use means that something is unread. -/
theorem RingAt.unread_of_full (h : RingAt v w) (hhead : r.cqHeadLocal
    = UInt32.ofNat (v.cqBase + v.read.length))
    (hfull : w.cqTail - r.cqHeadLocal > r.cqMask + 1 - (r.cqMask + 1) / 4) :
    v.read.length < w.posted.length := by
  have hle := h.cq.queue.got_le
  rw [h.read] at hle
  by_contra hno
  have heq : w.posted.length = v.read.length := by omega
  have htail := h.cq.tail
  rw [heq] at htail
  rw [htail, hhead, UInt32.sub_self] at hfull
  exact absurd hfull (by simp)

/-- `submit_and_wait` fails exactly when the kernel does not serve the call. Between its
two enters the completion queue is not empty: it was three quarters full. -/
theorem IoUring.submitAndWait_attended {n : UInt32} {res : Except Error UInt32}
    (h : RingAt v w) (ht : r.Tracks v)
    (hr : (r.submitAndWait n).run ringMachine rs w = some ((res, r'), w'))
    (htr : (r.submitAndWait n).trace ringMachine rs w = tr) :
    (∀ m, res = .ok m → Attended false tr ∧ justEntered false tr = true) ∧
    (∀ e, res = .error e → ¬Attended false tr) := by
  unfold submitAndWait flushCqHead flushSqTail at hr htr
  obtain ⟨r1, rs1, w1, _, w2, tr1, rfl, hb1, ha1, hr1, rfl, htr1⟩ := trace_perform hr htr
  obtain ⟨r2, rs2, w3, _, w4, tr2, rfl, hb2, ha2, hr2, rfl, htr2⟩ := trace_perform hr1 htr1
  obtain ⟨r3, rs3, w5, _, w6, tr3, rfl, hb3, ha3, hr3, rfl, htr3⟩ := trace_perform hr2 htr2
  obtain ⟨hq1, -, rfl⟩ := World.access_storeCqHead.mp ha1
  obtain ⟨hq2, -, rfl⟩ := World.access_storeSqTail.mp ha2
  obtain ⟨hq3, rfl, rfl⟩ := World.access_loadCqTail.mp ha3
  have h1 := (h.steps hb1).storeCqHead
  rw [← ht.cq.head] at h1
  have h3 := (h1.steps hb2).storeSqTail
  rw [← show r.sqTailLocal = _ from ht.sq.tail] at h3
  have h5 := h3.steps hb3
  rw [hq1, hq2, hq3]
  simp only [attended_quiet, justEntered_quiet]
  -- The backpressure path enters twice, the ordinary one once.
  by_cases hfull : w6.cqTail - r.cqHeadLocal > r.cqMask + 1 - (r.cqMask + 1) / 4
  · rw [if_pos hfull] at hr3 htr3
    obtain ⟨r4, rs4, w7, x, w8, tr4, rfl, hb4, ha4, hr4, rfl, htr4⟩ :=
      trace_perform hr3 htr3
    obtain ⟨e, hq4, he⟩ := World.access_enter.mp ha4
    rw [hq4]
    have hfirst := attended_entered false (fun hf => absurd hf (by simp)) he
    cases x with
    | error err =>
        obtain ⟨-, hx, -⟩ := Prog.run_ret.mp hr4
        cases hx
        exact ⟨fun m hm => absurd hm (by simp), fun _ _ => hfirst.2 err rfl _⟩
    | ok k =>
        -- What was unread at the load of the tail is unread at the second enter.
        have hunread : v.read.length < w8.posted.length := by
          have hg1 := World.grows_of_steps hb4
          have hg2 := World.grows_of_access ha4
          have hle := (hg1.trans hg2).posted.length_le
          have hlt : v.read.length < w6.posted.length := h5.unread_of_full ht.cq.head hfull
          omega
        have hsecond := lastEnter_attended (b := true) ((h5.steps hb4).enter_ok he).2
          (fun _ => hunread) (fun m => ⟨_, _, rfl⟩) (fun m => ⟨_, _, rfl⟩) hr4 htr4
        rw [show (some e, w7) :: tr4 = [(some e, w7)] ++ tr4 from rfl, attended_append]
        refine ⟨fun m hm => ?_, fun e he hatt => hsecond.2 e he hatt.2⟩
        obtain ⟨hatt, hjust⟩ := hsecond.1 m hm
        exact ⟨⟨hfirst.1 k rfl, hatt⟩, hjust⟩
  · rw [if_neg hfull] at hr3 htr3
    exact lastEnter_attended h5 (fun hf => absurd hf (by simp)) (fun m => ⟨_, _, rfl⟩)
      (fun m => ⟨_, _, rfl⟩) hr3 htr3

end Events

/-! ### The loop -/

/-- What a call drained. Either it stopped at the first completion with the tag, and the
kernel served it all along, or there was none and the kernel did not. -/
def Drained (tag : UInt64) (drained : List Cqe) (served : Prop) : Prop :=
  (∃ pre last, drained = pre ++ [last] ∧ (∀ c ∈ pre, c.userData ≠ tag) ∧
      last.userData = tag ∧ served) ∨
    ((∀ c ∈ drained, c.userData ≠ tag) ∧ ¬served)

theorem Drained.congr {tag : UInt64} {ds : List Cqe} {served served' : Prop}
    (h : Drained tag ds served) (hiff : served' ↔ served) : Drained tag ds served' := by
  rw [show served' = served from propext hiff]
  exact h

theorem Drained.cons {tag : UInt64} {cqe : Cqe} {ds : List Cqe} {served : Prop}
    (h : Drained tag ds served) (hne : cqe.userData ≠ tag) : Drained tag (cqe :: ds) served := by
  rcases h with ⟨pre, last, rfl, hpre, hlast, hs⟩ | ⟨hall, hs⟩
  · refine Or.inl ⟨cqe :: pre, last, rfl, ?_, hlast, hs⟩
    intro c hc
    rcases List.mem_cons.mp hc with rfl | hc
    · exact hne
    · exact hpre c hc
  · refine Or.inr ⟨?_, hs⟩
    intro c hc
    rcases List.mem_cons.mp hc with rfl | hc
    · exact hne
    · exact hall c hc

section Loop

variable {v : View} {r r' : IoUring} {w w' : World} {rs : List KRound} {tr : List KEvent}

/-- `submit_and_wait` leaves the two histories of the crate alone. -/
theorem IoUring.submitAndWait_run {n : UInt32} {res : Except Error UInt32} (h : RingAt v w)
    (ht : r.Tracks v) (hr : (r.submitAndWait n).run ringMachine rs w = some ((res, r'), w')) :
    ∃ v', v.Fixed v' ∧ v'.written = v.written ∧ v'.read = v.read ∧ RingAt v' w' ∧
      r'.Tracks v' := by
  obtain ⟨c, hx, hw, -⟩ := IoUring.submitAndWait_spec ht n rs w _ w' h hr
  cases hx
  exact ⟨{ v with
      sqPub := v.written.length, cqPub := v.read.length, head := v.head + c },
    ⟨rfl, rfl, rfl⟩, rfl, rfl, hw, ht.sq.moved c _ _, ht.cq.mask, ht.cq.head⟩

/-- The loop, entered right after an `io_uring_enter`. -/
theorem IoUring.runOneLoop_run {tag : UInt64} {fuel : Nat} {stray : Option UInt64}
    {res : Except Error UInt32} (h : RingAt v w) (ht : r.Tracks v)
    (hr : (runOneLoop tag fuel r stray).run ringMachine rs w = some ((some res, r'), w'))
    (htr : (runOneLoop tag fuel r stray).trace ringMachine rs w = tr) :
    ∃ ds v', v.Fixed v' ∧ v'.written = v.written ∧ v'.read = v.read ++ ds ∧ RingAt v' w' ∧
      Drained tag ds (Attended true tr) := by
  induction fuel generalizing r stray v w rs tr with
  | zero =>
      obtain ⟨-, hx, -⟩ := Prog.run_ret.mp hr
      cases hx
  | succ fuel ih =>
      unfold runOneLoop at hr htr
      obtain ⟨rs1, rs2, ⟨c, r1⟩, w1, rfl, hr1, hr2⟩ := Prog.run_bind.mp hr
      rw [Prog.trace_bind hr1] at htr
      subst htr
      have hatt := IoUring.complete_attended h ht hr1 rfl
      obtain ⟨rd, rs', w2, -, -, hcase⟩ := IoUring.complete_run h ht hr1
      rcases hcase with ⟨-, rfl, rfl, hw⟩ | ⟨o, cqe, -, rfl, hw, ht1⟩
      · -- The queue was empty: the loop gives up.
        obtain ⟨-, -, rfl⟩ := Prog.run_ret.mp hr2
        refine ⟨[], v, ⟨rfl, rfl, rfl⟩, rfl, (List.append_nil _).symm, hw,
          Or.inr ⟨by simp, ?_⟩⟩
        rw [attended_append]
        exact fun hboth => hatt.1 rfl hboth.1
      · obtain ⟨hatt1, hjust⟩ := hatt.2 _ rfl
        by_cases htag : (Completion.ofCqe cqe).userData = tag
        · -- The completion with the tag: whatever is returned, it was reaped.
          simp only [htag, if_true] at hr2
          refine ⟨[cqe], { v with read := v.read ++ [cqe] }, ⟨rfl, rfl, rfl⟩, rfl, rfl, ?_,
            Or.inl ⟨[], cqe, rfl, by simp, htag, ?_⟩⟩
          · cases stray with
            | none =>
                obtain ⟨-, -, rfl⟩ := Prog.run_ret.mp hr2
                exact hw
            | some found =>
                obtain ⟨-, -, rfl⟩ := Prog.run_ret.mp hr2
                exact hw
          · rw [attended_append]
            refine ⟨hatt1, ?_⟩
            simp only [htag, if_true]
            cases stray with
            | none => exact trivial
            | some found => exact trivial
        · simp only [htag, if_false] at hr2 ⊢
          obtain ⟨rs3, rs4, ⟨waited, r2⟩, w3, rfl, hr3, hr4⟩ := Prog.run_bind.mp hr2
          have hwait := IoUring.submitAndWait_attended hw ht1 hr3 rfl
          obtain ⟨v3, hfix, hwr, hrd, hw3, ht3⟩ := IoUring.submitAndWait_run hw ht1 hr3
          rw [Prog.trace_bind hr3, attended_append, hjust, attended_append]
          cases waited with
          | error e =>
              -- The wait failed: the call returns with its request in flight.
              obtain ⟨-, -, rfl⟩ := Prog.run_ret.mp hr4
              refine ⟨[cqe], v3, ⟨hfix.params, hfix.sqBase, hfix.cqBase⟩, hwr, hrd, hw3,
                Or.inr ⟨?_, fun hboth => hwait.2 e rfl hboth.2.1⟩⟩
              intro c hc
              rw [List.mem_singleton.mp hc]
              exact htag
          | ok m =>
              obtain ⟨hserved, hjust3⟩ := hwait.1 m rfl
              obtain ⟨ds, v', hfix', hwr', hrd', hw', hdrain⟩ := ih hw3 ht3 hr4 rfl
              refine ⟨cqe :: ds, v', ?_, hwr'.trans hwr, ?_, hw',
                (hdrain.cons htag).congr ?_⟩
              · exact View.Fixed.trans ⟨hfix.params, hfix.sqBase, hfix.cqBase⟩ hfix'
              · rw [hrd', hrd, List.append_assoc]
                rfl
              · rw [hjust3]
                exact ⟨fun hboth => hboth.2.2, fun hs => ⟨hatt1, hserved, hs⟩⟩

/-- A `run_one`: refused because the ring was full when `push` looked, or its SQE is the
next one written and the call drained completions. -/
theorem IoUring.runOne_run {fuel : Nat} {sqe : Sqe} {res : Except Error UInt32}
    (h : RingAt v w) (ht : r.Tracks v)
    (hr : (r.runOne fuel sqe).run ringMachine rs w = some ((some res, r'), w'))
    (htr : (r.runOne fuel sqe).trace ringMachine rs w = tr) :
    ∃ rd rs' w1, rs = rd :: rs' ∧ envSteps World.env rd.before w = some w1 ∧
      ((v.written.length = w1.consumed.length + v.params.sq.size ∧ RingAt v w') ∨
        (v.written.length < w1.consumed.length + v.params.sq.size ∧
          ∃ ds v', v'.written = v.written ++ [sqe.withUserData r.doTagNext] ∧
            v'.read = v.read ++ ds ∧ RingAt v' w' ∧
            Drained r.doTagNext ds (Attended false tr))) := by
  unfold runOne at hr htr
  simp only [IoUring.nextDoTag] at hr htr
  -- Taking the tag changes no counter of the queues.
  have ht0 : ({ r with
      doTagNext := DO_TAG_MARKER ||| (r.doTagNext + 1 &&& ~~~DO_TAG_MARKER) } : IoUring).Tracks
      v := ⟨⟨ht.sq.mask, ht.sq.tail, ht.sq.submitted⟩, ht.cq.mask, ht.cq.head⟩
  obtain ⟨rs1, rs2, ⟨pushed, r1⟩, w1, rfl, hr1, hr2⟩ := Prog.run_bind.mp hr
  obtain ⟨hatt1, hjust1⟩ := IoUring.push_attended hr1 rfl
  rw [Prog.trace_bind hr1] at htr
  subst htr
  obtain ⟨rd, rs', w2, rfl, hb, hcase⟩ := IoUring.push_run h ht0 hr1
  refine ⟨rd, rs' ++ rs2, w2, rfl, hb, ?_⟩
  rcases hcase with ⟨hfull, rfl, -, hw⟩ | ⟨hroom, rfl, hw, ht1⟩
  · obtain ⟨-, -, rfl⟩ := Prog.run_ret.mp hr2
    exact Or.inl ⟨hfull, hw⟩
  · refine Or.inr ⟨hroom, ?_⟩
    obtain ⟨rs3, rs4, ⟨waited, r2⟩, w3, rfl, hr3, hr4⟩ := Prog.run_bind.mp hr2
    have hwait := IoUring.submitAndWait_attended hw ht1 hr3 rfl
    obtain ⟨v3, hfix, hwr, hrd, hw3, ht3⟩ := IoUring.submitAndWait_run hw ht1 hr3
    show ∃ ds v', _ ∧ _ ∧ _ ∧ Drained _ ds (Attended false (_ ++ Prog.trace ringMachine
      (_ >>= _) (rs3 ++ rs4) w1))
    rw [Prog.trace_bind hr3, attended_append, hjust1, attended_append]
    cases waited with
    | error e =>
        obtain ⟨-, -, rfl⟩ := Prog.run_ret.mp hr4
        refine ⟨[], v3, hwr, hrd.trans (List.append_nil _).symm, hw3,
          Or.inr ⟨by simp, fun hboth => hwait.2 e rfl hboth.2.1⟩⟩
    | ok m =>
        obtain ⟨hserved, hjust3⟩ := hwait.1 m rfl
        obtain ⟨ds, v', -, hwr', hrd', hw', hdrain⟩ := IoUring.runOneLoop_run hw3 ht3 hr4 rfl
        refine ⟨ds, v', hwr'.trans hwr, by rw [hrd', hrd], hw', ?_⟩
        rw [hjust3]
        exact hdrain.congr ⟨fun hboth => hboth.2.2, fun hs => ⟨hatt1, hserved, hs⟩⟩

end Loop

/-! ### The contract of a borrow -/

/-- The borrow of a `do_*` call that took the world from `w` to `w'` has ended: its SQE was
refused, or the completion of that SQE, the `k`-th accepted one, was reaped. -/
def BorrowEnded (k : Nat) (w w' : World) : Prop :=
  w'.written = w.written ∨
    ∃ i cqe, w.read.length ≤ i ∧ i < w'.read.length ∧
      w'.posted[i]? = some (.request k, cqe)

/-- Among the completions from position `n` on, the first one with the tag completes the
`k`-th accepted SQE. -/
def OwnTagFirst (tag : UInt64) (k n : Nat) (posted : List (Origin × Cqe)) : Prop :=
  ∀ i o cqe, n ≤ i → posted[i]? = some (o, cqe) → cqe.userData = tag →
    (∀ j p, n ≤ j → j < i → posted[j]? = some p → p.2.userData ≠ tag) → o = .request k

/-- What was read was posted at the same place. -/
theorem RingAt.posted_of_read {v : View} {w : World} (h : RingAt v w) {i : Nat} {cqe : Cqe}
    (hi : v.read[i]? = some cqe) : ∃ o, w.posted[i]? = some (o, cqe) := by
  obtain ⟨t, ht⟩ := h.cq.queue.got_prefix
  obtain ⟨hlt, -⟩ := List.getElem?_eq_some_iff.mp hi
  have hget : (w.posted.map Prod.snd)[i]? = some cqe := by
    rw [← ht, h.read, List.getElem?_append_left hlt]
    exact hi
  rw [List.getElem?_map] at hget
  obtain ⟨⟨o, c⟩, hp, hc⟩ := Option.map_eq_some_iff.mp hget
  cases hc
  exact ⟨o, hp⟩

/-- What was posted at a place that was read is what was read there. -/
theorem RingAt.read_of_posted {v : View} {w : World} (h : RingAt v w) {i : Nat}
    {p : Origin × Cqe} (hi : i < v.read.length) (hp : w.posted[i]? = some p) :
    v.read[i]? = some p.2 := by
  obtain ⟨o, hp'⟩ := h.posted_of_read (List.getElem?_eq_getElem hi)
  rw [hp] at hp'
  cases hp'
  exact List.getElem?_eq_getElem hi

/-- What was posted at a place that was read last is what was read last. -/
theorem RingAt.drained_of_posted {v : View} {w : World} (h : RingAt v w) {xs ds : List Cqe}
    (hrd : v.read = xs ++ ds) {i : Nat} {p : Origin × Cqe} (hi1 : xs.length ≤ i)
    (hi2 : i < v.read.length) (hp : w.posted[i]? = some p) :
    ds[i - xs.length]? = some p.2 := by
  have hget := h.read_of_posted hi2 hp
  rw [hrd, List.getElem?_append_right hi1] at hget
  exact hget

/-- The first completion with the tag decides `OwnTagFirst`. -/
theorem ownTagFirst_iff {tag : UInt64} {k n m : Nat} {posted : List (Origin × Cqe)}
    {o : Origin} {last : Cqe} (hn : n ≤ m) (hm : posted[m]? = some (o, last))
    (hlast : last.userData = tag)
    (hbefore : ∀ j p, n ≤ j → j < m → posted[j]? = some p → p.2.userData ≠ tag) :
    OwnTagFirst tag k n posted ↔ o = .request k := by
  constructor
  · intro hown
    exact hown m o last hn hm hlast hbefore
  · rintro rfl i o' cqe hi hp hcqe hfirst
    -- Another first completion with the tag would have to be at the same place.
    rcases Nat.lt_trichotomy i m with hlt | rfl | hgt
    · exact absurd hcqe (hbefore i _ hi hlt hp)
    · rw [hm] at hp
      cases hp
      rfl
    · exact absurd hlast (hfirst m _ hn hgt hm)

/-- The completions of the `k`-th accepted SQE carry its `user_data`. -/
theorem RingAt.userData_of_request {v : View} {w : World} (h : RingAt v w)
    (hauth : w.Authentic) {k i : Nat} {sqe : Sqe} {cqe : Cqe}
    (hk : v.written[k]? = some sqe) (hp : w.posted[i]? = some (.request k, cqe)) :
    cqe.userData = sqe.userData := by
  obtain ⟨sqe', hc, hu⟩ := hauth _ (List.mem_of_getElem? hp)
  obtain ⟨t, ht⟩ := h.sq.queue.got_prefix
  obtain ⟨hlt, -⟩ := List.getElem?_eq_some_iff.mp hc
  rw [h.written] at ht
  -- What the kernel read at `k` is what was written at `k`.
  rw [← ht, List.getElem?_append_left hlt, hc] at hk
  cases hk
  exact hu

/-- Whether the borrow of an accepted call has ended, by what the call drained. -/
theorem Drained.borrowEnded_iff {v v' : View} {w' : World} {k : Nat} {sqe : Sqe}
    {tag : UInt64} {ds : List Cqe} {served : Prop} (h : Drained tag ds served)
    (hw : RingAt v' w') (hauth : w'.Authentic) (hrd : v'.read = v.read ++ ds)
    (hk : v'.written[k]? = some (sqe.withUserData tag)) :
    (∃ i cqe, v.read.length ≤ i ∧ i < v'.read.length ∧
        w'.posted[i]? = some (.request k, cqe)) ↔
      served ∧ OwnTagFirst tag k v.read.length w'.posted := by
  -- The completions of the call's own SQE carry the tag.
  have hown : ∀ {i : Nat} {cqe : Cqe}, w'.posted[i]? = some (.request k, cqe) →
      cqe.userData = tag := fun hp => hw.userData_of_request hauth hk hp
  have hlen : v'.read.length = v.read.length + ds.length := by rw [hrd, List.length_append]
  rcases h with ⟨pre, last, rfl, hpre, hlast, hserved⟩ | ⟨hall, hnot⟩
  · -- The call stopped at a completion with the tag. It is its own exactly when its own
    -- is the first with the tag.
    rw [List.length_append, List.length_singleton] at hlen
    have hstop : v'.read[v.read.length + pre.length]? = some last := by
      rw [hrd, List.getElem?_append_right (by omega)]
      simp
    obtain ⟨o, hposted⟩ := hw.posted_of_read hstop
    have hbefore : ∀ j p, v.read.length ≤ j → j < v.read.length + pre.length →
        w'.posted[j]? = some p → p.2.userData ≠ tag := by
      intro j p hj1 hj2 hp
      have hget := hw.drained_of_posted hrd hj1 (by omega) hp
      rw [List.getElem?_append_left (by omega)] at hget
      exact hpre p.2 (List.mem_of_getElem? hget)
    rw [ownTagFirst_iff (by omega) hposted hlast hbefore, and_iff_right hserved]
    constructor
    · rintro ⟨i, cqe, hi1, hi2, hp⟩
      have hi : i = v.read.length + pre.length := by
        by_contra hne
        exact hbefore i _ hi1 (by omega) hp (hown hp)
      subst hi
      rw [hp] at hposted
      cases hposted
      rfl
    · rintro rfl
      exact ⟨v.read.length + pre.length, last, by omega, by omega, hposted⟩
  · -- No completion with the tag was reaped, so not the call's own either.
    refine iff_of_false ?_ (fun hboth => hnot hboth.1)
    rintro ⟨i, cqe, hi1, hi2, hp⟩
    exact hall cqe (List.mem_of_getElem? (hw.drained_of_posted hrd hi1 hi2 hp)) (hown hp)

/-- When `run_one` returns, the kernel is done with the borrowed slice exactly when the push was
refused, or every wait was answered and the first CQE with the tag was the call's own. -/
theorem runOne_borrowEnded_iff (params : RingParams) (resources : RingResources)
    (sqStart cqStart : UInt32) (sqArray : Nat → UInt32) (sqes : Nat → Sqe) (cqes : Nat → Cqe)
    (as : List Action) (s : Sys) (r r' : IoUring) (fuel : Nat) (sqe : Sqe)
    (rs : List KRound) (res : Except Error UInt32) (w' : World)
    (hr : (Sys.init params resources sqStart cqStart sqArray sqes cqes).run as = some s)
    (hwhole : s.handles = .whole r)
    (hrun : (r.runOne fuel sqe).run ringMachine rs s.world = some ((some res, r'), w')) :
    BorrowEnded s.accepted.length s.world w' ↔
      ((∃ rd rs' w1, rs = rd :: rs' ∧ envSteps World.env rd.before s.world = some w1 ∧
          s.accepted.length = w1.consumed.length + params.sq.size) ∨
        (Attended false ((r.runOne fuel sqe).trace ringMachine rs s.world) ∧
          OwnTagFirst r.doTagNext s.accepted.length s.world.read.length w'.posted)) := by
  obtain ⟨v, hf, -⟩ := (Sys.init_inv params resources sqStart cqStart sqArray sqes
    cqes).run hr
  have h := hf.inv
  have ht := h.tracks
  rw [hwhole] at ht
  have hauth : w'.Authentic := by
    have hinit : (Sys.init params resources sqStart cqStart sqArray sqes
        cqes).world.Authentic := by
      intro p hp
      rw [Sys.init_posted] at hp
      cases hp
    exact Prog.run_keeps authentic_invariant (Sys.run_world authentic_invariant hinit hr) hrun
  have hlen : s.accepted.length = v.written.length := by rw [h.accepted]
  have hparams : v.params = params := hf.fixed.params
  rw [hlen, h.ring.read]
  -- the push decides first, before any completion is read
  obtain ⟨rd, rs', w1, hrs, hb, hcase⟩ := IoUring.runOne_run h.ring ht hrun rfl
  rw [hparams] at hcase
  rcases hcase with ⟨hfull, hw⟩ | ⟨hroom, ds, v', hwr, hrd, hw, hdrain⟩
  · -- Refused: the ring was full, and nothing was written.
    refine iff_of_true (Or.inl ?_) (Or.inl ⟨rd, rs', w1, hrs, hb, hfull⟩)
    rw [hw.written, h.ring.written]
  · -- Accepted: the ring was not full, and something was written.
    have hnotFull : ¬∃ rd rs' w1, rs = rd :: rs' ∧
        envSteps World.env rd.before s.world = some w1 ∧
        v.written.length = w1.consumed.length + params.sq.size := by
      rintro ⟨rd', rs'', w2, hrs', hb', hfull⟩
      rw [hrs] at hrs'
      cases hrs'
      rw [hb] at hb'
      cases hb'
      omega
    have hgrew : ¬w'.written = s.world.written := by
      rw [hw.written, h.ring.written, hwr]
      simp
    have htagged : v'.written[v.written.length]? = some (sqe.withUserData r.doTagNext) := by
      rw [hwr]
      exact List.getElem?_concat_length
    rw [or_iff_right hnotFull]
    unfold BorrowEnded
    rw [or_iff_right hgrew, hw.read, h.ring.read]
    exact hdrain.borrowEnded_iff hw hauth hrd htagged

/-- The handle of `Sys.wrapping`. -/
def wrappingRing : IoUring := IoUring.fromParsed Sys.wrapping.world

/-- A `do_read` of 16 bytes that the kernel serves. -/
def servedRead : List KRound :=
  [.quiet, .quiet, .quiet, .quiet, .quiet,
    .entered ⟨.ok 1, [.post (.request 0) ⟨IoUring.DO_TAG_MARKER, 16, 0⟩]⟩, .quiet, .quiet]

theorem doRead_served :
    ∃ r' w', (wrappingRing.doRead 1 ⟨5⟩ ⟨0x1000, 16⟩ 0).run ringMachine servedRead
        Sys.wrapping.world = some ((some (.ok 16), r'), w') ∧
      BorrowEnded 0 Sys.wrapping.world w' ∧
      ((∃ rd rs' w1, servedRead = rd :: rs' ∧
          envSteps World.env rd.before Sys.wrapping.world = some w1 ∧
          0 = w1.consumed.length + 2) ∨
        (Attended false ((wrappingRing.doRead 1 ⟨5⟩ ⟨0x1000, 16⟩ 0).trace ringMachine
            servedRead Sys.wrapping.world) ∧
          OwnTagFirst wrappingRing.doTagNext 0 0 w'.posted)) := by
  have heval : ((wrappingRing.doRead 1 ⟨5⟩ ⟨0x1000, 16⟩ 0).run ringMachine servedRead
      Sys.wrapping.world).map (fun x => (x.1.1, x.2.read.length, x.2.posted))
      = some (some (.ok 16), 1, [(.request 0, ⟨IoUring.DO_TAG_MARKER, 16, 0⟩)]) := by
    decide +kernel
  -- the run is evaluated as a whole; what the theorem speaks of is read off
  obtain ⟨⟨⟨res, r'⟩, w'⟩, hrun, hx⟩ := Option.map_eq_some_iff.mp heval
  obtain ⟨hres, hx⟩ := Prod.mk.inj hx
  obtain ⟨hread, hposted⟩ := Prod.mk.inj hx
  change res = some (.ok 16) at hres
  subst hres
  have hended : BorrowEnded 0 Sys.wrapping.world w' := by
    refine Or.inr ⟨0, ⟨IoUring.DO_TAG_MARKER, 16, 0⟩, by decide, ?_, ?_⟩
    · change w'.read.length = 1 at hread
      omega
    · change w'.posted = _ at hposted
      rw [hposted]
      rfl
  exact ⟨r', w', hrun, hended,
    (runOne_borrowEnded_iff _ _ _ _ _ _ _ [] Sys.wrapping wrappingRing r' 1 _ servedRead
      (.ok 16) w' rfl rfl hrun).mp hended⟩

/-- A `do_read` whose `io_uring_enter` submits the SQE and is then interrupted. -/
def interruptedRead : List KRound :=
  [.quiet, .quiet, .quiet, .quiet, .quiet, .entered ⟨.early 1, []⟩, .quiet]

/-- `do_read` returns `NoCompletion`, and the kernel still holds the request that names
the caller's slice. -/
theorem doRead_interrupted :
    ∃ r' w', (wrappingRing.doRead 1 ⟨5⟩ ⟨0x1000, 16⟩ 0).run ringMachine interruptedRead
        Sys.wrapping.world = some ((some (.error (.completion .noCompletion)), r'), w') ∧
      w'.consumed = [(Sqe.read ⟨5⟩ ⟨0x1000, 16⟩ 0).withUserData wrappingRing.doTagNext] ∧
      w'.finished 0 = false ∧ ¬BorrowEnded 0 Sys.wrapping.world w' := by
  have heval : ((wrappingRing.doRead 1 ⟨5⟩ ⟨0x1000, 16⟩ 0).run ringMachine interruptedRead
      Sys.wrapping.world).map (fun x => (x.1.1, x.2.consumed, x.2.finished 0,
        x.2.written.length, x.2.read.length))
      = some (some (.error (.completion .noCompletion)),
          [(Sqe.read ⟨5⟩ ⟨0x1000, 16⟩ 0).withUserData wrappingRing.doTagNext],
          false, 1, 0) := by
    decide +kernel
  obtain ⟨⟨⟨res, r'⟩, w'⟩, hrun, hx⟩ := Option.map_eq_some_iff.mp heval
  simp only [Prod.mk.injEq] at hx
  obtain ⟨rfl, hconsumed, hfin, hwritten, hread⟩ := hx
  refine ⟨r', w', hrun, hconsumed, hfin, ?_⟩
  rintro (heq | ⟨i, cqe, hi1, hi2, -⟩)
  · rw [heq] at hwritten
    exact absurd hwritten (by decide)
  · omega

end Ququmatz
