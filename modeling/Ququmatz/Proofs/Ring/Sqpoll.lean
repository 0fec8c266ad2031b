import Ququmatz.Proofs.Ring.Fifo
import Ququmatz.Ring.Sqpoll

/-!
# `Ququmatz.Proofs.Ring.Sqpoll`: when a wakeup can be lost

`submit_sqpoll` stores the tail and then loads the flags, with nothing between the two that
waits for the store to be delivered. `wakeup_lost` is the run that goes wrong: the flags are
loaded while the store is still under way, the thread raises `NEED_WAKEUP` too late for the
load, reads the old tail, and sleeps.

`no_lost_wakeup` is the rest: a wakeup is lost only if the thread falls asleep while a store
that it has not caught up with, of a call that has settled, is under way (`PollWorld.punctual`
rules this out). The invariant is `PollInv`; `PollWorld.env_spec` says once what a step of the
memory or the thread does to everything in it.
-/

set_option autoImplicit false

namespace Ququmatz

open Lib

/-! ### The programs, unfolded -/

namespace Side

/-- The submission half of either side. -/
def sub : Side → Submitter
  | .ring r => r.submitter
  | .half s => s

/-- The side with the counters of a submission half. -/
def put : Side → Submitter → Side
  | .ring r, s => .ring (r.withSubmitter s)
  | .half _, s => .half s

@[simp] theorem sub_put (side : Side) (t x : UInt32) :
    (side.put { side.sub with sqTailLocal := t, sqSubmitted := x }).sub
      = { side.sub with sqTailLocal := t, sqSubmitted := x } := by
  cases side <;> rfl

/-- The side after `sq_submitted` was set to the local tail. -/
def submitted (side : Side) : Side :=
  side.put { side.sub with sqSubmitted := side.sub.sqTailLocal }

/-- `submit_sqpoll` in front of its `io_uring_enter`. -/
def waking (side : Side) : RingProg (Except Error Unit × Side) :=
  Prog.op (S := ringSig) (.enter side.sub.fd 0 0 EnterFlags.SQ_WAKEUP)
    fun (x : Except Errno Nat) =>
      match x with
      | .error e => .ret (.error (.syscall e), side.submitted)
      | .ok _ => .ret (.ok (), side.submitted)

/-- `submit_sqpoll` after its store of the tail. -/
def stored (side : Side) : RingProg (Except Error Unit × Side) :=
  Prog.op (S := ringSig) .loadSqFlags fun (flags : UInt32) =>
    if needsWakeup flags then side.waking else .ret (.ok (), side.submitted)

theorem submitSqpoll_eq (side : Side) :
    side.submitSqpoll
      = Prog.op (S := ringSig) (.storeSqTail side.sub.sqTailLocal) fun _ => side.stored := by
  cases side with
  | ring r =>
      refine congrArg (Prog.op _) (funext fun _ =>
        congrArg (Prog.op _) (funext fun (flags : UInt32) => ?_))
      refine (Prog.ite_bind _ _ _ _).trans (ite_congr rfl (fun _ => ?_) fun _ => rfl)
      refine congrArg (Prog.op _) (funext fun (x : Except Errno Nat) => ?_)
      cases x with
      | ok n => rfl
      | error e => rfl
  | half s =>
      refine congrArg (Prog.op _) (funext fun _ =>
        congrArg (Prog.op _) (funext fun (flags : UInt32) => ?_))
      refine (Prog.ite_bind _ _ _ _).trans (ite_congr rfl (fun _ => ?_) fun _ => rfl)
      refine congrArg (Prog.op _) (funext fun (x : Except Errno Nat) => ?_)
      cases x with
      | ok n => rfl
      | error e => rfl

/-- `push` after it found room. -/
def writing (side : Side) (sqe : Sqe) : RingProg (Except Error Unit × Side) :=
  Prog.op (S := ringSig) (.writeSqe (side.sub.sqTailLocal &&& side.sub.sqMask) sqe) fun _ =>
    .ret (.ok (), side.put { side.sub with sqTailLocal := side.sub.sqTailLocal + 1 })

theorem push_eq (side : Side) (sqe : Sqe) :
    side.push sqe = Prog.op (S := ringSig) .loadSqHead fun (head : UInt32) =>
      if side.sub.sqTailLocal + 1 - head > side.sub.sqMask + 1 then
        .ret (.error (.submit .queueFull), side)
      else side.writing sqe := by
  cases side with
  | ring r =>
      refine congrArg (Prog.op _) (funext fun (head : UInt32) => ?_)
      exact (Prog.ite_bind _ _ _ _).trans (ite_congr rfl (fun _ => rfl) fun _ => rfl)
  | half s =>
      refine congrArg (Prog.op _) (funext fun (head : UInt32) => ?_)
      exact (Prog.ite_bind _ _ _ _).trans (ite_congr rfl (fun _ => rfl) fun _ => rfl)

end Side

/-! ### The memory and the thread -/

theorem needsWakeup_raise (f : UInt32) :
    needsWakeup (f ||| IORING_SQ_NEED_WAKEUP) = true := by
  rw [needsWakeup, bne_iff_ne, show IORING_SQ_NEED_WAKEUP = 1 by decide]
  intro h
  -- The flag is one bit, and it was or-ed in.
  have hbits := congrArg UInt32.toNat h
  rw [UInt32.toNat_and, UInt32.toNat_or, Nat.and_or_distrib_right] at hbits
  simp at hbits

/-- The memory with the stores on their way: the thread sees the tail of `d` entries, the
stores are later tails in order, and the flag is up unless the thread polls. -/
structure PollWorld.Sound (b d : Nat) (w : PollWorld) : Prop where
  sq : SqAt b d w.mem
  stores : ∀ st ∈ w.buffer, st.tail = UInt32.ofNat (b + st.upTo) ∧ d ≤ st.upTo ∧
    st.upTo ≤ w.mem.written.length
  sorted : w.buffer.Pairwise fun x y => x.upTo ≤ y.upTo
  flag : w.poller ≠ .polling → needsWakeup w.mem.sqFlags = true

/-- A store of a tail that covers `n` entries is delivered or under way. -/
def PollWorld.Sent (d n : Nat) (w : PollWorld) : Prop :=
  n ≤ d ∨ ∃ st ∈ w.buffer, n ≤ st.upTo

/-- Nobody will wake the thread for the first `n` entries again, and this is fine: a
settled store of them is delivered or under way, and a thread that sleeps has consumed
them or will be woken. -/
structure PollWorld.Served (d n : Nat) (w : PollWorld) : Prop where
  sent : n ≤ d ∨ ∃ st ∈ w.buffer, st.settled = true ∧ n ≤ st.upTo
  awake : w.poller = .asleep → w.wake = false → n ≤ w.mem.consumed.length

namespace PollWorld

variable {b d : Nat} {w w' : PollWorld}

theorem punctual_recheck (h : w.punctual .recheck = true) (hsame : w.mem.sqHead = w.mem.sqTail)
    (hwake : w.wake = false) {st : TailStore} (hst : st ∈ w.buffer)
    (hset : st.settled = true) : st.tail = w.mem.sqHead := by
  simp only [punctual, hsame, hwake, bne_self_eq_false, Bool.false_or] at h
  have hall := List.all_eq_true.mp h st hst
  simp only [hset, Bool.not_true, Bool.false_or, beq_iff_eq] at hall
  rw [hsame]
  exact hall

/-- A settled store equal to the head covers only consumed entries. -/
theorem Sound.upTo_of_tail (h : Sound b d w) {st : TailStore} (hst : st ∈ w.buffer)
    (heq : st.tail = w.mem.sqHead) : st.upTo = w.mem.consumed.length := by
  obtain ⟨htail, hd, hle⟩ := h.stores st hst
  have hgot := h.sq.queue.got_le
  have hroom := h.sq.queue.room
  have hsize := w.mem.params.sq.size_lt
  rw [htail, h.sq.head] at heq
  -- Head and store are less than one ring apart, so equal indices are equal positions.
  have hinj := (ofNat_inj_window (by omega) (by omega)).mp heq.symm
  omega

/-- What a step of the memory or the thread keeps. -/
structure Kept (b d : Nat) (w w' : PollWorld) : Prop where
  sound : ∃ d', w'.Sound b d' ∧ (∀ n, w.Sent d n → w'.Sent d' n) ∧
    ∀ n, w.Served d n → w'.Served d' n
  written : w'.mem.written = w.mem.written
  params : w'.mem.params = w.mem.params
  consumed : w.mem.consumed.length ≤ w'.mem.consumed.length

theorem Sound.deliver (h : Sound b d w) (hk : w.env .deliver = some w') : Kept b d w w' := by
  simp only [env] at hk
  split at hk
  · exact absurd hk (by simp)
  · rename_i st rest hbuf
    cases hk
    obtain ⟨htail, hd, hle⟩ := h.stores st (by rw [hbuf]; exact List.mem_cons_self)
    have hsorted := h.sorted
    rw [hbuf, List.pairwise_cons] at hsorted
    -- The oldest store becomes the tail that the thread sees.
    refine ⟨⟨st.upTo, ⟨?_, ?_, hsorted.2, h.flag⟩, ?_, ?_⟩, rfl, rfl, Nat.le_refl _⟩
    · rw [htail]
      exact h.sq.setTail hd hle
    · intro x hx
      have hmem : x ∈ w.buffer := by
        rw [hbuf]
        exact List.mem_cons_of_mem st hx
      exact ⟨(h.stores x hmem).1, hsorted.1 x hx, (h.stores x hmem).2.2⟩
    · rintro n (hn | ⟨x, hx, hn⟩)
      · exact Or.inl (Nat.le_trans hn hd)
      · rw [hbuf] at hx
        rcases List.mem_cons.mp hx with rfl | hx
        · exact Or.inl hn
        · exact Or.inr ⟨x, hx, hn⟩
    · intro n hs
      refine ⟨?_, hs.awake⟩
      rcases hs.sent with hn | ⟨x, hx, hset, hn⟩
      · exact Or.inl (Nat.le_trans hn hd)
      · rw [hbuf] at hx
        rcases List.mem_cons.mp hx with rfl | hx
        · exact Or.inl hn
        · exact Or.inr ⟨x, hx, hset, hn⟩

/-- A change of the flags and of the thread's own state. -/
theorem Sound.turn (h : Sound b d w) {flags : UInt32} {poller : Poller} {wake : Bool}
    (hflag : poller ≠ .polling → needsWakeup flags = true)
    (hawake : ∀ n, w.Served d n → poller = .asleep → wake = false →
      n ≤ w.mem.consumed.length) :
    Kept b d w { w with
      mem := { w.mem with sqFlags := flags }, poller := poller, wake := wake } := by
  refine ⟨⟨d, ⟨⟨h.sq.queue, h.sq.head, h.sq.tail, h.sq.array⟩, h.stores, h.sorted, hflag⟩,
    fun _ hs => hs, fun n hs => ⟨hs.sent, hawake n hs⟩⟩, rfl, rfl, Nat.le_refl _⟩

theorem Sound.consume (h : Sound b d w) (hk : w.env .consume = some w') :
    Kept b d w w' := by
  simp only [env] at hk
  split at hk
  · rename_i hpoll
    obtain ⟨m, hm, rfl⟩ := Option.map_eq_some_iff.mp hk
    have hsq := h.sq.consumeOne hm
    obtain ⟨sqe, -, -, rfl⟩ := h.sq.consumeOne_eq hm
    refine ⟨⟨d, ⟨hsq, h.stores, h.sorted, fun hne => absurd hpoll hne⟩, fun _ hs => hs,
      fun n hs => ⟨hs.sent, ?_⟩⟩, rfl, rfl, ?_⟩
    · -- A thread that reads an entry is not asleep.
      intro hasleep
      rw [show w.poller = .asleep from hasleep] at hpoll
      exact absurd hpoll (by simp)
    · show w.mem.consumed.length ≤ (w.mem.consumed ++ [sqe]).length
      rw [List.length_append]
      omega
  · exact absurd hk (by simp)

/-- The one step that can go wrong: the thread reads the tail again and falls asleep. -/
theorem Sound.recheck (h : Sound b d w) (hp : w.punctual .recheck = true)
    (hk : w.env .recheck = some w') : Kept b d w w' := by
  simp only [env] at hk
  split at hk
  · rename_i hflagged
    split at hk
    · rename_i hsame
      cases hk
      -- Head and tail are equal, so all that was delivered is consumed.
      have hd : w.mem.consumed.length = d := h.sq.head_eq_tail_iff.mp hsame
      refine h.turn (fun _ => h.flag (by rw [hflagged]; simp)) ?_
      intro n hs _ hwake
      rcases hs.sent with hn | ⟨st, hst, hset, hn⟩
      · omega
      · -- The store is under way, so the thread has caught up with it.
        have := h.upTo_of_tail hst (punctual_recheck hp hsame hwake hst hset)
        omega
    · cases hk
      exact h.turn (fun hne => absurd rfl hne) (fun _ _ hc => absurd hc (by simp))
  · exact absurd hk (by simp)

/-- Every step of the memory or the thread, if the thread is punctual. -/
theorem Sound.env (h : Sound b d w) {k : PollStep} (hp : w.punctual k = true)
    (hk : w.env k = some w') : Kept b d w w' := by
  cases k with
  | deliver => exact h.deliver hk
  | consume => exact h.consume hk
  | raise =>
      simp only [PollWorld.env] at hk
      split at hk
      · cases hk
        exact h.turn (fun _ => needsWakeup_raise _) (fun _ _ hc => absurd hc (by simp))
      · exact absurd hk (by simp)
  | recheck => exact h.recheck hp hk
  | wakeUp =>
      simp only [PollWorld.env] at hk
      split at hk
      · cases hk
        exact h.turn (fun hne => absurd rfl hne) (fun _ _ hc => absurd hc (by simp))
      · exact absurd hk (by simp)

end PollWorld

/-! ### The call in progress -/

/-- Where the call in progress is. -/
inductive Stage
  | push (sqe : Sqe)
  | writing (sqe : Sqe)
  | pushed (sqe : Sqe) (res : Except Error Unit) (side' : Side)
  | submit
  | stored
  | waking
  | submitted (res : Except Error Unit)

/-- The call and what is left of its program. -/
def Stage.running (side : Side) : Stage → PollCall × RingProg (Except Error Unit × Side)
  | .push sqe => (.push sqe, side.push sqe)
  | .writing sqe => (.push sqe, side.writing sqe)
  | .pushed sqe res side' => (.push sqe, .ret (res, side'))
  | .submit => (.submitSqpoll, side.submitSqpoll)
  | .stored => (.submitSqpoll, side.stored)
  | .waking => (.submitSqpoll, side.waking)
  | .submitted res => (.submitSqpoll, .ret (res, side.submitted))

/-- The side knows the mask and how many SQEs it wrote. -/
structure Side.Tracks (b : Nat) (w : PollWorld) (side : Side) : Prop where
  mask : side.sub.sqMask = w.mem.params.sq.mask
  tail : side.sub.sqTailLocal = UInt32.ofNat (b + w.mem.written.length)

/-- What holds at each stage beside `Sound`. -/
def Stage.Facts (b d : Nat) (w : PollWorld) (side : Side) : Stage → Prop
  | .push _ => side.Tracks b w
  | .writing _ =>
      side.Tracks b w ∧
        w.mem.written.length < w.mem.consumed.length + w.mem.params.sq.size
  | .pushed _ _ side' => side'.Tracks b w
  | .submit => side.Tracks b w
  | .stored => side.Tracks b w ∧ w.Sent d w.mem.written.length
  | .waking => side.Tracks b w ∧ w.Sent d w.mem.written.length
  | .submitted res => side.Tracks b w ∧ (res = .ok () → w.Served d w.mem.written.length)

theorem Side.Tracks.submitted {b : Nat} {w : PollWorld} {side : Side} (h : side.Tracks b w) :
    side.submitted.Tracks b w := by
  cases side <;> exact ⟨h.mask, h.tail⟩

/-- The facts of a stage survive a step of the memory or the thread. -/
theorem Stage.Facts.kept {b d d' : Nat} {w w' : PollWorld} {side : Side} {st : Stage}
    (h : st.Facts b d w side) (hsent : ∀ n, w.Sent d n → w'.Sent d' n)
    (hserved : ∀ n, w.Served d n → w'.Served d' n)
    (hwr : w'.mem.written = w.mem.written) (hpar : w'.mem.params = w.mem.params)
    (hcons : w.mem.consumed.length ≤ w'.mem.consumed.length) : st.Facts b d' w' side := by
  -- the application's counters speak of the masks and of what it wrote itself
  have htr : ∀ {x : Side}, x.Tracks b w → x.Tracks b w' := by
    intro x hx
    exact ⟨by rw [hpar]; exact hx.mask, by rw [hwr]; exact hx.tail⟩
  cases st with
  | push sqe => exact htr h
  | writing sqe =>
      refine ⟨htr h.1, ?_⟩
      have := h.2
      rw [hwr, hpar]
      omega
  | pushed sqe res side' => exact htr h
  | submit => exact htr h
  | stored => exact ⟨htr h.1, by rw [hwr]; exact hsent _ h.2⟩
  | waking => exact ⟨htr h.1, by rw [hwr]; exact hsent _ h.2⟩
  | submitted res => exact ⟨htr h.1, fun hok => by rw [hwr]; exact hserved _ (h.2 hok)⟩

/-- The invariant of the protocol. -/
structure PollInv (b d : Nat) (s : PollSys) : Prop where
  sound : s.world.Sound b d
  served : s.world.Served d s.returned
  call : (s.running = none ∧ s.side.Tracks b s.world) ∨
    ∃ st : Stage, s.running = some (st.running s.side) ∧ st.Facts b d s.world s.side

namespace PollWorld

variable {b d : Nat} {w : PollWorld}

theorem Sound.settle (h : Sound b d w) : w.settle.Sound b d := by
  refine ⟨h.sq, ?_, ?_, h.flag⟩
  · intro st hst
    obtain ⟨st0, hst0, rfl⟩ := List.mem_map.mp hst
    exact h.stores st0 hst0
  · exact List.pairwise_map.mpr h.sorted

theorem Served.settle {n : Nat} (h : w.Served d n) : w.settle.Served d n := by
  refine ⟨?_, h.awake⟩
  rcases h.sent with hn | ⟨st, hst, -, hn⟩
  · exact Or.inl hn
  · exact Or.inr ⟨_, List.mem_map.mpr ⟨st, hst, rfl⟩, rfl, hn⟩

/-- A call that settles is served, if a thread that sleeps will be woken. -/
theorem Sent.settle {n : Nat} (h : w.Sent d n)
    (hawake : w.poller = .asleep → w.wake = false → n ≤ w.mem.consumed.length) :
    w.settle.Served d n := by
  refine ⟨?_, hawake⟩
  rcases h with hn | ⟨st, hst, hn⟩
  · exact Or.inl hn
  · exact Or.inr ⟨_, List.mem_map.mpr ⟨st, hst, rfl⟩, rfl, hn⟩

end PollWorld

namespace PollInv

variable {b d : Nat} {s s' : PollSys}

theorem env (h : PollInv b d s) {k : PollStep} (hp : s.world.punctual k = true)
    (hs : s.step (.env k) = some s') : ∃ d', PollInv b d' s' := by
  obtain ⟨w', hk, rfl⟩ := Option.map_eq_some_iff.mp hs
  obtain ⟨⟨d', hsound, hsent, hserved⟩, hwr, hpar, hcons⟩ := h.sound.env hp hk
  refine ⟨d', hsound, hserved _ h.served, ?_⟩
  rcases h.call with ⟨hnone, htr⟩ | ⟨st, hrun, hfacts⟩
  · refine Or.inl ⟨hnone, ?_⟩
    exact ⟨by rw [hpar]; exact htr.mask, by rw [hwr]; exact htr.tail⟩
  · exact Or.inr ⟨st, hrun, hfacts.kept hsent hserved hwr hpar hcons⟩

theorem start (h : PollInv b d s) {c : PollCall} (hs : s.step (.start c) = some s') :
    PollInv b d s' := by
  rcases h.call with ⟨hnone, htr⟩ | ⟨st, hrun, -⟩
  · simp only [PollSys.step, hnone, Option.some.injEq] at hs
    subst hs
    cases c with
    | push sqe => exact ⟨h.sound, h.served, Or.inr ⟨.push sqe, rfl, htr⟩⟩
    | submitSqpoll => exact ⟨h.sound, h.served, Or.inr ⟨.submit, rfl, htr⟩⟩
  · simp only [PollSys.step, hrun] at hs
    exact absurd hs (by simp)

theorem finish (h : PollInv b d s) (hs : s.step .finish = some s') : PollInv b d s' := by
  rcases h.call with ⟨hnone, -⟩ | ⟨st, hrun, hfacts⟩
  · simp only [PollSys.step, hnone] at hs
    exact absurd hs (by simp)
  · cases st with
    | pushed sqe res side' =>
        simp only [PollSys.step, hrun, Stage.running, Option.some.injEq] at hs
        subst hs
        exact ⟨h.sound, h.served, Or.inl ⟨rfl, hfacts⟩⟩
    | submitted res =>
        simp only [PollSys.step, hrun, Stage.running, Option.some.injEq] at hs
        subst hs
        refine ⟨h.sound, ?_, Or.inl ⟨rfl, hfacts.1.submitted⟩⟩
        -- A failed wakeup promises nothing for what was just pushed.
        cases res with
        | ok u => exact hfacts.2 rfl
        | error e => exact h.served
    -- The remaining stages have an access to make, so the call cannot finish there.
    | push sqe =>
        simp only [PollSys.step, hrun, Stage.running, Side.push_eq] at hs
        exact absurd hs (by simp)
    | writing sqe =>
        simp only [PollSys.step, hrun, Stage.running, Side.writing] at hs
        exact absurd hs (by simp)
    | submit =>
        simp only [PollSys.step, hrun, Stage.running, Side.submitSqpoll_eq] at hs
        exact absurd hs (by simp)
    | stored =>
        simp only [PollSys.step, hrun, Stage.running, Side.stored] at hs
        exact absurd hs (by simp)
    | waking =>
        simp only [PollSys.step, hrun, Stage.running, Side.waking] at hs
        exact absurd hs (by simp)

/-- The calls read the head, write the slot, store the tail, load the flags and enter. -/
theorem accessed {c : PollCall} {o : Access} {k : o.Ans → RingProg (Except Error Unit × Side)}
    {r : Option (Except Errno Nat)} (hrun : s.running = some (c, Prog.op (S := ringSig) o k))
    (hs : s.step (.access r) = some s') :
    ∃ x w', s.world.access o r = some (x, w') ∧
      s' = { s with world := w', running := some (c, k x) } := by
  simp only [PollSys.step, hrun] at hs
  obtain ⟨⟨x, w'⟩, hacc, rfl⟩ := Option.map_eq_some_iff.mp hs
  exact ⟨x, w', hacc, rfl⟩

/-- `push` loads the head: it finds the ring full, or room for one more. -/
theorem access_push (h : PollInv b d s) {sqe : Sqe} {r : Option (Except Errno Nat)}
    (hrun : s.running = some ((Stage.push sqe).running s.side))
    (hfacts : (Stage.push sqe).Facts b d s.world s.side)
    (hs : s.step (.access r) = some s') : PollInv b d s' := by
  rw [Stage.running, Side.push_eq] at hrun
  obtain ⟨x, w', hacc, rfl⟩ := accessed hrun hs
  cases hacc
  refine ⟨h.sound, h.served, Or.inr ?_⟩
  have hq := h.sound.sq.queue
  -- the difference of the indices is the number of unread entries, also when they wrap
  have hfull := hq.full_iff
  rw [← hfacts.tail, ← h.sound.sq.head, ← hfacts.mask] at hfull
  by_cases hc : s.side.sub.sqTailLocal + 1 - s.world.mem.sqHead > s.side.sub.sqMask + 1
  · refine ⟨.pushed sqe (.error (.submit .queueFull)) s.side, ?_, hfacts⟩
    show some (_, if _ then _ else _) = some (_, _)
    rw [if_pos hc]
  · refine ⟨.writing sqe, ?_, hfacts, ?_⟩
    · show some (_, if _ then _ else _) = some (_, _)
      rw [if_neg hc]
    · have hroom := hq.room
      have hne := mt hfull.mpr hc
      show s.world.mem.written.length < s.world.mem.consumed.length + s.world.mem.params.sq.size
      omega

/-- `push` writes the slot of the next position. -/
theorem access_writing (h : PollInv b d s) {sqe : Sqe} {r : Option (Except Errno Nat)}
    (hrun : s.running = some ((Stage.writing sqe).running s.side))
    (hfacts : (Stage.writing sqe).Facts b d s.world s.side)
    (hs : s.step (.access r) = some s') : PollInv b d s' := by
  rw [Stage.running, Side.writing] at hrun
  obtain ⟨x, w', hacc, rfl⟩ := accessed hrun hs
  cases hacc
  obtain ⟨htr, hroom⟩ := hfacts
  -- the slot is the one behind all entries that were written
  have hslot : (s.side.sub.sqTailLocal &&& s.side.sub.sqMask).toNat
      = (b + s.world.mem.written.length) % s.world.mem.params.sq.size := by
    rw [htr.tail, htr.mask, and_mask_toNat]
  have hlen : (s.world.mem.written ++ [sqe]).length = s.world.mem.written.length + 1 := by
    rw [List.length_append, List.length_singleton]
  refine ⟨⟨?_, ?_, h.sound.sorted, h.sound.flag⟩, ⟨h.served.sent, h.served.awake⟩,
    Or.inr ⟨.pushed sqe (.ok ()) _, rfl, ?_⟩⟩
  · simp only [hslot]
    exact h.sound.sq.writeSqe hroom sqe
  · -- the stores under way are older than this write
    intro st hst
    obtain ⟨htail, hd, hle⟩ := h.sound.stores st hst
    refine ⟨htail, hd, ?_⟩
    show st.upTo ≤ (s.world.mem.written ++ [sqe]).length
    omega
  · have htail : s.side.sub.sqTailLocal + 1
        = UInt32.ofNat (b + (s.world.mem.written ++ [sqe]).length) := by
      rw [htr.tail, hlen, ← Nat.add_assoc, ofNat_succ]
    have hsub : (s.side.put { s.side.sub with
        sqTailLocal := s.side.sub.sqTailLocal + 1 }).sub
        = { s.side.sub with sqTailLocal := s.side.sub.sqTailLocal + 1 } :=
      Side.sub_put s.side _ _
    refine ⟨?_, ?_⟩
    · rw [hsub]
      exact htr.mask
    · rw [hsub]
      exact htail

/-- `submit_sqpoll` stores the tail: a message for the thread. -/
theorem access_submit (h : PollInv b d s) {r : Option (Except Errno Nat)}
    (hrun : s.running = some (Stage.submit.running s.side))
    (hfacts : Stage.submit.Facts b d s.world s.side)
    (hs : s.step (.access r) = some s') : PollInv b d s' := by
  rw [Stage.running, Side.submitSqpoll_eq] at hrun
  obtain ⟨x, w', hacc, rfl⟩ := accessed hrun hs
  cases hacc
  have hpub := h.sound.sq.queue.pub_le
  refine ⟨⟨⟨h.sound.sq.queue, h.sound.sq.head, h.sound.sq.tail, h.sound.sq.array⟩, ?_, ?_,
    h.sound.flag⟩, ⟨?_, h.served.awake⟩, Or.inr ⟨.stored, rfl, ⟨hfacts.mask, hfacts.tail⟩, ?_⟩⟩
  · intro st hst
    -- the new store carries everything that was written
    rcases List.mem_append.mp hst with hold | hnew
    · exact h.sound.stores st hold
    · rw [List.mem_singleton.mp hnew]
      exact ⟨hfacts.tail, hpub, Nat.le_refl _⟩
  · refine List.pairwise_append.mpr ⟨h.sound.sorted, List.pairwise_singleton _ _, ?_⟩
    intro x hx y hy
    rw [List.mem_singleton.mp hy]
    exact (h.sound.stores x hx).2.2
  · rcases h.served.sent with hn | ⟨st, hst, hset, hn⟩
    · exact Or.inl hn
    · exact Or.inr ⟨st, List.mem_append_left _ hst, hset, hn⟩
  · exact Or.inr ⟨_, List.mem_append_right _ List.mem_cons_self, Nat.le_refl _⟩

/-- `submit_sqpoll` loads the flags. With the flag down the thread polls. -/
theorem access_stored (h : PollInv b d s) {r : Option (Except Errno Nat)}
    (hrun : s.running = some (Stage.stored.running s.side))
    (hfacts : Stage.stored.Facts b d s.world s.side)
    (hs : s.step (.access r) = some s') : PollInv b d s' := by
  rw [Stage.running, Side.stored] at hrun
  obtain ⟨x, w', hacc, rfl⟩ := accessed hrun hs
  have hacc' := Option.some.inj hacc
  cases hacc'
  obtain ⟨htr, hsent⟩ := hfacts
  -- a thread that is not polling has raised the flag before
  by_cases hw : needsWakeup s.world.mem.sqFlags = true
  · simp only [hw, if_true]
    exact ⟨h.sound, h.served, Or.inr ⟨.waking, rfl, htr, hsent⟩⟩
  · have hpolling : s.world.poller = .polling := by
      by_contra hne
      exact hw (h.sound.flag hne)
    simp only [hw]
    refine ⟨h.sound.settle, h.served.settle,
      Or.inr ⟨.submitted (.ok ()), rfl, ⟨htr.mask, htr.tail⟩, fun _ => hsent.settle ?_⟩⟩
    intro hasleep
    rw [hpolling] at hasleep
    exact absurd hasleep (by simp)

/-- `submit_sqpoll` enters the kernel. A thread that is asleep will wake up. -/
theorem access_waking (h : PollInv b d s) {r : Option (Except Errno Nat)}
    (hrun : s.running = some (Stage.waking.running s.side))
    (hfacts : Stage.waking.Facts b d s.world s.side)
    (hs : s.step (.access r) = some s') : PollInv b d s' := by
  rw [Stage.running, Side.waking] at hrun
  obtain ⟨x, w', hacc, rfl⟩ := accessed hrun hs
  obtain ⟨htr, hsent⟩ := hfacts
  obtain ⟨y, rfl, hx⟩ := Option.map_eq_some_iff.mp hacc
  cases hx
  cases x with
  | error e =>
      exact ⟨h.sound, h.served,
        Or.inr ⟨.submitted (.error (.syscall e)), rfl, htr, fun hok => absurd hok (by simp)⟩⟩
  | ok n =>
      -- a thread that is still asleep has its wake-up pending
      have hawake : ∀ n, s.world.wakeThread.poller = .asleep →
          s.world.wakeThread.wake = false → n ≤ s.world.mem.consumed.length := by
        intro n hasleep hwake
        simp [PollWorld.wakeThread] at hasleep hwake
        rw [hasleep] at hwake
        exact absurd hwake.2 (by simp)
      have hsound : s.world.wakeThread.Sound b d :=
        ⟨h.sound.sq, h.sound.stores, h.sound.sorted, h.sound.flag⟩
      have hserved : s.world.wakeThread.Served d s.returned := ⟨h.served.sent, hawake _⟩
      have hsent' : s.world.wakeThread.Sent d s.world.mem.written.length := hsent
      exact ⟨hsound.settle, hserved.settle,
        Or.inr ⟨.submitted (.ok ()), rfl, ⟨htr.mask, htr.tail⟩,
          fun _ => hsent'.settle (hawake _)⟩⟩

theorem access (h : PollInv b d s) {r : Option (Except Errno Nat)}
    (hs : s.step (.access r) = some s') : PollInv b d s' := by
  rcases h.call with ⟨hnone, -⟩ | ⟨st, hrun, hfacts⟩
  · simp only [PollSys.step, hnone] at hs
    exact absurd hs (by simp)
  · cases st with
    | push sqe => exact h.access_push hrun hfacts hs
    | writing sqe => exact h.access_writing hrun hfacts hs
    | submit => exact h.access_submit hrun hfacts hs
    | stored => exact h.access_stored hrun hfacts hs
    | waking => exact h.access_waking hrun hfacts hs
    | pushed sqe res side' =>
        simp only [PollSys.step, hrun, Stage.running] at hs
        exact absurd hs (by simp)
    | submitted res =>
        simp only [PollSys.step, hrun, Stage.running] at hs
        exact absurd hs (by simp)

end PollInv

/-! ### Runs -/

theorem PollInv.step {b d : Nat} {s s' : PollSys} (h : PollInv b d s) {a : PollAction}
    (hp : s.punctual a = true) (hs : s.step a = some s') : ∃ d', PollInv b d' s' := by
  cases a with
  | start c => exact ⟨d, h.start hs⟩
  | access r => exact ⟨d, h.access hs⟩
  | finish => exact ⟨d, h.finish hs⟩
  | env k => exact h.env hp hs

theorem PollInv.run {b d : Nat} {s s' : PollSys} (h : PollInv b d s) {as : List PollAction}
    (hp : s.allPunctual as = true) (hr : s.run as = some s') : ∃ d', PollInv b d' s' := by
  induction as generalizing s d with
  | nil =>
      cases hr
      exact ⟨d, h⟩
  | cons a as ih =>
      obtain ⟨s1, h1, h2⟩ := Option.bind_eq_some_iff.mp hr
      simp only [PollSys.allPunctual, h1, Option.elim, Bool.and_eq_true] at hp
      obtain ⟨d1, hinv⟩ := h.step hp.1 h1
      exact ih hinv hp.2 h2

/-- The sides that a fresh ring can be driven from: the ring, or its half. -/
def Side.ofFresh (half : Bool) (w : World) : Side :=
  if half then .half (IoUring.fromParsed w).submitter else .ring (IoUring.fromParsed w)

theorem PollInv.init (params : RingParams) (resources : RingResources)
    (sqStart cqStart : UInt32) (sqArray : Nat → UInt32) (sqes : Nat → Sqe) (cqes : Nat → Cqe)
    (half : Bool) :
    let w := (Sys.init params resources sqStart cqStart sqArray sqes cqes).world
    PollInv sqStart.toNat 0 (PollSys.init w (Side.ofFresh half w)) := by
  intro w
  have h := Sys.init_inv params resources sqStart cqStart sqArray sqes cqes
  have ht : (IoUring.fromParsed w).Tracks (View.init params resources sqStart cqStart) :=
    h.tracks
  have hsub : (Side.ofFresh half w).sub = (IoUring.fromParsed w).submitter := by
    cases half <;> rfl
  refine ⟨⟨h.ring.sq, by simp [PollSys.init], List.Pairwise.nil, fun hne => absurd rfl hne⟩,
    ⟨Or.inl (Nat.le_refl 0), fun hc => absurd hc (by simp [PollSys.init])⟩,
    Or.inl ⟨rfl, ?_, ?_⟩⟩
  · show (Side.ofFresh half w).sub.sqMask = w.params.sq.mask
    rw [hsub, ht.sq.mask, h.ring.params]
  · show (Side.ofFresh half w).sub.sqTailLocal = UInt32.ofNat (sqStart.toNat + w.written.length)
    rw [hsub, ht.sq.tail, h.ring.written]
    rfl

/-- With stores that are delivered in time, no state has a sleeping thread, no wakeup on its way,
and entries that a `submit_sqpoll` has returned for. -/
theorem no_lost_wakeup (params : RingParams) (resources : RingResources)
    (sqStart cqStart : UInt32) (sqArray : Nat → UInt32) (sqes : Nat → Sqe) (cqes : Nat → Cqe)
    (half : Bool) (as : List PollAction) (s0 s : PollSys)
    (h0 : s0 = PollSys.init (Sys.init params resources sqStart cqStart sqArray sqes cqes).world
      (Side.ofFresh half (Sys.init params resources sqStart cqStart sqArray sqes cqes).world))
    (hp : s0.allPunctual as = true) (hr : s0.run as = some s) : ¬s.Lost := by
  subst h0
  obtain ⟨d, hinv⟩ := (PollInv.init params resources sqStart cqStart sqArray sqes cqes
    half).run hp hr
  rintro ⟨-, hasleep, hwake, hlt⟩
  -- A lost state is a sleeping thread with entries that were returned and not consumed.
  have := hinv.served.awake hasleep hwake
  omega

/-- A push, and the accesses of a `submit_sqpoll` up to its return. -/
def pushAndSubmit : List PollAction :=
  [.start (.push Sqe.nop), .access none, .access none, .finish,
    .start .submitSqpoll, .access none, .access none, .finish]

/-- The store arrives in time, and the thread consumes before it sleeps. -/
def timelyDelivery : List PollAction :=
  pushAndSubmit ++ [.env .deliver, .env .consume, .env .raise, .env .recheck]

/-- A ring of two and two slots with a polling thread. -/
def pollingRing (half : Bool) : PollSys :=
  let w := (Sys.init
    { sq := twoEntries
      cq := twoEntries
      flags := SetupFlags.SQPOLL
      features := 0 }
    { refcount := 1
      fd := ⟨3⟩
      sqRing := ⟨0, 0⟩
      cqRing := ⟨0, 0⟩
      sqesRegion := ⟨0, 0⟩
      selfPage := ⟨0, 0⟩ }
    0xFFFFFFFF 0 (fun _ => 0) (fun _ => Sqe.ZEROED) (fun _ => ⟨0, 0, 0⟩)).world
  PollSys.init w (Side.ofFresh half w)

theorem no_lost_wakeup_timely :
    ∃ s, (pollingRing true).run timelyDelivery = some s ∧ s.world.poller = .asleep ∧
      s.returned = 1 ∧ ¬s.Lost := by
  have heval : ((pollingRing true).run timelyDelivery).map
      (fun s => (s.world.poller, s.returned)) = some (.asleep, 1) := by decide +kernel
  obtain ⟨s, hrun, hx⟩ := Option.map_eq_some_iff.mp heval
  obtain ⟨hasleep, hret⟩ := Prod.mk.inj hx
  have hp : (pollingRing true).allPunctual timelyDelivery = true := by decide +kernel
  exact ⟨s, hrun, hasleep, hret,
    no_lost_wakeup _ _ _ _ _ _ _ true timelyDelivery _ s rfl hp hrun⟩

/-- The thread reads the tail before the store arrives, and after the flags were loaded. -/
def lateDelivery : List PollAction :=
  pushAndSubmit ++ [.env .raise, .env .recheck, .env .deliver]

/-- On the ring and on the half alike, the thread sleeps on the SQE for good. -/
theorem wakeup_lost :
    (∃ s, (pollingRing false).run lateDelivery = some s ∧ s.Lost) ∧
      ∃ s, (pollingRing true).run lateDelivery = some s ∧ s.Lost := by
  have hlost : ∀ s : PollSys,
      (s.world.buffer, s.world.poller, s.world.wake, s.world.mem.consumed.length, s.returned)
        = ([], .asleep, false, 0, 1) → s.Lost := by
    intro s hs
    simp only [Prod.mk.injEq] at hs
    obtain ⟨hbuf, hasleep, hwake, hcons, hret⟩ := hs
    exact ⟨hbuf, hasleep, hwake, by omega⟩
  constructor
  · have heval : ((pollingRing false).run lateDelivery).map (fun s => (s.world.buffer,
        s.world.poller, s.world.wake, s.world.mem.consumed.length, s.returned))
        = some ([], .asleep, false, 0, 1) := by decide +kernel
    obtain ⟨s, hrun, hx⟩ := Option.map_eq_some_iff.mp heval
    exact ⟨s, hrun, hlost s hx⟩
  · have heval : ((pollingRing true).run lateDelivery).map (fun s => (s.world.buffer,
        s.world.poller, s.world.wake, s.world.mem.consumed.length, s.returned))
        = some ([], .asleep, false, 0, 1) := by decide +kernel
    obtain ⟨s, hrun, hx⟩ := Option.map_eq_some_iff.mp heval
    exact ⟨s, hrun, hlost s hx⟩

end Ququmatz
