import Ququmatz.Proofs.Ring.Histories
import Ququmatz.Ring.System

/-!
# `Ququmatz.Proofs.Ring.Calls`: what each call of a handle does

A handle `Tracks` a view when its local indices are the positions that the view names. For
each call there is one lemma: from a world at view `v` and a handle that tracks `v`, every
run of the call, whatever the kernel does around its accesses, ends in a world at a view
`v'` that the lemma gives, and the handle tracks `v'`.

The `IoUring` and the halves of a split ring implement the queue operations separately.
Where the two texts agree, the lemma of the half carries over (`IoUring.push_eq`,
`IoUring.complete_eq`); `IoUring.submit` and `IoUring.submitAndWait` also publish the CQ
head, and the latter may enter the kernel twice, so they have proofs of their own.
-/

set_option autoImplicit false

namespace Ququmatz

open Lib

/-- The submission half knows where the view is. -/
structure Submitter.Tracks (v : View) (s : Submitter) : Prop where
  mask : s.sqMask = v.params.sq.mask
  tail : s.sqTailLocal = UInt32.ofNat (v.sqBase + v.written.length)
  submitted : v.synced = true → s.sqSubmitted = v.head

/-- The completion half knows where the view is. -/
structure Completer.Tracks (v : View) (c : Completer) : Prop where
  mask : c.cqMask = v.params.cq.mask
  head : c.cqHeadLocal = UInt32.ofNat (v.cqBase + v.read.length)

/-! ### Rules for one access -/

section Rules

variable {α : Type} {Q : α → World → Prop}

/-- A run of one access and the rest of a program. -/
theorem run_perform {a : Access} {f : a.Ans → RingProg α} {rs : List KRound} {w w' : World}
    {b : α} :
    (perform a >>= f).run ringMachine rs w = some (b, w') ↔
      ∃ (r : KRound) (rs' : List KRound) (w1 : World) (x : a.Ans) (w2 : World),
        rs = r :: rs' ∧ envSteps World.env r.before w = some w1 ∧
        World.access a r.reply w1 = some (x, w2) ∧
        (f x).run ringMachine rs' w2 = some (b, w') :=
  Prog.run_op

/-- One access at the view `v`. -/
theorem Spec.at {v : View} {a : Access} {f : a.Ans → RingProg α} {R : a.Ans → World → Prop}
    (hacc : ∀ r w x w', RingAt v w → World.access a r w = some (x, w') → R x w')
    (hf : ∀ x, Spec ringMachine (R x) (f x) Q) :
    Spec ringMachine (RingAt v) (perform a >>= f) Q :=
  Spec.op (RingAt.stable v) hacc hf

theorem Spec.storeSqTail {v : View} {x : UInt32} {f : Unit → RingProg α}
    (hx : x = UInt32.ofNat (v.sqBase + v.written.length))
    (hf : Spec ringMachine (RingAt { v with sqPub := v.written.length }) (f ()) Q) :
    Spec ringMachine (RingAt v) (perform (.storeSqTail x) >>= f) Q := by
  refine Spec.at (R := fun _ => RingAt { v with sqPub := v.written.length }) ?_ (fun _ => hf)
  intro r w _ w' h ha
  obtain ⟨-, -, rfl⟩ := World.access_storeSqTail.mp ha
  rw [hx]
  exact h.storeSqTail

theorem Spec.storeCqHead {v : View} {x : UInt32} {f : Unit → RingProg α}
    (hx : x = UInt32.ofNat (v.cqBase + v.read.length))
    (hf : Spec ringMachine (RingAt { v with cqPub := v.read.length }) (f ()) Q) :
    Spec ringMachine (RingAt v) (perform (.storeCqHead x) >>= f) Q := by
  refine Spec.at (R := fun _ => RingAt { v with cqPub := v.read.length }) ?_ (fun _ => hf)
  intro r w _ w' h ha
  obtain ⟨-, -, rfl⟩ := World.access_storeCqHead.mp ha
  rw [hx]
  exact h.storeCqHead

/-- A load that the view says nothing about. -/
theorem Spec.loadSqFlags {v : View} {f : UInt32 → RingProg α}
    (hf : ∀ x, Spec ringMachine (RingAt v) (f x) Q) :
    Spec ringMachine (RingAt v) (perform .loadSqFlags >>= f) Q := by
  refine Spec.at (R := fun _ => RingAt v) ?_ hf
  intro r w x w' h ha
  obtain ⟨-, -, rfl⟩ := World.access_loadSqFlags.mp ha
  exact h

theorem Spec.loadCqTail {v : View} {f : UInt32 → RingProg α}
    (hf : ∀ x, Spec ringMachine (RingAt v) (f x) Q) :
    Spec ringMachine (RingAt v) (perform .loadCqTail >>= f) Q := by
  refine Spec.at (R := fun _ => RingAt v) ?_ hf
  intro r w x w' h ha
  obtain ⟨-, -, rfl⟩ := World.access_loadCqTail.mp ha
  exact h

/-- An `io_uring_enter`: the head moves by the count it returns, and not at all when it
fails. -/
theorem Spec.enter {v : View} {fd : RawFd} {n m : UInt32} {flags : EnterFlags}
    {f : Except Errno Nat → RingProg α}
    (hok : ∀ k, k ≤ n.toNat →
      Spec ringMachine (RingAt { v with head := v.head + UInt32.ofNat k }) (f (.ok k)) Q)
    (herr : ∀ e, Spec ringMachine (RingAt v) (f (.error e)) Q) :
    Spec ringMachine (RingAt v) (perform (.enter fd n m flags) >>= f) Q := by
  refine Spec.at (R := fun x w => (∃ k, x = .ok k ∧ k ≤ n.toNat ∧
      RingAt { v with head := v.head + UInt32.ofNat k } w) ∨
      ∃ e, x = .error e ∧ RingAt v w) ?_ ?_
  · intro r w x w' h ha
    obtain ⟨e, -, he⟩ := World.access_enter.mp ha
    cases x with
    | ok k => exact Or.inl ⟨k, rfl, h.enter_ok he⟩
    | error e => exact Or.inr ⟨e, rfl, h.enter_error he⟩
  · intro x rs w a w' hw hr
    rcases hw with ⟨k, rfl, hle, h⟩ | ⟨e, rfl, h⟩
    · exact hok k hle rs w a w' h hr
    · exact herr e rs w a w' h hr

end Rules

/-! ### The submission side -/

namespace Submitter

variable {v : View} {s s' : Submitter} {w w' : World} {rs : List KRound}

/-- A push reads the head once. It is refused if the ring was full then; otherwise the SQE
is the next one written. -/
theorem push_run {sqe : Sqe} {res : Except Error Unit} (h : RingAt v w) (ht : s.Tracks v)
    (hr : (s.push sqe).run ringMachine rs w = some ((res, s'), w')) :
    ∃ r rs' w1, rs = r :: rs' ∧ envSteps World.env r.before w = some w1 ∧
      ((v.written.length = w1.consumed.length + v.params.sq.size ∧
          res = .error (.submit .queueFull) ∧ s' = s ∧ RingAt v w') ∨
        (v.written.length < w1.consumed.length + v.params.sq.size ∧
          res = .ok () ∧ s' = { s with sqTailLocal := s.sqTailLocal + 1 } ∧
          RingAt { v with written := v.written ++ [sqe] } w')) := by
  unfold push at hr
  obtain ⟨r, rs', w1, head, w2, rfl, hb, hacc, hr⟩ := run_perform.mp hr
  obtain ⟨-, rfl, rfl⟩ := World.access_loadSqHead.mp hacc
  have h1 := h.steps hb
  have hfull := h1.sq.queue.full_iff
  rw [h1.written, h1.params, ← ht.tail, ← ht.mask, ← h1.sq.head] at hfull
  refine ⟨r, rs', w2, rfl, hb, ?_⟩
  by_cases hc : s.sqTailLocal + 1 - w2.sqHead > s.sqMask + 1
  · -- The full branch returns without another access.
    rw [if_pos hc] at hr
    obtain ⟨-, hx, rfl⟩ := Prog.run_ret.mp hr
    cases hx
    exact Or.inl ⟨hfull.mp hc, rfl, rfl, h1⟩
  · rw [if_neg hc] at hr
    obtain ⟨r', rs'', w3, _, w4, rfl, hb', hacc', hr⟩ := run_perform.mp hr
    obtain ⟨-, -, rfl⟩ := World.access_writeSqe.mp hacc'
    obtain ⟨-, hx, rfl⟩ := Prog.run_ret.mp hr
    cases hx
    -- Not full at the load, so there was room for one more entry.
    have hroom : v.written.length < w2.consumed.length + v.params.sq.size := by
      have hle := h1.sq.queue.room
      have hne := mt hfull.mpr hc
      rw [h1.written, h1.params] at hle
      omega
    -- The kernel can only have read more between the load and the write.
    have hgrow := (World.grows_of_steps hb').consumed.length_le
    have h3 := h1.steps hb'
    have hslot : (s.sqTailLocal &&& s.sqMask).toNat
        = (v.sqBase + v.written.length) % v.params.sq.size := by
      rw [ht.tail, ht.mask, and_mask_toNat]
    refine Or.inr ⟨hroom, rfl, rfl, ?_⟩
    rw [hslot]
    exact h3.writeSqe (by omega) sqe

/-- The room that `sq_space_left` reports is the room at the moment it reads the head. -/
theorem sqSpaceLeft_run {out : Option UInt32} (h : RingAt v w) (ht : s.Tracks v)
    (hr : s.sqSpaceLeft.run ringMachine rs w = some (out, w')) :
    RingAt v w' ∧ ∃ x : UInt32, out = some x ∧
      x.toNat + v.written.length = v.params.sq.size + w'.consumed.length := by
  unfold sqSpaceLeft at hr
  obtain ⟨r, rs', w1, head, w2, rfl, hb, hacc, hr⟩ := run_perform.mp hr
  obtain ⟨-, rfl, rfl⟩ := World.access_loadSqHead.mp hacc
  obtain ⟨-, rfl, rfl⟩ := Prog.run_ret.mp hr
  have h1 := h.steps hb
  have hused := h1.sq.queue.used_toNat
  have hroom := h1.sq.queue.room
  have hle := h1.sq.queue.got_prefix.length_le
  rw [h1.written, ← ht.tail, ← h1.sq.head] at hused
  rw [h1.written, h1.params] at hroom
  rw [h1.written] at hle
  have hcap : s.sqCapacity = v.params.sq.val := by
    unfold sqCapacity
    rw [ht.mask, v.params.sq.mask_add_one]
  have hval : v.params.sq.val.toNat = v.params.sq.size := rfl
  -- The subtraction of the source does not underflow.
  have hfits : s.sqTailLocal - w'.sqHead ≤ s.sqCapacity := by
    rw [hcap, UInt32.le_iff_toNat_le, hused, hval]
    omega
  refine ⟨h1, s.sqCapacity - (s.sqTailLocal - w'.sqHead), if_pos hfits, ?_⟩
  rw [UInt32.toNat_sub_of_le _ _ hfits, hcap, hused, hval]
  omega

/-- An exit that took no entry off the queue: a failure, or a success that says so. -/
theorem tookNone (res : Except Error UInt32) (h : RingAt v w)
    (hres : ∀ n, res = .ok n → n = 0) : ∃ c,
      s = { s with sqSubmitted := s.sqSubmitted + c } ∧
      RingAt { v with head := v.head + c } w ∧ ∀ n, res = .ok n → n = c := by
  refine ⟨0, ?_, ?_, hres⟩
  · rw [UInt32.add_zero]
  · rw [UInt32.add_zero]
    exact h

/-- `submit` publishes the tail, and moves its own count with the kernel's head. -/
theorem submit_spec (ht : s.Tracks v) :
    Spec ringMachine (RingAt v) s.submit fun x w => ∃ c,
      x.2 = { s with sqSubmitted := s.sqSubmitted + c } ∧
      RingAt { v with sqPub := v.written.length, head := v.head + c } w ∧
      ∀ n, x.1 = .ok n → n = c := by
  unfold submit flushSqTail
  refine Spec.storeSqTail ht.tail ?_
  -- nothing to submit: the call returns without an enter
  by_cases h0 : s.sqTailLocal - s.sqSubmitted = 0
  · simp only [h0, if_true]
    refine Spec.ret fun w h => tookNone _ h ?_
    intro n hn
    cases hn
    rfl
  · simp only [h0, if_false]
    refine Spec.enter ?_ ?_
    · intro k _
      refine Spec.ret fun w h => ⟨UInt32.ofNat k, rfl, h, ?_⟩
      intro n hn
      cases hn
      rfl
    · intro e
      refine Spec.ret fun w h => tookNone _ h ?_
      intro n hn
      cases hn

theorem submitAndWait_spec (ht : s.Tracks v) (minComplete : UInt32) :
    Spec ringMachine (RingAt v) (s.submitAndWait minComplete) fun x w => ∃ c,
      x.2 = { s with sqSubmitted := s.sqSubmitted + c } ∧
      RingAt { v with sqPub := v.written.length, head := v.head + c } w ∧
      ∀ n, x.1 = .ok n → n = c := by
  unfold submitAndWait flushSqTail
  refine Spec.storeSqTail ht.tail (Spec.enter ?_ ?_)
  · intro k _
    refine Spec.ret fun w h => ⟨UInt32.ofNat k, rfl, h, ?_⟩
    intro n hn
    cases hn
    rfl
  · intro e
    refine Spec.ret fun w h => tookNone _ h ?_
    intro n hn
    cases hn

/-- After `submit_sqpoll` the local count no longer says where the kernel is. -/
theorem submitSqpoll_spec (ht : s.Tracks v) :
    Spec ringMachine (RingAt v) s.submitSqpoll fun x w => ∃ y,
      x.2 = { s with sqSubmitted := s.sqTailLocal } ∧
      RingAt { v with sqPub := v.written.length, head := y } w := by
  unfold submitSqpoll flushSqTail sqNeedWakeup
  refine Spec.storeSqTail ht.tail (Spec.loadSqFlags fun flags => ?_)
  by_cases hw : (flags &&& IORING_SQ_NEED_WAKEUP != 0) = true
  · simp only [Prog.pure_eq, hw, if_true]
    refine Spec.enter ?_ ?_
    · intro k _
      exact Spec.ret fun w h => ⟨_, rfl, h⟩
    · intro e
      exact Spec.ret fun w h => ⟨_, rfl, h⟩
  · simp only [Prog.pure_eq, hw]
    exact Spec.ret fun w h => ⟨_, rfl, h⟩

end Submitter

/-! ### The completion side -/

namespace Completer

variable {v : View} {c c' : Completer} {w w' : World} {rs : List KRound}

/-- A reap reads the tail once. It returns nothing if everything posted by then was reaped;
otherwise it returns the next posted CQE. -/
theorem complete_run {res : Option Completion} (h : RingAt v w) (ht : c.Tracks v)
    (hr : c.complete.run ringMachine rs w = some ((res, c'), w')) :
    ∃ r rs' w1, rs = r :: rs' ∧ envSteps World.env r.before w = some w1 ∧
      ((v.read.length = w1.posted.length ∧ res = none ∧ c' = c ∧ w' = w1 ∧ RingAt v w') ∨
        ∃ o cqe, w1.posted[v.read.length]? = some (o, cqe) ∧
          res = some (Completion.ofCqe cqe) ∧
          c' = { c with cqHeadLocal := c.cqHeadLocal + 1 } ∧
          RingAt { v with read := v.read ++ [cqe] } w') := by
  unfold complete at hr
  obtain ⟨r, rs', w1, tail, w2, rfl, hb, hacc, hr⟩ := run_perform.mp hr
  obtain ⟨-, rfl, rfl⟩ := World.access_loadCqTail.mp hacc
  have h1 := h.steps hb
  have hempty := h1.cq.queue.empty_iff
  rw [h1.read, ← ht.head, ← h1.cq.tail] at hempty
  refine ⟨r, rs', w2, rfl, hb, ?_⟩
  by_cases hc : c.cqHeadLocal = w2.cqTail
  · rw [if_pos hc] at hr
    obtain ⟨-, hx, rfl⟩ := Prog.run_ret.mp hr
    cases hx
    exact Or.inl ⟨hempty.mp hc, rfl, rfl, rfl, h1⟩
  · rw [if_neg hc] at hr
    obtain ⟨r', rs'', w3, cqe, w4, rfl, hb', hacc', hr⟩ := run_perform.mp hr
    obtain ⟨-, rfl, rfl⟩ := World.access_readCqe.mp hacc'
    obtain ⟨-, hx, rfl⟩ := Prog.run_ret.mp hr
    cases hx
    -- Not empty at the load, so there is an entry to read.
    have hlt : v.read.length < w2.posted.length := by
      have hle := h1.cq.queue.got_le
      have hne := mt hempty.mpr hc
      rw [h1.read] at hle
      omega
    have hgrow := (World.grows_of_steps hb').posted
    have h3 := h1.steps hb'
    have hlt3 : v.read.length < w3.posted.length :=
      Nat.lt_of_lt_of_le hlt hgrow.length_le
    have hslot : (c.cqHeadLocal &&& c.cqMask).toNat
        = (v.cqBase + v.read.length) % v.params.cq.size := by
      rw [ht.head, ht.mask, and_mask_toNat]
    -- The entry was posted before the load, so its slot holds it at the read.
    have hnext := h3.cq.queue.next_eq (by rw [h3.read]; exact hlt3)
    rw [h3.read, h3.params, ← hslot, List.getElem?_map] at hnext
    obtain ⟨⟨o, cqe⟩, hget, hcqe⟩ := Option.map_eq_some_iff.mp hnext
    have hget2 : w2.posted[v.read.length]? = some (o, cqe) := by
      obtain ⟨t, hpre⟩ := hgrow
      rw [← hpre, List.getElem?_append_left hlt] at hget
      exact hget
    change cqe = _ at hcqe
    refine Or.inr ⟨o, cqe, hget2, by rw [hcqe], rfl, ?_⟩
    rw [hcqe, hslot]
    exact h3.readCqe hlt3

theorem syncCq_spec (ht : c.Tracks v) :
    Spec ringMachine (RingAt v) c.syncCq fun _ w =>
      RingAt { v with cqPub := v.read.length } w := by
  show Spec ringMachine (RingAt v) (perform (.storeCqHead c.cqHeadLocal) >>= Prog.ret) _
  exact Spec.storeCqHead ht.head (Spec.ret fun w h => h)

/-- `wait` publishes the head before it enters the kernel, and submits nothing. -/
theorem wait_spec (ht : c.Tracks v) (minComplete : UInt32) :
    Spec ringMachine (RingAt v) (c.wait minComplete) fun _ w =>
      RingAt { v with cqPub := v.read.length } w := by
  unfold wait syncCq
  refine Spec.storeCqHead ht.head (Spec.enter ?_ ?_)
  · intro k hk
    refine Spec.ret fun w h => ?_
    -- The call asks for no entries, so it reports none.
    have hk0 : k = 0 := Nat.le_zero.mp hk
    rw [hk0, show UInt32.ofNat 0 = 0 from rfl, UInt32.add_zero] at h
    exact h
  · intro e
    exact Spec.ret fun w h => h

end Completer

/-! ### The whole ring -/

namespace IoUring

/-- The submission half that `split` takes out of a ring. -/
def submitter (r : IoUring) : Submitter where
  fd := r.fd
  sqMask := r.sqMask
  sqTailLocal := r.sqTailLocal
  sqSubmitted := r.sqSubmitted
  features := r.features

/-- The completion half that `split` takes out of a ring. -/
def completer (r : IoUring) : Completer where
  fd := r.fd
  cqMask := r.cqMask
  cqHeadLocal := r.cqHeadLocal

/-- The ring knows where the view is. -/
structure Tracks (v : View) (r : IoUring) : Prop where
  sq : r.submitter.Tracks v
  cq : r.completer.Tracks v

/-- The ring with the counters of a submission half. -/
def withSubmitter (r : IoUring) (s : Submitter) : IoUring :=
  { r with sqTailLocal := s.sqTailLocal, sqSubmitted := s.sqSubmitted }

/-- The ring with the counter of a completion half. -/
def withCompleter (r : IoUring) (c : Completer) : IoUring :=
  { r with cqHeadLocal := c.cqHeadLocal }

theorem push_eq (r : IoUring) (sqe : Sqe) :
    r.push sqe = r.submitter.push sqe >>= fun x => pure (x.1, r.withSubmitter x.2) := by
  unfold push Submitter.push
  refine congrArg (Prog.op _) (funext fun (head : UInt32) => ?_)
  show (if r.sqTailLocal + 1 - head > r.sqMask + 1 then _ else _)
    = (if r.sqTailLocal + 1 - head > r.sqMask + 1 then _ else _) >>= _
  by_cases hc : r.sqTailLocal + 1 - head > r.sqMask + 1
  · rw [if_pos hc, if_pos hc]
    rfl
  · rw [if_neg hc, if_neg hc]
    rfl

theorem complete_eq (r : IoUring) :
    r.complete = r.completer.complete >>= fun x => pure (x.1, r.withCompleter x.2) := by
  unfold complete Completer.complete
  refine congrArg (Prog.op _) (funext fun (tail : UInt32) => ?_)
  show (if r.cqHeadLocal = tail then _ else _)
    = (if r.cqHeadLocal = tail then _ else _) >>= _
  by_cases hc : r.cqHeadLocal = tail
  · rw [if_pos hc, if_pos hc]
    rfl
  · rw [if_neg hc, if_neg hc]
    rfl

theorem submitSqpoll_eq (r : IoUring) :
    r.submitSqpoll
      = r.submitter.submitSqpoll >>= fun x => pure (x.1, r.withSubmitter x.2) := by
  unfold submitSqpoll Submitter.submitSqpoll
  refine congrArg (Prog.op _) (funext fun _ =>
    congrArg (Prog.op _) (funext fun (flags : UInt32) => ?_))
  show (if (flags &&& IORING_SQ_NEED_WAKEUP != 0) = true then _ else _)
    = (if (flags &&& IORING_SQ_NEED_WAKEUP != 0) = true then _ else _) >>= _
  by_cases hw : (flags &&& IORING_SQ_NEED_WAKEUP != 0) = true
  · rw [if_pos hw, if_pos hw]
    refine congrArg (Prog.op _) (funext fun (x : Except Errno Nat) => ?_)
    cases x with
    | ok n => rfl
    | error e => rfl
  · rw [if_neg hw, if_neg hw]
    rfl

variable {v : View} {r : IoUring}

/-- An exit that took no entry off the queue: a failure, or a success that says so. -/
theorem tookNone {w : World} (res : Except Error UInt32) (h : RingAt v w)
    (hres : ∀ n, res = .ok n → n = 0) : ∃ c,
      r = { r with sqSubmitted := r.sqSubmitted + c } ∧
      RingAt { v with head := v.head + c } w ∧ ∀ n, res = .ok n → n = c := by
  refine ⟨0, ?_, ?_, hres⟩
  · rw [UInt32.add_zero]
  · rw [UInt32.add_zero]
    exact h

/-- `submit` on the whole ring also publishes the CQ head, unless it fails or has nothing
to submit. -/
theorem submit_spec (ht : r.Tracks v) :
    Spec ringMachine (RingAt v) r.submit fun x w => ∃ c q,
      x.2 = { r with sqSubmitted := r.sqSubmitted + c } ∧
      RingAt { v with sqPub := v.written.length, cqPub := q, head := v.head + c } w ∧
      ∀ n, x.1 = .ok n → n = c := by
  unfold submit flushSqTail flushCqHead
  refine Spec.storeSqTail ht.sq.tail ?_
  by_cases h0 : r.sqTailLocal - r.sqSubmitted = 0
  · simp only [h0, if_true]
    refine Spec.ret fun w h => ?_
    obtain ⟨c, hx, hw, hn⟩ := tookNone (r := r) (.ok 0) h fun n hn => by cases hn; rfl
    exact ⟨c, v.cqPub, hx, hw, hn⟩
  · simp only [h0, if_false]
    refine Spec.enter ?_ ?_
    · intro k _
      refine Spec.storeCqHead ht.cq.head ?_
      refine Spec.ret fun w h => ⟨UInt32.ofNat k, v.read.length, rfl, h, ?_⟩
      intro n hn
      cases hn
      rfl
    · intro e
      refine Spec.ret fun w h => ?_
      obtain ⟨c, hx, hw, hn⟩ := tookNone (r := r) (.error (.syscall e)) h
        fun n hn => by cases hn
      exact ⟨c, v.cqPub, hx, hw, hn⟩

/-- Every exit of `submit_and_wait` leaves the count where the kernel's head is, also the
exit between the two enters of the backpressure path. -/
theorem submitAndWait_spec (ht : r.Tracks v) (minComplete : UInt32) :
    Spec ringMachine (RingAt v) (r.submitAndWait minComplete) fun x w => ∃ c,
      x.2 = { r with sqSubmitted := r.sqSubmitted + c } ∧
      RingAt { v with
        sqPub := v.written.length, cqPub := v.read.length, head := v.head + c } w ∧
      ∀ n, x.1 = .ok n → n = c := by
  unfold submitAndWait flushSqTail flushCqHead
  refine Spec.storeCqHead ht.cq.head (Spec.storeSqTail ht.sq.tail (Spec.loadCqTail ?_))
  intro cqTail
  -- The two enters of the backpressure path, and the one of the ordinary path.
  by_cases hfull : cqTail - r.cqHeadLocal > r.cqMask + 1 - (r.cqMask + 1) / 4
  · simp only [hfull, if_true]
    refine Spec.enter ?_ ?_
    · intro k _
      refine Spec.enter ?_ ?_
      · intro k' _
        refine Spec.ret fun w h => ⟨UInt32.ofNat k + UInt32.ofNat k', ?_, ?_, ?_⟩
        · rw [← UInt32.add_assoc]
        · rw [← UInt32.add_assoc]
          exact h
        · intro n hn
          cases hn
          rfl
      · -- The second enter failed: what the first one took is already counted.
        intro e
        refine Spec.ret fun w h => ⟨UInt32.ofNat k, rfl, h, ?_⟩
        intro n hn
        cases hn
    · intro e
      refine Spec.ret fun w h => tookNone _ h ?_
      intro n hn
      cases hn
  · simp only [hfull, if_false]
    refine Spec.enter ?_ ?_
    · intro k _
      refine Spec.ret fun w h => ⟨UInt32.ofNat k, rfl, h, ?_⟩
      intro n hn
      cases hn
      rfl
    · intro e
      refine Spec.ret fun w h => tookNone _ h ?_
      intro n hn
      cases hn

end IoUring

end Ququmatz
