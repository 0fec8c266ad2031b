import Ququmatz.Proofs.Ring.Masks
import Ququmatz.Proofs.Ring.Progress

/-!
# `Ququmatz.Proofs.Ring.Split`: the halves go on where the ring stopped

`split` carries the counters of a busy ring over to a `Submitter` and a `Completer`, which
implement the queue operations a second time. `split_seamless` is about every run before the
split and every run after it. The laws of both queues hold for the entries before it followed
by the entries after it, and a refused `split` changes nothing. Nothing that was accepted on
either side stays behind: a submitting call of the half asks the kernel for exactly what it has
not read (`Submitter.Submits`), and every call that publishes the tail publishes all of it
(`Sys.Publishes`), so that an SQPOLL thread can read it.

The two runs are glued at the record of the owner's calls, which no call looks at
(`Sys.run_resume`).
-/

set_option autoImplicit false

namespace Ququmatz

open Lib

/-! ### The record of the calls -/

/-- The same system with an empty record of what its calls returned. -/
def Sys.restart (s : Sys) : Sys := { s with accepted := [], reaped := [] }

/-- The same system with an older record in front of its own. -/
def Sys.resume (s : Sys) (accepted : List Sqe) (reaped : List Completion) : Sys :=
  { s with accepted := accepted ++ s.accepted, reaped := reaped ++ s.reaped }

section Record

variable {s : Sys} (acc : List Sqe) (rea : List Completion)

theorem Sys.exec_resume {α : Type} {p : Option (RingProg (α × Handles))} {rs : List KRound}
    {record : α → Sys → Sys}
    (hrec : ∀ a t, record a (Sys.resume t acc rea) = (record a t).resume acc rea) :
    (s.resume acc rea).exec p rs record = (s.exec p rs record).map (·.resume acc rea) := by
  cases p with
  | none => rfl
  | some p =>
      show (p.run ringMachine rs s.world).map _ = ((p.run ringMachine rs s.world).map _).map _
      rw [Option.map_map]
      refine congrArg (Option.map · _) (funext fun x => ?_)
      exact hrec x.1.1 { s with world := x.2, handles := x.1.2 }

/-- No call looks at the record. -/
theorem Sys.step_resume (a : Action) :
    (s.resume acc rea).step a = (s.step a).map (·.resume acc rea) := by
  cases a with
  | kernel k =>
      show (s.world.env k).map _ = ((s.world.env k).map _).map _
      rw [Option.map_map]
      rfl
  | call c rs =>
      cases c with
      | push sqe =>
          refine Sys.exec_resume acc rea ?_
          intro res t
          cases res with
          | ok u => simp only [Sys.recordPush, Sys.resume, List.append_assoc]
          | error e => rfl
      | complete =>
          refine Sys.exec_resume acc rea ?_
          intro res t
          cases res with
          | some c => simp only [Sys.recordReap, Sys.resume, List.append_assoc]
          | none => rfl
      | registerPool =>
          -- what a pool call is guarded by does not look at the record
          simp only [Sys.step, Sys.call]
          by_cases hreg : s.handles.sqSubmitted.isSome = true
          · rw [if_pos hreg, if_pos (show (s.resume acc rea).handles.sqSubmitted.isSome = true
              from hreg)]
            exact Sys.exec_resume acc rea fun _ _ => rfl
          · rw [if_neg hreg, if_neg (show ¬(s.resume acc rea).handles.sqSubmitted.isSome = true
              from hreg)]
            rfl
      | dropPool =>
          simp only [Sys.step, Sys.call]
          by_cases hpool : 0 < s.pools
          · rw [if_pos hpool, if_pos (show 0 < (s.resume acc rea).pools from hpool)]
            exact Sys.exec_resume acc rea fun _ _ => rfl
          · rw [if_neg hpool, if_neg (show ¬0 < (s.resume acc rea).pools from hpool)]
            rfl
      | _ =>
          refine Sys.exec_resume acc rea ?_
          intro _ _
          rfl

theorem Sys.run_resume (as : List Action) :
    (s.resume acc rea).run as = (s.run as).map (·.resume acc rea) := by
  induction as generalizing s with
  | nil => rfl
  | cons a as ih =>
      show ((s.resume acc rea).step a).bind _ = ((s.step a).bind _).map _
      rw [Sys.step_resume]
      cases s.step a with
      | none => rfl
      | some t => exact ih

end Record

/-! ### What the submission half hands to the kernel -/

/-- An access that holds back none of the `accepted` SQEs, of which the kernel has read
`consumed`: a stored tail lies behind the last of them, and an enter asks for all that are
left. -/
def Access.Offers (start : UInt32) (accepted consumed : Nat) : Access → Prop
  | .storeSqTail v => v = start + UInt32.ofNat accepted
  | .enter _ toSubmit _ _ => toSubmit.toNat + consumed = accepted
  | _ => True

/-- The calls that publish the SQ tail. -/
def Call.flushes : Call → Bool
  | .flushSqTail => true
  | .submit => true
  | .submitAndWait _ => true
  | .submitSqpoll => true
  | _ => false

/-- The calls that have the kernel read SQEs. -/
def Call.submits : Call → Bool
  | .submit => true
  | .submitAndWait _ => true
  | _ => false

/-- Every call of `s` that publishes the tail publishes all of `accepted`, and an SQPOLL
thread can then read it to the end. -/
structure Sys.Publishes (start : UInt32) (accepted : List Sqe) (s : Sys) : Prop where
  tail : ∀ c rs s', c.flushes = true → s.call c rs = some s' →
    s'.world.sqTail = start + UInt32.ofNat accepted.length
  polled : s.world.sqpoll = true → ∀ c rs s', c.flushes = true → s.call c rs = some s' →
    ∃ n s'', s'.run (List.replicate n (.kernel .consume)) = some s'' ∧
      s''.world.consumed = accepted

/-- A submitting call of the half asks the kernel for exactly the entries of `accepted` that
it has not read, and the kernel can take any number of these. -/
structure Submitter.Submits (start : UInt32) (accepted : List Sqe) (sub : Submitter) (s : Sys) :
    Prop where
  head : sub.sqSubmitted = s.world.sqHead
  pending : (sub.sqTailLocal - sub.sqSubmitted).toNat + s.world.consumed.length
    = accepted.length
  submit : sub.submit.Safe (Access.Offers start accepted.length s.world.consumed.length)
    fun _ => True
  submitAndWait : ∀ m, (sub.submitAndWait m).Safe
    (Access.Offers start accepted.length s.world.consumed.length) fun _ => True
  takes : ∀ c n, c.submits = true → s.world.consumed.length + n ≤ accepted.length →
    ∃ rs s', s.call c rs = some s' ∧
      s'.world.consumed = accepted.take (s.world.consumed.length + n)

/-- The kernel can take fewer entries than it is offered. -/
theorem RingAt.enter_early {v : View} {w : World} (h : RingAt v w) (hpoll : w.sqpoll = false)
    {toSubmit m : UInt32} {flags : EnterFlags} {n : Nat} (hn : n ≤ toSubmit.toNat)
    (hpub : w.consumed.length + n ≤ v.sqPub) :
    ∃ w', w.enter toSubmit m flags ⟨.early n, []⟩ = some (.ok n, w') ∧
      w'.consumed.length = w.consumed.length + n := by
  obtain ⟨w', htake, hlen, -⟩ := h.sq.consumeN_of_le hpub
  refine ⟨w', ?_, hlen⟩
  unfold World.enter World.takeEntries
  simp only [hn, if_true, hpoll, Bool.false_eq_true, if_false, htake, Option.bind_some,
    Option.map_some, envSteps]

namespace Submitter

variable {v : View} {s : Submitter} {w : World} {start : UInt32}

theorem submit_offers {accepted consumed : Nat} (htail : s.sqTailLocal = start + .ofNat accepted)
    (hleft : (s.sqTailLocal - s.sqSubmitted).toNat + consumed = accepted) :
    s.submit.Safe (Access.Offers start accepted consumed) fun _ => True := by
  unfold submit flushSqTail
  refine safe_perform.mpr ⟨htail, fun _ => ?_⟩
  split
  · trivial
  · refine safe_perform.mpr ⟨hleft, fun ret => ?_⟩
    cases ret <;> trivial

/-- `submit_and_wait` enters even when nothing is left. -/
theorem submitAndWait_offers {accepted consumed : Nat}
    (htail : s.sqTailLocal = start + .ofNat accepted)
    (hleft : (s.sqTailLocal - s.sqSubmitted).toNat + consumed = accepted) (m : UInt32) :
    (s.submitAndWait m).Safe (Access.Offers start accepted consumed) fun _ => True := by
  unfold submitAndWait flushSqTail
  refine safe_perform.mpr ⟨htail, fun _ => safe_perform.mpr ⟨hleft, fun ret => ?_⟩⟩
  cases ret <;> trivial

variable (h : RingAt v w) (ht : s.Tracks v) (hsync : v.synced = true)
  (hpoll : w.sqpoll = false)

include h ht hsync hpoll

/-- The world in which the tail is published, and what an enter may take there. -/
theorem enter_after_flush {m : UInt32} {flags : EnterFlags} {n : Nat}
    (hn : w.consumed.length + n ≤ v.written.length) :
    ∃ w', World.enter { w with sqTail := s.sqTailLocal } (s.sqTailLocal - s.sqSubmitted) m flags
        ⟨.early n, []⟩ = some (.ok n, w') ∧
      w'.consumed.length = w.consumed.length + n := by
  have hoffer := ht.toSubmit h hsync hpoll
  have hflush := h.storeSqTail
  rw [← ht.tail] at hflush
  exact hflush.enter_early hpoll (by omega) hn

theorem submit_takes_some {n : Nat} (hn : w.consumed.length + n ≤ v.written.length) :
    ∃ rs x w', s.submit.run ringMachine rs w = some (x, w') ∧
      w'.consumed.length = w.consumed.length + n := by
  have hoffer := ht.toSubmit h hsync hpoll
  by_cases hzero : s.sqTailLocal - s.sqSubmitted = 0
  · -- there is nothing to take, and the call does not enter
    rw [hzero] at hoffer
    have hoffer : w.consumed.length + 0 = v.written.length := hoffer
    refine ⟨[KRound.quiet], (.ok 0, s), { w with sqTail := s.sqTailLocal }, ?_, ?_⟩
    · unfold submit flushSqTail
      refine run_perform.mpr ⟨.quiet, [], w, (), _, rfl, rfl,
        World.access_storeSqTail.mpr ⟨rfl, rfl, rfl⟩, ?_⟩
      rw [if_pos hzero]
      rfl
    · show w.consumed.length = w.consumed.length + n
      omega
  · obtain ⟨w', henter, hlen⟩ := enter_after_flush h ht hsync hpoll hn
    refine ⟨[KRound.quiet, KRound.entered ⟨.early n, []⟩], s.submitted n, w', ?_, hlen⟩
    unfold submit flushSqTail
    refine run_perform.mpr ⟨.quiet, _, w, (), _, rfl, rfl,
      World.access_storeSqTail.mpr ⟨rfl, rfl, rfl⟩, ?_⟩
    rw [if_neg hzero]
    exact run_perform.mpr ⟨_, [], _, .ok n, w', rfl, rfl,
      World.access_enter.mpr ⟨_, rfl, henter⟩, rfl⟩

theorem submitAndWait_takes_some (m : UInt32) {n : Nat}
    (hn : w.consumed.length + n ≤ v.written.length) :
    ∃ rs x w', (s.submitAndWait m).run ringMachine rs w = some (x, w') ∧
      w'.consumed.length = w.consumed.length + n := by
  obtain ⟨w', henter, hlen⟩ := enter_after_flush h ht hsync hpoll hn
  refine ⟨[KRound.quiet, KRound.entered ⟨.early n, []⟩], s.submitted n, w', ?_, hlen⟩
  unfold submitAndWait flushSqTail
  refine run_perform.mpr ⟨.quiet, _, w, (), _, rfl, rfl,
    World.access_storeSqTail.mpr ⟨rfl, rfl, rfl⟩, ?_⟩
  exact run_perform.mpr ⟨_, [], _, .ok n, w', rfl, rfl,
    World.access_enter.mpr ⟨_, rfl, henter⟩, rfl⟩

end Submitter

namespace Sys

variable {v : View} {s s' : Sys} {start : UInt32}

theorem Inv.half_tracks (h : s.Inv v) {sub : Submitter} {c : Option Completer}
    (hhs : s.handles = .halves (some sub) c) : sub.Tracks v := by
  have ht := h.tracks
  rw [hhs] at ht
  exact ht.1 sub rfl

/-- A call of the half that leaves everything published, leaves the tail behind it. -/
theorem Inv.tail_after {α : Type} (h : s.Inv v) {sub : Submitter} {c : Option Completer}
    (hhs : s.handles = .halves (some sub) c) {rs : List KRound}
    {f : IoUring → RingProg (α × IoUring)} {g : Submitter → RingProg (α × Submitter)}
    (hg : Spec ringMachine (RingAt v) (g sub) fun _ w =>
      ∃ v', v'.sqBase = v.sqBase ∧ v'.sqPub = v.written.length ∧ RingAt v' w)
    (hc : s.exec (s.handles.onSq f g) rs recordNothing = some s') :
    s'.world.sqTail = UInt32.ofNat (v.sqBase + v.written.length) := by
  obtain ⟨p, a, hs', w', hp, hr, rfl⟩ := exec_eq_some hc
  rcases Handles.onSq_run hp hr with ⟨r, r', hwhole, -, -⟩ | ⟨sub', sub'', c', hhalves, -, hrun⟩
  · rw [hhs] at hwhole
    cases hwhole
  · rw [hhs] at hhalves
    cases hhalves
    obtain ⟨v', hbase, hpub, hw⟩ := hg rs s.world _ w' h.ring hrun
    rw [← hbase, ← hpub]
    exact hw.sq.tail

theorem Inv.flushed (h : s.Inv v) {sub : Submitter} {c : Option Completer}
    (hhs : s.handles = .halves (some sub) c) {call : Call} {rs : List KRound}
    (hflush : call.flushes = true) (hc : s.call call rs = some s') :
    s'.world.sqTail = UInt32.ofNat (v.sqBase + v.written.length) := by
  have ht := h.half_tracks hhs
  -- the view after each of them has everything published
  have hall : ∀ {x : UInt32} {b : Bool} {w : World},
      RingAt { v with sqPub := v.written.length, head := x, synced := b } w →
        ∃ v', v'.sqBase = v.sqBase ∧ v'.sqPub = v.written.length ∧ RingAt v' w :=
    fun {x b w} hw => ⟨{ v with sqPub := v.written.length, head := x, synced := b }, rfl, rfl, hw⟩
  cases call with
  | flushSqTail =>
      refine h.tail_after hhs ?_ hc
      exact Spec.storeSqTail ht.tail (Spec.ret fun w hw => hall hw)
  | submit =>
      refine h.tail_after hhs ((Submitter.submit_spec ht).conseq (fun _ hw => hw) ?_) hc
      rintro x w ⟨c, -, hw, -⟩
      exact hall hw
  | submitAndWait m =>
      refine h.tail_after hhs ((Submitter.submitAndWait_spec ht m).conseq (fun _ hw => hw) ?_) hc
      rintro x w ⟨c, -, hw, -⟩
      exact hall hw
  | submitSqpoll =>
      refine h.tail_after hhs ((Submitter.submitSqpoll_spec ht).conseq (fun _ hw => hw) ?_) hc
      rintro x w ⟨y, -, hw⟩
      exact hall hw
  | _ => exact absurd hflush Bool.false_ne_true

/-- A call that does not push leaves the record of the pushes. -/
theorem call_accepted {call : Call} {rs : List KRound} (hc : s.call call rs = some s')
    (hpush : ∀ sqe, call ≠ .push sqe) : s'.accepted = s.accepted := by
  rcases (step_record (a := .call call rs) hc).1 with hkept | ⟨sqe, rs', heq, -⟩
  · exact hkept
  · cases heq
    exact absurd rfl (hpush sqe)

/-- The kernel has read as much as it can. -/
theorem Inv.consumed_eq (h : s.Inv v) {n : Nat} (hn : s.world.consumed.length = n) :
    s.world.consumed = s.accepted.take n := by
  rw [← hn]
  exact List.prefix_iff_eq_take.mp h.consumed_prefix

/-- Whoever submits, the tail is published up to the last SQE that was accepted. -/
theorem Inv.publishesAll (h : s.Inv v) (hbase : v.sqBase = start.toNat) {sub : Submitter}
    {c : Option Completer} (hhs : s.handles = .halves (some sub) c) :
    s.Publishes start s.accepted := by
  have htail : ∀ call rs s', call.flushes = true → s.call call rs = some s' →
      s'.world.sqTail = start + UInt32.ofNat s.accepted.length := by
    intro call rs s' hflush hc
    rw [h.flushed hhs hflush hc, hbase, toNat_add_ofNat, h.accepted]
  refine ⟨htail, ?_⟩
  intro hpoll call rs s' hflush hc
  obtain ⟨v', hf, -⟩ := h.call hc
  have hkept : s'.accepted = s.accepted := by
    refine call_accepted hc fun sqe heq => ?_
    rw [heq] at hflush
    exact absurd hflush Bool.false_ne_true
  have hpoll' : s'.world.sqpoll = true := by
    unfold World.sqpoll
    rw [hf.inv.ring.params, hf.fixed.params, ← h.ring.params]
    exact hpoll
  -- all that was written is published, and the thread can read that far
  have hlen : s'.world.written.length = s.accepted.length := by
    rw [hf.inv.ring.written, ← hf.inv.accepted, hkept]
  have hpub : v'.sqPub = s'.world.written.length := by
    refine hf.inv.ring.sq.pub_eq ?_
    rw [htail call rs s' hflush hc, hf.fixed.sqBase, hbase, toNat_add_ofNat, hlen]
  have hle := hf.inv.consumed_prefix.length_le
  rw [hkept] at hle
  obtain ⟨w', hrun, -, hcons⟩ := hf.inv.consumes hpoll'
    (n := s.accepted.length - s'.world.consumed.length) (by omega)
  refine ⟨_, _, hrun, ?_⟩
  obtain ⟨v'', hf', -⟩ := hf.inv.run hrun
  have hread := hf'.inv.consumed_eq hcons
  rw [show s'.world.consumed.length + (s.accepted.length - s'.world.consumed.length)
    = s.accepted.length by omega] at hread
  show w'.consumed = _
  rw [show w'.consumed = s'.accepted.take s.accepted.length from hread, hkept, List.take_length]

/-- Without an SQPOLL thread, a submitting call of the half asks for what is left. -/
theorem Inv.submitsAll (h : s.Inv v) (hbase : v.sqBase = start.toNat) (hsync : v.synced = true)
    (hpoll : s.world.sqpoll = false) {sub : Submitter} {c : Option Completer}
    (hhs : s.handles = .halves (some sub) c) : sub.Submits start s.accepted s := by
  have ht := h.half_tracks hhs
  have hleft := ht.toSubmit h.ring hsync hpoll
  rw [← h.accepted] at hleft
  have htail : sub.sqTailLocal = start + UInt32.ofNat s.accepted.length := by
    rw [ht.tail, hbase, toNat_add_ofNat, h.accepted]
  refine ⟨?_, by omega, Submitter.submit_offers htail (by omega),
    Submitter.submitAndWait_offers htail (by omega), ?_⟩
  · refine h.sqSubmitted_eq hsync hpoll ?_
    rw [hhs]
    rfl
  · intro call n hsubmit hn
    -- the call and its world, in which the kernel has read `n` more
    suffices hcall : ∃ rs s', s.call call rs = some s' ∧ s'.accepted = s.accepted ∧
        s'.world.consumed.length = s.world.consumed.length + n by
      obtain ⟨rs, s', hc, hkept, hcons⟩ := hcall
      obtain ⟨v', hf, -⟩ := h.call hc
      refine ⟨rs, s', hc, ?_⟩
      rw [hf.inv.consumed_eq hcons, hkept]
    rw [h.accepted] at hn
    cases call with
    | submit =>
        obtain ⟨rs, x, w', hrun, hcons⟩ := Submitter.submit_takes_some h.ring ht hsync hpoll hn
        refine ⟨rs, { s with world := w', handles := .halves (some x.2) c }, ?_, rfl, hcons⟩
        have hp : s.handles.submit = some (do
            let y ← sub.submit
            return (y.1, .halves (some y.2) c)) := by
          rw [hhs]
          rfl
        exact exec_of_run hp (Prog.run_map.mpr ⟨x, hrun, rfl⟩)
    | submitAndWait m =>
        obtain ⟨rs, x, w', hrun, hcons⟩ :=
          Submitter.submitAndWait_takes_some h.ring ht hsync hpoll m hn
        refine ⟨rs, { s with world := w', handles := .halves (some x.2) c }, ?_, rfl, hcons⟩
        have hp : s.handles.submitAndWait m = some (do
            let y ← sub.submitAndWait m
            return (y.1, .halves (some y.2) c)) := by
          rw [hhs]
          rfl
        exact exec_of_run hp (Prog.run_map.mpr ⟨x, hrun, rfl⟩)
    | _ => exact absurd hsubmit Bool.false_ne_true

/-! ### The record does not matter to them -/

section Record

variable {acc : List Sqe} {rea : List Completion} {accepted : List Sqe}

theorem call_of_resume {call : Call} {rs : List KRound} {t : Sys}
    (hc : (s.resume acc rea).call call rs = some t) :
    ∃ s', s.call call rs = some s' ∧ t = s'.resume acc rea := by
  have hstep := step_resume (s := s) acc rea (.call call rs)
  rw [show (s.resume acc rea).step (.call call rs) = some t from hc] at hstep
  obtain ⟨s', hs', ht⟩ := Option.map_eq_some_iff.mp hstep.symm
  exact ⟨s', hs', ht.symm⟩

theorem call_resume {call : Call} {rs : List KRound} (hc : s.call call rs = some s') :
    (s.resume acc rea).call call rs = some (s'.resume acc rea) := by
  have hstep := step_resume (s := s) acc rea (.call call rs)
  rw [show s.step (.call call rs) = some s' from hc] at hstep
  exact hstep

theorem Publishes.of_resume (h : (s.resume acc rea).Publishes start accepted) :
    s.Publishes start accepted := by
  refine ⟨?_, ?_⟩
  · intro call rs s' hflush hc
    exact h.tail call rs (s'.resume acc rea) hflush (call_resume hc)
  · intro hpoll call rs s' hflush hc
    obtain ⟨n, t, hrun, hread⟩ :=
      h.polled hpoll call rs (s'.resume acc rea) hflush (call_resume hc)
    rw [run_resume] at hrun
    obtain ⟨s'', hrun', rfl⟩ := Option.map_eq_some_iff.mp hrun
    exact ⟨n, s'', hrun', hread⟩

end Record

end Sys

theorem Submitter.Submits.of_resume {start : UInt32} {accepted acc : List Sqe}
    {rea : List Completion} {sub : Submitter} {s : Sys}
    (h : sub.Submits start accepted (s.resume acc rea)) : sub.Submits start accepted s := by
  refine ⟨h.head, h.pending, h.submit, h.submitAndWait, ?_⟩
  intro call n hsubmit hn
  obtain ⟨rs, t, hc, hread⟩ := h.takes call n hsubmit hn
  obtain ⟨s', hc', rfl⟩ := Sys.call_of_resume hc
  exact ⟨rs, s', hc', hread⟩

/-! ### Across the split -/

/-- `split` is a seamless continuation of every reachable ring. For all that was pushed and
reaped before it, followed by all that was pushed and reaped after it, both queues keep their
laws; the submission half publishes the whole, and without an SQPOLL thread it asks the kernel
for exactly what is left of it. A refused `split` changes nothing. -/
theorem split_seamless (params : RingParams) (resources : RingResources)
    (sqStart cqStart : UInt32) (sqArray : Nat → UInt32) (sqes : Nat → Sqe) (cqes : Nat → Cqe)
    (as : List Action) (s0 s1 : Sys) (rs : List KRound)
    (hr : (Sys.init params resources sqStart cqStart sqArray sqes cqes).run as = some s0)
    (hsplit : s0.call .split rs = some s1) :
    ∃ r, s0.handles = .whole r ∧
      (IoUring.setupFlagsForbidSplit r.setupFlags = true → s1 = s0) ∧
      (IoUring.setupFlagsForbidSplit r.setupFlags = false →
        s1.handles = .halves (some r.submitter) (some r.completer) ∧
        ∀ bs s2, s1.restart.run bs = some s2 →
          SqLaw sqStart (s0.accepted ++ s2.accepted) s2.world ∧
          CqLaw cqStart (s0.reaped ++ s2.reaped) s2.world ∧
          s2.world.resources.refcount = s2.handles.live + s2.pools ∧
          (∀ sub c, s2.handles = .halves (some sub) c →
            s2.Publishes sqStart (s0.accepted ++ s2.accepted) ∧
            (s2.world.sqpoll = false → (∀ a ∈ as ++ bs, a.notSqpoll = true) →
              sub.Submits sqStart (s0.accepted ++ s2.accepted) s2))) := by
  obtain ⟨v0, hf0, hsync0⟩ := (Sys.init_inv params resources sqStart cqStart sqArray sqes
    cqes).run hr
  obtain ⟨r, hwhole, hcase⟩ := hf0.inv.split hsplit
  refine ⟨r, hwhole, ?_, ?_⟩
  · intro hforbid
    rcases hcase with ⟨-, rfl⟩ | ⟨hno, -⟩
    · rfl
    · rw [hforbid] at hno
      exact absurd hno (by simp)
  · intro hallow
    rcases hcase with ⟨hforbid, -⟩ | ⟨-, hhalves, hacc, hrea, hf1⟩
    · rw [hforbid] at hallow
      exact absurd hallow (by simp)
    · refine ⟨hhalves, ?_⟩
      intro bs s2 hbs
      -- The run with the whole record is the run with the record restarted, resumed.
      have hs1 : s1.restart.resume s0.accepted s0.reaped = s1 := by
        unfold Sys.restart Sys.resume
        simp only [List.append_nil, ← hacc, ← hrea]
      have hrun : s1.run bs = some (s2.resume s0.accepted s0.reaped) := by
        have := Sys.run_resume (s := s1.restart) s0.accepted s0.reaped bs
        rw [hs1, hbs] at this
        exact this
      obtain ⟨v2, hf2, hsync2⟩ := hf1.inv.run hrun
      have h2 := hf2.inv
      have hfix := hf0.fixed.trans (hf1.fixed.trans hf2.fixed)
      refine ⟨h2.sqLaw hfix.sqBase, h2.cqLaw hfix.cqBase, ?_, ?_⟩
      · have hres : s2.world.resources = v2.resources := h2.ring.resources
        rw [hres]
        exact h2.shares
      · intro sub c hhs
        refine ⟨Sys.Publishes.of_resume (h2.publishesAll hfix.sqBase hhs), ?_⟩
        intro hpoll hall
        have hsync : v2.synced = true := by
          rw [hsync2 fun a ha => hall a (List.mem_append_right as ha)]
          show v0.synced = true
          rw [hsync0 fun a ha => hall a (List.mem_append_left bs ha)]
          rfl
        exact Submitter.Submits.of_resume (h2.submitsAll hfix.sqBase hsync hpoll hhs)

/-- A ring with one SQE that was pushed and not submitted, and one CQE not yet reaped. -/
def busyRing : List Action :=
  [.call (.push Sqe.nop) [.quiet, .quiet],
    .kernel (.post .foreign ⟨1, 0, 0⟩)]

/-- The halves push one more SQE, and the kernel takes one of the two. -/
def busyHalves : List Action :=
  [.call (.push (Sqe.nop.withUserData 7)) [.quiet, .quiet],
    .call (.submitAndWait 1) [.quiet, .entered ⟨.ok 1, []⟩],
    .call .complete [.quiet, .quiet]]

/-- The other SQE is the one that the next `submit_and_wait` asks for. -/
theorem split_busy_ring :
    ∃ s0 s1 s2 sub c, Sys.wrapping.run busyRing = some s0 ∧
      s0.call .split [.quiet] = some s1 ∧ s1.restart.run busyHalves = some s2 ∧
      s2.handles = .halves (some sub) c ∧
      s2.world.consumed = [Sqe.nop] ∧
      sub.Submits 0xFFFFFFFF [Sqe.nop, Sqe.nop.withUserData 7] s2 := by
  have heval : ((Sys.wrapping.run busyRing).bind fun s0 =>
      (s0.call .split [.quiet]).bind fun s1 =>
        (s1.restart.run busyHalves).map fun s2 =>
          (s0.handles, s2.handles, s2.world.sqpoll, s2.world.consumed,
            s0.accepted ++ s2.accepted))
      = some (.whole ⟨⟨3⟩, 1, 0, 0xFFFFFFFF, 1, 0xFFFFFFFF, 0, 0, IoUring.DO_TAG_MARKER⟩,
          .halves (some ⟨⟨3⟩, 1, 1, 0, 0⟩) (some ⟨⟨3⟩, 1, 0⟩), false, [Sqe.nop],
          [Sqe.nop, Sqe.nop.withUserData 7]) := by decide +kernel
  obtain ⟨s0, hrun, heval⟩ := Option.bind_eq_some_iff.mp heval
  obtain ⟨s1, hsplit, heval⟩ := Option.bind_eq_some_iff.mp heval
  obtain ⟨s2, hlater, heval⟩ := Option.map_eq_some_iff.mp heval
  simp only [Prod.mk.injEq] at heval
  obtain ⟨hring, hhalves, hpoll, hread, haccepted⟩ := heval
  obtain ⟨r, hwhole, -, hallow⟩ := split_seamless _ _ _ _ _ _ _ busyRing s0 s1 _ hrun hsplit
  have hflags : IoUring.setupFlagsForbidSplit r.setupFlags = false := by
    cases hwhole.symm.trans hring
    decide
  obtain ⟨-, -, -, hhands⟩ := (hallow hflags).2 busyHalves s2 hlater
  have hsubmits := (hhands _ _ hhalves).2 hpoll (by simp [busyRing, busyHalves, Action.notSqpoll])
  rw [haccepted] at hsubmits
  exact ⟨s0, s1, s2, _, _, hrun, hsplit, hlater, hhalves, hread, hsubmits⟩

end Ququmatz
