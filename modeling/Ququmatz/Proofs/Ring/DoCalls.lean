import Mathlib.Data.Nat.Bitwise
import Ququmatz.Op
import Ququmatz.Proofs.Ring.Ops
import Ququmatz.Ring.DoCalls

/-!
# `Ququmatz.Proofs.Ring.DoCalls`: `run_one` returns only its own result

A `do_*` call recognises its completion by a tag. The tags are `DO_TAG_MARKER | n` with a
counter `n`, so fewer than `2^63` calls never repeat one, and the SQEs that the owner pushes
itself have the marker bit clear. `DoSys.Inv` keeps this for every run: all SQEs written so
far have a `user_data` below the next tag. `runOne_own_result` is what follows for the call
that takes the next tag.

The completion queue also holds the messages that `MSG_RING` requests send to this ring. The
`user_data` of a message is chosen by its sender, and the tag of a call is predictable, so
the theorem asks that no message carries the marker bit (`World.NoMarkedMessage`).
`runOne_mistakes_message` is a call that returns `Ok` on a message.
-/

set_option autoImplicit false

namespace Ququmatz

open Lib

/-! ### The tags -/

namespace IoUring

/-- The tags count up, with the marker bit always set. -/
theorem nextDoTag_toNat (r : IoUring) :
    r.nextDoTag.2.doTagNext.toNat = 2 ^ 63 + (r.doTagNext.toNat + 1) % 2 ^ 63 := by
  have hmask : (~~~DO_TAG_MARKER).toNat = 2 ^ 63 - 1 := by decide
  have hmark : DO_TAG_MARKER.toNat = 2 ^ 63 := by decide
  show (DO_TAG_MARKER ||| (r.doTagNext + 1 &&& ~~~DO_TAG_MARKER)).toNat = _
  rw [UInt64.toNat_or, UInt64.toNat_and, hmask, hmark, Nat.and_two_pow_sub_one_eq_mod,
    UInt64.toNat_add]
  have hlt : (r.doTagNext.toNat + (1 : UInt64).toNat) % 2 ^ 64 % 2 ^ 63 < 2 ^ 63 :=
    Nat.mod_lt _ (by decide)
  have hor := Nat.two_pow_add_eq_or_of_lt hlt 1
  rw [Nat.mul_one] at hor
  rw [← hor, show (1 : UInt64).toNat = 1 from rfl]
  omega

end IoUring

/-- A handle that is the whole ring was so before, with the same next tag. -/
def Handles.SameTag (hs hs' : Handles) : Prop :=
  ∀ r', hs' = .whole r' → ∃ r, hs = .whole r ∧ r'.doTagNext = r.doTagNext

section SameTag

variable {α : Type} {hs : Handles} {p : RingProg (α × Handles)}

theorem Handles.SameTag.refl (hs : Handles) : hs.SameTag hs := fun r' h => ⟨r', h, rfl⟩

theorem Handles.SameTag.of_whole {r r' : IoUring} (h : r'.doTagNext = r.doTagNext) :
    Handles.SameTag (.whole r) (.whole r') := by
  intro r'' hr
  cases hr
  exact ⟨r, rfl, h⟩

theorem Handles.SameTag.of_halves {hs : Handles} {s : Option Submitter} {c : Option Completer} :
    hs.SameTag (.halves s c) := by
  intro r' hr
  cases hr

theorem Handles.onSq_sameTag {f : IoUring → RingProg (α × IoUring)}
    {g : Submitter → RingProg (α × Submitter)} (hp : hs.onSq f g = some p)
    (hf : ∀ r, (f r).Returns fun x => x.2.doTagNext = r.doTagNext) :
    p.Returns fun x => hs.SameTag x.2 := by
  have htriv : ∀ s, (g s).Returns fun _ => True := fun s => Prog.returns_true _
  cases hs with
  | whole r =>
      cases hp
      exact (hf r).bind fun x hx => .of_whole hx
  | halves s c =>
      cases s with
      | none => cases hp
      | some s =>
          cases hp
          exact (htriv s).bind fun x _ => .of_halves
  | gone => cases hp

theorem Handles.onCq_sameTag {f : IoUring → RingProg (α × IoUring)}
    {g : Completer → RingProg (α × Completer)} (hp : hs.onCq f g = some p)
    (hf : ∀ r, (f r).Returns fun x => x.2.doTagNext = r.doTagNext) :
    p.Returns fun x => hs.SameTag x.2 := by
  have htriv : ∀ s, (g s).Returns fun _ => True := fun s => Prog.returns_true _
  cases hs with
  | whole r =>
      cases hp
      exact (hf r).bind fun x hx => .of_whole hx
  | halves s c =>
      cases c with
      | none => cases s <;> cases hp
      | some c =>
          cases s <;> cases hp <;> exact (htriv c).bind fun x _ => .of_halves
  | gone => cases hp

end SameTag

theorem returns_perform {α : Type} {a : Access} {f : a.Ans → RingProg α} {P : α → Prop} :
    (perform a >>= f).Returns P ↔ ∀ x, (f x).Returns P := Iff.rfl

namespace IoUring

variable (r : IoUring)

theorem push_sameTag (sqe : Sqe) :
    (r.push sqe).Returns fun x => x.2.doTagNext = r.doTagNext := by
  rw [push_eq]
  exact (Prog.returns_true _).bind fun x _ => rfl

theorem submit_sameTag : r.submit.Returns fun x => x.2.doTagNext = r.doTagNext := by
  unfold submit flushSqTail flushCqHead
  refine returns_perform.mpr fun _ => ?_
  by_cases h0 : r.sqTailLocal - r.sqSubmitted = 0
  · simp [h0]
  · simp only [h0, if_false]
    refine returns_perform.mpr fun ret => ?_
    cases ret with
    | error e => rfl
    | ok ret => exact returns_perform.mpr fun _ => rfl

theorem submitAndWait_sameTag (m : UInt32) :
    (r.submitAndWait m).Returns fun x => x.2.doTagNext = r.doTagNext := by
  unfold submitAndWait flushSqTail flushCqHead
  refine returns_perform.mpr fun _ => returns_perform.mpr fun _ =>
    returns_perform.mpr fun (cqTail : UInt32) => ?_
  by_cases hfull : cqTail - r.cqHeadLocal > r.cqMask + 1 - (r.cqMask + 1) / 4
  · simp only [hfull, if_true]
    refine returns_perform.mpr fun first => ?_
    cases first with
    | error e => rfl
    | ok first =>
        refine returns_perform.mpr fun second => ?_
        cases second <;> rfl
  · simp only [hfull, if_false]
    refine returns_perform.mpr fun ret => ?_
    cases ret <;> rfl

theorem submitSqpoll_sameTag : r.submitSqpoll.Returns fun x => x.2.doTagNext = r.doTagNext := by
  rw [submitSqpoll_eq]
  exact (Prog.returns_true _).bind fun x _ => rfl

theorem complete_sameTag : r.complete.Returns fun x => x.2.doTagNext = r.doTagNext := by
  rw [complete_eq]
  exact (Prog.returns_true _).bind fun x _ => rfl

end IoUring

namespace Sys

variable {v : View} {s s' : Sys}

theorem exec_sameTag {α : Type} {p : Option (RingProg (α × Handles))} {rs : List KRound}
    {record : α → Sys → Sys} (hrec : ∀ a t, (record a t).handles = t.handles)
    (hp : ∀ prog, p = some prog → prog.Returns fun x => s.handles.SameTag x.2)
    (h : s.exec p rs record = some s') : s.handles.SameTag s'.handles := by
  obtain ⟨prog, a, hs', w', hprog, hrun, rfl⟩ := exec_eq_some h
  rw [hrec]
  exact (hp prog hprog).of_run hrun

/-- Only `run_one` takes a tag. -/
theorem step_sameTag (hi : s.Inv v) {a : Action} (ha : a.takesTag = false)
    (h : s.step a = some s') : s.handles.SameTag s'.handles := by
  cases a with
  | kernel k =>
      obtain ⟨w', -, rfl⟩ := Option.map_eq_some_iff.mp h
      exact .refl _
  | call c rs =>
      -- The calls on one half pass the ring through; the last six rebuild or drop a handle.
      cases c with
      | push sqe =>
          refine exec_sameTag (fun a t => ?_) (fun prog hp =>
            Handles.onSq_sameTag hp fun r => r.push_sameTag sqe) h
          cases a <;> rfl
      | flushSqTail =>
          refine exec_sameTag (fun _ _ => rfl) (fun prog hp => ?_) h
          exact Handles.onSq_sameTag hp fun r => returns_perform.mpr fun _ => rfl
      | submit =>
          exact exec_sameTag (fun _ _ => rfl) (fun prog hp =>
            Handles.onSq_sameTag hp fun r => r.submit_sameTag) h
      | submitAndWait n =>
          exact exec_sameTag (fun _ _ => rfl) (fun prog hp =>
            Handles.onSq_sameTag hp fun r => r.submitAndWait_sameTag n) h
      | submitSqpoll =>
          exact exec_sameTag (fun _ _ => rfl) (fun prog hp =>
            Handles.onSq_sameTag hp fun r => r.submitSqpoll_sameTag) h
      | complete =>
          refine exec_sameTag (fun a t => ?_) (fun prog hp =>
            Handles.onCq_sameTag hp fun r => r.complete_sameTag) h
          cases a <;> rfl
      | syncCq =>
          refine exec_sameTag (fun _ _ => rfl) (fun prog hp => ?_) h
          exact Handles.onCq_sameTag hp fun r => returns_perform.mpr fun _ => rfl
      | nextDoTag => exact absurd ha (by simp [Action.takesTag])
      | wait n =>
          obtain ⟨p, res, hs', w', hp, hr, rfl⟩ := exec_eq_some h
          obtain ⟨-, rfl⟩ := Handles.wait_run hi.ring hi.tracks hp hr
          exact .refl _
      | split =>
          obtain ⟨p, res, hs', w', hp, hr, rfl⟩ := exec_eq_some h
          obtain ⟨r, -, hcase⟩ := Handles.split_run hi.ring hp hr
          rcases hcase with ⟨-, -, rfl, -, -⟩ | ⟨-, -, rfl, -⟩
          · exact .refl _
          · exact .of_halves
      | dropRing =>
          obtain ⟨p, res, hs', w', hp, hr, rfl⟩ := exec_eq_some h
          obtain ⟨-, -, rfl⟩ := Handles.dropRing_run hi.ring hi.tracks hp hr
          exact fun r' hr' => absurd hr' (by simp [recordNothing])
      | dropSubmitter =>
          obtain ⟨p, res, hs', w', hp, hr, rfl⟩ := exec_eq_some h
          obtain ⟨-, a, c, -, rfl⟩ := Handles.dropSubmitter_run hi.ring hp hr
          exact .of_halves
      | dropCompleter =>
          obtain ⟨p, res, hs', w', hp, hr, rfl⟩ := exec_eq_some h
          obtain ⟨-, a, c, -, rfl⟩ := Handles.dropCompleter_run hi.ring hi.tracks hp hr
          exact .of_halves
      | registerPool =>
          simp only [Sys.step, Sys.call] at h
          split at h
          · refine exec_sameTag ?_ (fun prog hp => ?_) h
            · exact fun _ _ => rfl
            · cases hp
              exact returns_perform.mpr fun _ => .refl _
          · exact absurd h (by simp)
      | dropPool =>
          simp only [Sys.step, Sys.call] at h
          split at h
          · refine exec_sameTag ?_ (fun prog hp => ?_) h
            · exact fun _ _ => rfl
            · cases hp
              exact returns_perform.mpr fun _ => .refl _
          · exact absurd h (by simp)

end Sys

/-! ### The result of a call -/

/-- What `run_one` returns after it drained `ds`, if `stray` was seen before. It stopped at
the first completion with the tag, or it failed before it saw one. -/
def Answers (tag : UInt64) (stray : Option UInt64) (ds : List Cqe)
    (res : Except Error UInt32) : Prop :=
  (∃ pre last, ds = pre ++ [last] ∧ (∀ c ∈ pre, c.userData ≠ tag) ∧ last.userData = tag ∧
      res = match stray.or (pre.head?.map Cqe.userData) with
        | none => (Completion.ofCqe last).intoResult
        | some found => .error (.completion (.unexpectedCompletion tag found))) ∨
    ((∀ c ∈ ds, c.userData ≠ tag) ∧ ∃ e, res = .error e)

/-- One more completion of someone else in front. -/
theorem Answers.cons {tag : UInt64} {stray : Option UInt64} {cqe : Cqe} {ds : List Cqe}
    {res : Except Error UInt32} (hne : cqe.userData ≠ tag)
    (h : Answers tag (some (stray.getD cqe.userData)) ds res) :
    Answers tag stray (cqe :: ds) res := by
  have hcons : ∀ pre : List Cqe, (∀ c ∈ pre, c.userData ≠ tag) →
      ∀ c ∈ cqe :: pre, c.userData ≠ tag := by
    intro pre hpre c hc
    rcases List.mem_cons.mp hc with rfl | hc
    · exact hne
    · exact hpre c hc
  rcases h with ⟨pre, last, rfl, hpre, hlast, hres⟩ | ⟨hall, herr⟩
  · refine Or.inl ⟨cqe :: pre, last, rfl, hcons pre hpre, hlast, hres.trans ?_⟩
    -- The first stray is the one remembered, or this one.
    cases stray <;> rfl
  · exact Or.inr ⟨hcons ds hall, herr⟩

section Loop

variable {v : View} {r r' : IoUring} {w w' : World} {rs : List KRound}

/-- `submit_and_wait` keeps the histories of the crate, the resources and the tag. -/
theorem IoUring.submitAndWait_keeps {n : UInt32} {res : Except Error UInt32} (h : RingAt v w)
    (ht : r.Tracks v) (hr : (r.submitAndWait n).run ringMachine rs w = some ((res, r'), w')) :
    ∃ p q x, RingAt { v with sqPub := p, cqPub := q, head := x } w' ∧
      r'.Tracks { v with sqPub := p, cqPub := q, head := x } ∧ r'.doTagNext = r.doTagNext := by
  obtain ⟨c, hx, hw, -⟩ := IoUring.submitAndWait_spec ht n rs w _ w' h hr
  cases hx
  exact ⟨_, _, _, hw, ⟨ht.sq.moved c _ _, ht.cq.mask, ht.cq.head⟩, rfl⟩

/-- The loop drains completions and answers by what it drained. -/
theorem IoUring.runOneLoop_answers {tag : UInt64} {fuel : Nat} {stray : Option UInt64}
    {res : Except Error UInt32} (h : RingAt v w) (ht : r.Tracks v)
    (hr : (runOneLoop tag fuel r stray).run ringMachine rs w = some ((some res, r'), w')) :
    ∃ ds p q x, RingAt { v with read := v.read ++ ds, sqPub := p, cqPub := q, head := x } w' ∧
      r'.Tracks { v with read := v.read ++ ds, sqPub := p, cqPub := q, head := x } ∧
      r'.doTagNext = r.doTagNext ∧ Answers tag stray ds res := by
  induction fuel generalizing r stray v w rs with
  | zero =>
      obtain ⟨-, hx, -⟩ := Prog.run_ret.mp hr
      cases hx
  | succ fuel ih =>
      unfold runOneLoop at hr
      obtain ⟨rs1, rs2, ⟨c, r1⟩, w1, rfl, hr1, hr2⟩ := Prog.run_bind.mp hr
      have htag1 : r1.doTagNext = r.doTagNext := r.complete_sameTag.of_run hr1
      obtain ⟨rd, rs', w2, -, -, hcase⟩ := IoUring.complete_run h ht hr1
      rcases hcase with ⟨-, rfl, rfl, hw⟩ | ⟨o, cqe, -, rfl, hw, ht1⟩
      · -- The queue was empty: the loop gives up.
        obtain ⟨-, hx, rfl⟩ := Prog.run_ret.mp hr2
        cases hx
        refine ⟨[], v.sqPub, v.cqPub, v.head, ?_, ?_, rfl, Or.inr ⟨by simp, _, rfl⟩⟩
        · rw [List.append_nil]
          exact hw
        · rw [List.append_nil]
          exact ht
      · by_cases htag : (Completion.ofCqe cqe).userData = tag
        · -- The completion with the tag ends the loop.
          simp only [htag, if_true] at hr2
          refine ⟨[cqe], v.sqPub, v.cqPub, v.head, ?_⟩
          cases stray with
          | none =>
              obtain ⟨-, hx, rfl⟩ := Prog.run_ret.mp hr2
              cases hx
              exact ⟨hw, ht1, htag1, Or.inl ⟨[], cqe, rfl, by simp, htag, rfl⟩⟩
          | some found =>
              obtain ⟨-, hx, rfl⟩ := Prog.run_ret.mp hr2
              cases hx
              exact ⟨hw, ht1, htag1, Or.inl ⟨[], cqe, rfl, by simp, htag, rfl⟩⟩
        · simp only [htag, if_false] at hr2
          obtain ⟨rs3, rs4, ⟨waited, r2⟩, w3, rfl, hr3, hr4⟩ := Prog.run_bind.mp hr2
          obtain ⟨p, q, x, hw3, ht3, htag3⟩ := IoUring.submitAndWait_keeps hw ht1 hr3
          cases waited with
          | error e =>
              -- The wait failed, and what was drained so far is not the answer.
              obtain ⟨-, hx, rfl⟩ := Prog.run_ret.mp hr4
              cases hx
              refine ⟨[cqe], p, q, x, hw3, ht3, htag3.trans htag1, Or.inr ⟨?_, e, rfl⟩⟩
              intro c hc
              rw [List.mem_singleton.mp hc]
              exact htag
          | ok m =>
              obtain ⟨ds, p', q', x', hw', ht', htag', hans⟩ := ih hw3 ht3 hr4
              refine ⟨cqe :: ds, p', q', x', ?_, ?_, htag'.trans (htag3.trans htag1),
                hans.cons htag⟩
              · rw [List.append_cons]
                exact hw'
              · rw [List.append_cons]
                exact ht'

/-- A `run_one` that returned: its SQE was refused, or it is the next one written and the
call answers by what it drained. -/
theorem IoUring.runOne_answers {fuel : Nat} {sqe : Sqe} {res : Except Error UInt32}
    (h : RingAt v w) (ht : r.Tracks v)
    (hr : (r.runOne fuel sqe).run ringMachine rs w = some ((some res, r'), w')) :
    r'.doTagNext = r.nextDoTag.2.doTagNext ∧
      ((RingAt v w' ∧ r'.Tracks v ∧ ∃ e, res = .error e) ∨
        ∃ ds p q x,
          RingAt { v with
            written := v.written ++ [sqe.withUserData r.doTagNext], read := v.read ++ ds,
            sqPub := p, cqPub := q, head := x } w' ∧
          r'.Tracks { v with
            written := v.written ++ [sqe.withUserData r.doTagNext], read := v.read ++ ds,
            sqPub := p, cqPub := q, head := x } ∧
          Answers r.doTagNext none ds res) := by
  unfold runOne at hr
  have ht0 : r.nextDoTag.2.Tracks v :=
    ⟨⟨ht.sq.mask, ht.sq.tail, ht.sq.submitted⟩, ht.cq.mask, ht.cq.head⟩
  obtain ⟨rs1, rs2, ⟨pushed, r1⟩, w1, rfl, hr1, hr2⟩ := Prog.run_bind.mp hr
  have htag1 : r1.doTagNext = r.nextDoTag.2.doTagNext :=
    (r.nextDoTag.2.push_sameTag _).of_run hr1
  obtain ⟨rd, rs', w2, -, -, hcase⟩ := IoUring.push_run h ht0 hr1
  rcases hcase with ⟨-, rfl, rfl, hw⟩ | ⟨-, rfl, hw, ht1⟩
  · obtain ⟨-, hx, rfl⟩ := Prog.run_ret.mp hr2
    cases hx
    exact ⟨rfl, Or.inl ⟨hw, ht0, _, rfl⟩⟩
  · obtain ⟨rs3, rs4, ⟨waited, r2⟩, w3, rfl, hr3, hr4⟩ := Prog.run_bind.mp hr2
    obtain ⟨p, q, x, hw3, ht3, htag3⟩ := IoUring.submitAndWait_keeps hw ht1 hr3
    cases waited with
    | error e =>
        -- The SQE is written, and the call returns before it looked for a completion.
        obtain ⟨-, hx, rfl⟩ := Prog.run_ret.mp hr4
        cases hx
        refine ⟨htag3.trans htag1, Or.inr ⟨[], p, q, x, ?_, ?_, Or.inr ⟨by simp, e, rfl⟩⟩⟩
        · rw [List.append_nil]
          exact hw3
        · rw [List.append_nil]
          exact ht3
    | ok m =>
        obtain ⟨ds, p', q', x', hw', ht', htag', hans⟩ := IoUring.runOneLoop_answers hw3 ht3 hr4
        exact ⟨htag'.trans (htag3.trans htag1), Or.inr ⟨ds, p', q', x', hw', ht', hans⟩⟩

end Loop

/-! ### Every tag is new -/

/-- The marker bit of a `user_data` is clear. -/
def Unmarked (data : UInt64) : Prop := data &&& IoUring.DO_TAG_MARKER = 0

instance (data : UInt64) : Decidable (Unmarked data) := inferInstanceAs (Decidable (_ = _))

theorem Unmarked.toNat_lt {data : UInt64} (h : Unmarked data) : data.toNat < 2 ^ 63 := by
  have hand : data.toNat &&& 2 ^ 63 = 0 := by
    have hnat := congrArg UInt64.toNat h
    rwa [UInt64.toNat_and, show IoUring.DO_TAG_MARKER.toNat = 2 ^ 63 by decide] at hnat
  rw [Nat.and_two_pow, Nat.testBit_eq_decide_div_mod_eq] at hand
  have hlt := data.toNat_lt
  by_contra hge
  have hbit : data.toNat / 2 ^ 63 = 1 := by omega
  rw [hbit] at hand
  exact absurd hand (by decide)

/-- The owner pushes no SQE of its own with the marker bit. -/
def DoAction.Unmarked : DoAction → Prop
  | .other (.call (.push sqe) _) => Ququmatz.Unmarked sqe.userData
  | _ => True

/-- No message posted to this ring carries the marker bit. -/
def World.NoMarkedMessage (w : World) : Prop :=
  ∀ p ∈ w.posted, (∀ k, p.1 ≠ .request k) → Unmarked p.2.userData

namespace DoSys

variable {v : View} {s s' : DoSys}

/-- The state of the system between calls: the next tag counts the calls, and until the
counter wraps every SQE written so far has a `user_data` below it. -/
structure Inv (v : View) (s : DoSys) : Prop where
  sys : s.sys.Inv v
  authentic : s.sys.world.Authentic
  tag : ∀ r, s.sys.handles = .whole r → r.doTagNext.toNat = 2 ^ 63 + s.calls % 2 ^ 63
  below : s.calls ≤ 2 ^ 63 → ∀ sqe ∈ s.sys.accepted, sqe.userData.toNat < 2 ^ 63 + s.calls

theorem init_inv (params : RingParams) (resources : RingResources) (sqStart cqStart : UInt32)
    (sqArray : Nat → UInt32) (sqes : Nat → Sqe) (cqes : Nat → Cqe) :
    ∃ v, (DoSys.init params resources sqStart cqStart sqArray sqes cqes).Inv v := by
  refine ⟨_, Sys.init_inv params resources sqStart cqStart sqArray sqes cqes, ?_, ?_, ?_⟩
  · intro p hp
    rw [show (DoSys.init params resources sqStart cqStart sqArray sqes cqes).sys.world.posted = []
      from Sys.init_posted params resources sqStart cqStart sqArray sqes cqes] at hp
    cases hp
  · intro r hr
    cases hr
    show IoUring.DO_TAG_MARKER.toNat = 2 ^ 63 + 0 % 2 ^ 63
    decide
  · intro _ sqe hsqe
    cases hsqe

/-- A call that returned, as a run of `run_one`. -/
theorem doCall_eq_some {fuel : Nat} {sqe : Sqe} {rs : List KRound}
    (h : s.doCall fuel sqe rs = some s') :
    ∃ r res r' w', s.sys.handles = .whole r ∧
      (r.runOne fuel sqe).run ringMachine rs s.sys.world = some ((some res, r'), w') ∧
      s' =
        { sys :=
            { s.sys with
              world := w'
              handles := .whole r'
              accepted := s.sys.accepted ++ w'.written.drop s.sys.world.written.length
              reaped := s.sys.reaped ++
                (w'.read.drop s.sys.world.read.length).map Completion.ofCqe }
          calls := s.calls + 1 } := by
  unfold doCall at h
  split at h
  · rename_i r hr
    split at h
    · rename_i res r' w' hrun
      exact ⟨r, res, r', w', hr, hrun, (Option.some.inj h).symm⟩
    · exact absurd h (by simp)
  · exact absurd h (by simp)

/-- A `run_one` keeps the invariant, whatever it returns. -/
theorem Inv.doCall (h : s.Inv v) {fuel : Nat} {sqe : Sqe} {rs : List KRound}
    (hs : s.doCall fuel sqe rs = some s') : ∃ v', s'.Inv v' := by
  obtain ⟨r, res, r', w', hwhole, hrun, rfl⟩ := doCall_eq_some hs
  have ht := h.sys.tracks
  have hshares := h.sys.shares
  rw [hwhole] at ht hshares
  obtain ⟨htag', hcase⟩ := IoUring.runOne_answers h.sys.ring ht hrun
  have hauth : w'.Authentic := Prog.run_keeps authentic_invariant h.authentic hrun
  have htag := h.tag r hwhole
  -- the counter moves on in both cases: a tag is drawn before the push
  have hnext : r'.doTagNext.toNat = 2 ^ 63 + (s.calls + 1) % 2 ^ 63 := by
    rw [htag', IoUring.nextDoTag_toNat, htag]
    omega
  rcases hcase with ⟨hw, ht', -⟩ | ⟨ds, p, q, x, hw, ht', -⟩
  · -- Refused: nothing was written, and the tag is not used.
    have hwr : w'.written.drop s.sys.world.written.length = [] := by
      rw [hw.written, h.sys.ring.written, List.drop_length]
    have hrd : w'.read.drop s.sys.world.read.length = [] := by
      rw [hw.read, h.sys.ring.read, List.drop_length]
    refine ⟨v, ⟨hw, ht', ?_, ?_, hshares⟩, hauth, ?_, ?_⟩
    · simp [hwr, h.sys.accepted]
    · simp [hrd, h.sys.reaped]
    · intro r'' hr''
      cases hr''
      exact hnext
    · intro hcalls sqe' hsqe'
      simp only [hwr, List.append_nil] at hsqe' hcalls ⊢
      have hlt := h.below (by omega) sqe' hsqe'
      omega
  · -- Accepted: the tag that was used is below the next one.
    have hwr : w'.written.drop s.sys.world.written.length
        = [sqe.withUserData r.doTagNext] := by
      rw [hw.written, h.sys.ring.written, List.drop_left]
    have hrd : w'.read.drop s.sys.world.read.length = ds := by
      rw [hw.read, h.sys.ring.read, List.drop_left]
    refine ⟨_, ⟨hw, ht', ?_, ?_, hshares⟩, hauth, ?_, ?_⟩
    · simp [hwr, h.sys.accepted]
    · simp [hrd, h.sys.reaped]
    · intro r'' hr''
      cases hr''
      exact hnext
    · intro hcalls sqe' hsqe'
      simp only [hwr] at hsqe' hcalls ⊢
      rcases List.mem_append.mp hsqe' with hold | hnew
      · have hlt := h.below (by omega) sqe' hold
        omega
      · rw [List.mem_singleton.mp hnew]
        show r.doTagNext.toNat < _
        omega

/-- The step lemma. -/
theorem Inv.step (h : s.Inv v) {a : DoAction} (hu : a.Unmarked) (hs : s.step a = some s') :
    ∃ v', s'.Inv v' := by
  cases a with
  | doCall fuel sqe rs => exact h.doCall hs
  | other a =>
      simp only [DoSys.step] at hs
      split at hs
      · exact absurd hs (by simp)
      · rename_i htakes
        obtain ⟨t, ht, rfl⟩ := Option.map_eq_some_iff.mp hs
        obtain ⟨v', hf, -⟩ := h.sys.step ht
        refine ⟨v', hf.inv, Sys.step_world authentic_invariant h.authentic ht, ?_, ?_⟩
        · -- the calls that are left draw no tag
          intro r' hr'
          obtain ⟨r, hr, hsame⟩ :=
            Sys.step_sameTag h.sys (Bool.eq_false_iff.mpr htakes) ht r' hr'
          rw [hsame]
          exact h.tag r hr
        · intro hcalls sqe hsqe
          have hold := h.below hcalls
          rcases (Sys.step_record ht).1 with heq | ⟨sqe', rs, rfl, heq⟩
          · rw [heq] at hsqe
            exact hold sqe hsqe
          · rw [heq] at hsqe
            rcases List.mem_append.mp hsqe with hmem | hmem
            · exact hold sqe hmem
            · -- The owner's own SQE has the marker bit clear.
              rw [List.mem_singleton.mp hmem]
              have hlt : sqe'.userData.toNat < 2 ^ 63 := Unmarked.toNat_lt hu
              show _ < 2 ^ 63 + s.calls
              omega

/-- The run lemma. -/
theorem Inv.run {as : List DoAction} (h : s.Inv v) (hu : ∀ a ∈ as, a.Unmarked)
    (hr : s.run as = some s') : ∃ v', s'.Inv v' := by
  induction as generalizing s v with
  | nil =>
      cases hr
      exact ⟨v, h⟩
  | cons a as ih =>
      obtain ⟨s1, h1, h2⟩ := Option.bind_eq_some_iff.mp hr
      obtain ⟨v1, hi⟩ := h.step (hu a List.mem_cons_self) h1
      exact ih hi (fun b hb => hu b (List.mem_cons_of_mem a hb)) h2

end DoSys

/-! ### The result of a call is its own -/

/-- A count is the result of a completion that did not fail. -/
theorem Completion.intoResult_ok {c : Completion} {n : UInt32} (h : c.intoResult = .ok n) :
    (n.toNat : Int) = c.result.toInt := by
  unfold Completion.intoResult at h
  split at h
  · cases h
  · rename_i hneg
    cases h
    have hnonneg : 0 ≤ c.result := Int32.not_lt.mp hneg
    rw [Int32.toNat_toUInt32_of_le hnonneg]
    exact Int.toNat_of_nonneg (Int32.le_iff_toInt_le.mp hnonneg)

section Own

variable {v : View} {w : World} {tag : UInt64}

/-- If the last SQE written is the only one with the tag and no message carries the marker
bit, every completion with the tag is a completion of that SQE. -/
theorem RingAt.request_of_tag {xs : List Sqe} {own : Sqe} (h : RingAt v w)
    (hauth : w.Authentic) (hmsg : w.NoMarkedMessage) (hwr : v.written = xs ++ [own])
    (htag : 2 ^ 63 ≤ tag.toNat) (hold : ∀ sqe ∈ xs, sqe.userData ≠ tag) {i : Nat} {o : Origin}
    {cqe : Cqe} (hp : w.posted[i]? = some (o, cqe)) (hcqe : cqe.userData = tag) :
    o = .request xs.length := by
  have hmem := List.mem_of_getElem? hp
  -- A message with the tag would carry the marker bit.
  have hmark : (∀ k, o ≠ .request k) → False := by
    intro hno
    have hlt := (hmsg _ hmem hno).toNat_lt
    rw [show (o, cqe).2.userData = tag from hcqe] at hlt
    omega
  cases o with
  | foreign => exact (hmark (by simp)).elim
  | message k => exact (hmark (by simp)).elim
  | request k =>
      obtain ⟨sqe, hk, hu⟩ := hauth _ hmem
      obtain ⟨t, ht⟩ := h.sq.queue.got_prefix
      obtain ⟨hlt, -⟩ := List.getElem?_eq_some_iff.mp hk
      have hwk : (xs ++ [own])[k]? = some sqe := by
        rw [← hwr, ← h.written, ← ht, List.getElem?_append_left hlt]
        exact hk
      -- The request is not one of the older ones.
      rcases Nat.lt_trichotomy k xs.length with hlt | rfl | hgt
      · rw [List.getElem?_append_left hlt] at hwk
        exact absurd (hu.symm.trans hcqe) (hold sqe (List.mem_of_getElem? hwk))
      · rfl
      · rw [List.getElem?_eq_none (by simp; omega)] at hwk
        cases hwk

end Own

/-- A `run_one` returns `Ok(n)` only for the completion of its own SQE, the first and only
one it reaped; and if it reaped another one first it returns `UnexpectedCompletion` with
the `user_data` of the first. -/
theorem runOne_own_result (params : RingParams) (resources : RingResources)
    (sqStart cqStart : UInt32) (sqArray : Nat → UInt32) (sqes : Nat → Sqe) (cqes : Nat → Cqe)
    (as : List DoAction) (s : DoSys) (r r' : IoUring) (fuel : Nat) (sqe : Sqe)
    (rs : List KRound) (res : Except Error UInt32) (w' : World)
    (hr : (DoSys.init params resources sqStart cqStart sqArray sqes cqes).run as = some s)
    (hunmarked : ∀ a ∈ as, a.Unmarked) (hcalls : s.calls < 2 ^ 63)
    (hwhole : s.sys.handles = .whole r)
    (hrun : (r.runOne fuel sqe).run ringMachine rs s.sys.world = some ((some res, r'), w'))
    (hmsg : w'.NoMarkedMessage) :
    (∀ n, res = .ok n →
      w'.written = s.sys.world.written ++ [sqe.withUserData r.doTagNext] ∧
      ∃ cqe, w'.read = s.sys.world.read ++ [cqe] ∧
        w'.posted[s.sys.world.read.length]?
          = some (.request s.sys.world.written.length, cqe) ∧
        (n.toNat : Int) = cqe.res.toInt) ∧
    (∀ i cqe, s.sys.world.read.length < i → i < w'.read.length →
      w'.posted[i]? = some (.request s.sys.world.written.length, cqe) →
      ∃ o first, w'.posted[s.sys.world.read.length]? = some (o, first) ∧
        o ≠ .request s.sys.world.written.length ∧
        res = .error (.completion
          (.unexpectedCompletion r.doTagNext first.userData))) := by
  obtain ⟨v0, h0⟩ := DoSys.init_inv params resources sqStart cqStart sqArray sqes cqes
  obtain ⟨v, h⟩ := h0.run hunmarked hr
  have ht := h.sys.tracks
  rw [hwhole] at ht
  have hauth : w'.Authentic := Prog.run_keeps authentic_invariant h.authentic hrun
  obtain ⟨-, hcase⟩ := IoUring.runOne_answers h.sys.ring ht hrun
  rw [h.sys.ring.written, h.sys.ring.read]
  rcases hcase with ⟨hw, -, e, rfl⟩ | ⟨ds, p, q, x, hw, -, hans⟩
  · -- Refused: the kernel cannot have read an SQE that was not written.
    refine ⟨fun n hn => absurd hn (by simp), fun i cqe hi1 hi2 hp => ?_⟩
    obtain ⟨own, hk, -⟩ := hauth _ (List.mem_of_getElem? hp)
    obtain ⟨hlt, -⟩ := List.getElem?_eq_some_iff.mp hk
    have hle := hw.sq.queue.got_prefix.length_le
    rw [hw.written] at hle
    omega
  · have htag := h.tag r hwhole
    -- The tag is above every `user_data` written before.
    have hold : ∀ sqe' ∈ v.written, sqe'.userData ≠ r.doTagNext := by
      intro sqe' hmem heq
      rw [← h.sys.accepted] at hmem
      have hlt := h.below (by omega) sqe' hmem
      rw [heq, htag] at hlt
      omega
    have hown : ∀ {i : Nat} {o : Origin} {cqe : Cqe}, w'.posted[i]? = some (o, cqe) →
        cqe.userData = r.doTagNext → o = .request v.written.length :=
      fun hp hcqe => hw.request_of_tag hauth hmsg rfl (by omega) hold hp hcqe
    have htagged : ∀ {i : Nat} {cqe : Cqe},
        w'.posted[i]? = some (.request v.written.length, cqe) → cqe.userData = r.doTagNext :=
      fun hp => hw.userData_of_request hauth List.getElem?_concat_length hp
    rw [hw.written, hw.read]
    rcases hans with ⟨pre, last, rfl, hpre, hlast, hres⟩ | ⟨hall, e, rfl⟩
    · cases pre with
      | nil =>
          -- The first completion reaped has the tag.
          obtain ⟨o, hposted⟩ := hw.posted_of_read
            (show (v.read ++ [last])[v.read.length]? = some last by simp)
          have ho := hown hposted hlast
          subst ho
          refine ⟨fun n hn => ⟨rfl, last, by simp, hposted, ?_⟩, fun i cqe hi1 hi2 hp => ?_⟩
          · exact Completion.intoResult_ok (hres.symm.trans hn)
          · simp at hi2
            omega
      | cons first pre =>
          refine ⟨fun n hn => absurd (hres.symm.trans hn) (by simp), ?_⟩
          intro i cqe hi1 hi2 hp
          obtain ⟨o, hposted⟩ := hw.posted_of_read (show (v.read ++ (first :: pre ++
            [last]))[v.read.length]? = some first by simp)
          refine ⟨o, first, hposted, ?_, hres⟩
          rintro rfl
          exact hpre first List.mem_cons_self (htagged hposted)
    · refine ⟨fun n hn => absurd hn (by simp), fun i cqe hi1 hi2 hp => ?_⟩
      -- Nothing with the tag was reaped, so not the call's own completion.
      have hget := hw.drained_of_posted rfl (by omega) hi2 hp
      exact absurd (htagged hp) (hall cqe (List.mem_of_getElem? hget))

/-- The ring of `Sys.wrapping`, before its first `do_*` call. -/
def DoSys.wrapping : DoSys := ⟨Sys.wrapping, 0⟩

/-- A read that is interrupted and stays in flight. -/
def abandonedRead : List DoAction :=
  [.doCall 1 (Sqe.read ⟨5⟩ ⟨0x1000, 16⟩ 0) interruptedRead]

/-- The next call: the completion of the abandoned read comes first, then its own. -/
def readAfterAbandoned : List KRound :=
  [.quiet, .quiet, .quiet, .quiet, .quiet,
    .entered ⟨.ok 1, [.post (.request 0) ⟨IoUring.DO_TAG_MARKER, 16, 0⟩,
      .post (.request 1) ⟨IoUring.DO_TAG_MARKER + 1, 8, 0⟩]⟩,
    .quiet, .quiet, .quiet, .quiet, .quiet, .entered ⟨.ok 0, []⟩, .quiet, .quiet]

/-- What a call returned, and the histories that `runOne_own_result` speaks of. -/
structure DoOutcome where
  result : Option (Except Error UInt32)
  calls : Nat
  readBefore : Nat
  writtenBefore : Nat
  readAfter : Nat
  posted : List (Origin × Cqe)
deriving DecidableEq

/-- A call made in the state that `as` leads to. -/
def DoSys.afterwards (as : List DoAction) (sqe : Sqe) (rs : List KRound) : Option DoOutcome :=
  (DoSys.wrapping.run as).bind fun s =>
    match s.sys.handles with
    | .whole r => ((r.runOne 2 sqe).run ringMachine rs s.sys.world).map fun x =>
        { result := x.1.1
          calls := s.calls
          readBefore := s.sys.world.read.length
          writtenBefore := s.sys.world.written.length
          readAfter := x.2.read.length
          posted := x.2.posted }
    | _ => none

theorem DoSys.afterwards_eq_some {as : List DoAction} {sqe : Sqe} {rs : List KRound}
    {out : DoOutcome} (h : DoSys.afterwards as sqe rs = some out) :
    ∃ s r r' w', DoSys.wrapping.run as = some s ∧ s.sys.handles = .whole r ∧
      (r.runOne 2 sqe).run ringMachine rs s.sys.world = some ((out.result, r'), w') ∧
      s.calls = out.calls ∧ s.sys.world.read.length = out.readBefore ∧
      s.sys.world.written.length = out.writtenBefore ∧ w'.read.length = out.readAfter ∧
      w'.posted = out.posted := by
  obtain ⟨s, hs, h⟩ := Option.bind_eq_some_iff.mp h
  split at h
  · rename_i r hr
    obtain ⟨⟨⟨res', r'⟩, w'⟩, hrun, hx⟩ := Option.map_eq_some_iff.mp h
    cases hx
    exact ⟨s, r, r', w', hs, hr, hrun, rfl, rfl, rfl, rfl, rfl⟩
  · cases h

theorem runOne_after_abandoned :
    ∃ s r r' res w', DoSys.wrapping.run abandonedRead = some s ∧ s.sys.handles = .whole r ∧
      (r.runOne 2 (Sqe.read ⟨5⟩ ⟨0x2000, 8⟩ 0)).run ringMachine readAfterAbandoned
        s.sys.world = some ((some res, r'), w') ∧
      ∃ o first, w'.posted[0]? = some (o, first) ∧ o ≠ .request 1 ∧
        res = .error (.completion (.unexpectedCompletion r.doTagNext first.userData)) := by
  obtain ⟨s, r, r', w', hs, hwhole, hrun, hcalls, hread, hwritten, hread', hposted⟩ :=
    DoSys.afterwards_eq_some (show DoSys.afterwards abandonedRead
        (Sqe.read ⟨5⟩ ⟨0x2000, 8⟩ 0) readAfterAbandoned
      = some ⟨some (.error (.completion (.unexpectedCompletion
          (IoUring.DO_TAG_MARKER + 1) IoUring.DO_TAG_MARKER))), 1, 0, 1, 2,
          [(.request 0, ⟨IoUring.DO_TAG_MARKER, 16, 0⟩),
            (.request 1, ⟨IoUring.DO_TAG_MARKER + 1, 8, 0⟩)]⟩ by decide +kernel)
  simp only at hrun hcalls hread hwritten hread' hposted
  have hunmarked : ∀ a ∈ abandonedRead, a.Unmarked := by simp [abandonedRead, DoAction.Unmarked]
  have hmsg : w'.NoMarkedMessage := by
    intro p hp hno
    rw [hposted] at hp
    simp only [List.mem_cons, List.not_mem_nil, or_false] at hp
    rcases hp with rfl | rfl
    · exact absurd rfl (hno 0)
    · exact absurd rfl (hno 1)
  -- the CQE of the abandoned read comes first, and carries its tag and not the new one
  have hown := (runOne_own_result _ _ _ _ _ _ _ abandonedRead s r r' 2 _ readAfterAbandoned _ w'
    hs hunmarked (by omega) hwhole hrun hmsg).2 1 ⟨IoUring.DO_TAG_MARKER + 1, 8, 0⟩
    (by omega) (by omega) (by rw [hposted, hwritten]; rfl)
  rw [hread, hwritten] at hown
  exact ⟨s, r, r', _, w', hs, hwhole, hrun, hown⟩

/-- A `MSG_RING` request of the owner to its own ring. Its `user_data` is clear, the
`user_data` of the message is the first tag. -/
def ownMessage : List DoAction :=
  [.other (.call (.push (Sqe.msgRingWithFlags ⟨3⟩ 5 IoUring.DO_TAG_MARKER .empty))
    [.quiet, .quiet])]

/-- The kernel submits both requests and delivers the message. -/
def messageFirst : List KRound :=
  [.quiet, .quiet, .quiet, .quiet, .quiet,
    .entered ⟨.ok 2, [.post (.message 0) ⟨IoUring.DO_TAG_MARKER, 5, 0⟩]⟩, .quiet, .quiet]

/-- The read returns `Ok(5)` on the message, and has not completed. -/
theorem runOne_mistakes_message :
    (∀ a ∈ ownMessage, a.Unmarked) ∧
      ∃ s r r' w', DoSys.wrapping.run ownMessage = some s ∧ s.calls < 2 ^ 63 ∧
        s.sys.handles = .whole r ∧ s.sys.world.written.length = 1 ∧
        (r.runOne 2 (Sqe.read ⟨5⟩ ⟨0x1000, 16⟩ 0)).run ringMachine messageFirst s.sys.world
          = some ((some (.ok 5), r'), w') ∧
        ∀ cqe, (Origin.request 1, cqe) ∉ w'.posted := by
  obtain ⟨s, r, r', w', hs, hwhole, hrun, hcalls, -, hwritten, -, hposted⟩ :=
    DoSys.afterwards_eq_some (show DoSys.afterwards ownMessage
        (Sqe.read ⟨5⟩ ⟨0x1000, 16⟩ 0) messageFirst
      = some ⟨some (.ok 5), 0, 0, 1, 1, [(.message 0, ⟨IoUring.DO_TAG_MARKER, 5, 0⟩)]⟩
        by decide +kernel)
  simp only at hrun hcalls hwritten hposted
  refine ⟨?_, s, r, r', w', hs, by omega, hwhole, hwritten, hrun, ?_⟩
  · intro a ha
    rw [List.mem_singleton.mp ha]
    exact (by decide : Unmarked 0)
  · intro cqe hmem
    rw [hposted] at hmem
    simp at hmem

end Ququmatz
