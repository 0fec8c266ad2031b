import Ququmatz.Lib.Run
import Ququmatz.Proofs.Ring.Calls

/-!
# `Ququmatz.Proofs.Ring.System`: the invariant of a ring over whole runs

`Sys.Inv v s` ties the state of the system to a view: the world is at the view, every live
handle tracks it, what the calls returned is what the histories say, and the reference
count of the resources is the number of their owners. `Sys.Inv.call` is the step lemma for
a call of the owner, whatever the kernel does around its accesses, and `Sys.Inv.run` is
the run lemma. `Sys.init_inv` starts it at any pair of indices.
-/

set_option autoImplicit false

namespace Ququmatz

open Lib

/-- What no step changes in a view. -/
structure View.Fixed (v v' : View) : Prop where
  params : v'.params = v.params
  sqBase : v'.sqBase = v.sqBase
  cqBase : v'.cqBase = v.cqBase

theorem View.Fixed.trans {v1 v2 v3 : View} (h : v1.Fixed v2) (h' : v2.Fixed v3) :
    v1.Fixed v3 :=
  ⟨h'.params.trans h.params, h'.sqBase.trans h.sqBase, h'.cqBase.trans h.cqBase⟩

/-- Every live handle knows where the view is. -/
def Handles.Tracks (v : View) : Handles → Prop
  | .whole r => r.Tracks v
  | .halves s c => (∀ x, s = some x → x.Tracks v) ∧ ∀ x, c = some x → x.Tracks v
  | .gone => True

/-- The system is at the view `v`. -/
structure Sys.Inv (v : View) (s : Sys) : Prop where
  ring : RingAt v s.world
  tracks : s.handles.Tracks v
  accepted : s.accepted = v.written
  reaped : s.reaped = v.read.map Completion.ofCqe
  shares : v.resources.refcount = s.handles.live + s.pools

/-! ### How the handles follow a view -/

section Follow

variable {v : View} {s : Submitter} {c : Completer}

/-- A count that moved with the head still tracks. -/
theorem Submitter.Tracks.moved (h : s.Tracks v) (x : UInt32) (p q : Nat) :
    Submitter.Tracks { v with sqPub := p, cqPub := q, head := v.head + x }
      { s with sqSubmitted := s.sqSubmitted + x } :=
  ⟨h.mask, h.tail, fun hs => by rw [← h.submitted hs]⟩

theorem Submitter.Tracks.pushed (h : s.Tracks v) (sqe : Sqe) :
    Submitter.Tracks { v with written := v.written ++ [sqe] }
      { s with sqTailLocal := s.sqTailLocal + 1 } := by
  refine ⟨h.mask, ?_, h.submitted⟩
  show s.sqTailLocal + 1 = UInt32.ofNat (v.sqBase + (v.written ++ [sqe]).length)
  rw [h.tail, List.length_append, List.length_singleton, ← Nat.add_assoc, ofNat_succ]

/-- After `submit_sqpoll` only the tail is tracked. -/
theorem Submitter.Tracks.unsynced (h : s.Tracks v) (x y : UInt32) (p : Nat) :
    Submitter.Tracks { v with sqPub := p, head := y, synced := false }
      { s with sqSubmitted := x } :=
  ⟨h.mask, h.tail, fun hs => absurd hs (by simp)⟩

theorem Completer.Tracks.reaped (h : c.Tracks v) (cqe : Cqe) :
    Completer.Tracks { v with read := v.read ++ [cqe] }
      { c with cqHeadLocal := c.cqHeadLocal + 1 } := by
  refine ⟨h.mask, ?_⟩
  show c.cqHeadLocal + 1 = UInt32.ofNat (v.cqBase + (v.read ++ [cqe]).length)
  rw [h.head, List.length_append, List.length_singleton, ← Nat.add_assoc, ofNat_succ]

end Follow

/-! ### Runs of a call -/

namespace IoUring

variable {v : View} {r r' : IoUring} {w w' : World} {rs : List KRound}

/-- A push on the ring is the push of the half that `split` would take out of it. -/
theorem push_run {sqe : Sqe} {res : Except Error Unit} (h : RingAt v w) (ht : r.Tracks v)
    (hr : (r.push sqe).run ringMachine rs w = some ((res, r'), w')) :
    ∃ rd rs' w1, rs = rd :: rs' ∧ envSteps World.env rd.before w = some w1 ∧
      ((v.written.length = w1.consumed.length + v.params.sq.size ∧
          res = .error (.submit .queueFull) ∧ r' = r ∧ RingAt v w') ∨
        (v.written.length < w1.consumed.length + v.params.sq.size ∧ res = .ok () ∧
          RingAt { v with written := v.written ++ [sqe] } w' ∧
          r'.Tracks { v with written := v.written ++ [sqe] })) := by
  rw [push_eq] at hr
  obtain ⟨⟨b, s'⟩, hhalf, hx⟩ := Prog.run_map.mp hr
  cases hx
  obtain ⟨rd, rs', w1, rfl, hb, hcase⟩ := Submitter.push_run h ht.sq hhalf
  refine ⟨rd, rs', w1, rfl, hb, ?_⟩
  rcases hcase with ⟨hfull, rfl, rfl, hw⟩ | ⟨hroom, rfl, rfl, hw⟩
  · exact Or.inl ⟨hfull, rfl, rfl, hw⟩
  · exact Or.inr ⟨hroom, rfl, hw, ⟨ht.sq.pushed sqe, ht.cq.mask, ht.cq.head⟩⟩

/-- A reap on the ring is the reap of the half that `split` would take out of it. -/
theorem complete_run {res : Option Completion} (h : RingAt v w) (ht : r.Tracks v)
    (hr : r.complete.run ringMachine rs w = some ((res, r'), w')) :
    ∃ rd rs' w1, rs = rd :: rs' ∧ envSteps World.env rd.before w = some w1 ∧
      ((v.read.length = w1.posted.length ∧ res = none ∧ r' = r ∧ RingAt v w') ∨
        ∃ o cqe, w1.posted[v.read.length]? = some (o, cqe) ∧
          res = some (Completion.ofCqe cqe) ∧
          RingAt { v with read := v.read ++ [cqe] } w' ∧
          r'.Tracks { v with read := v.read ++ [cqe] }) := by
  rw [complete_eq] at hr
  obtain ⟨⟨b, c'⟩, hhalf, hx⟩ := Prog.run_map.mp hr
  cases hx
  obtain ⟨rd, rs', w1, rfl, hb, hcase⟩ := Completer.complete_run h ht.cq hhalf
  refine ⟨rd, rs', w1, rfl, hb, ?_⟩
  rcases hcase with ⟨hempty, rfl, rfl, -, hw⟩ | ⟨o, cqe, hget, rfl, rfl, hw⟩
  · exact Or.inl ⟨hempty, rfl, rfl, hw⟩
  · exact Or.inr ⟨o, cqe, hget, rfl, hw,
      ⟨ht.sq.mask, ht.sq.tail, ht.sq.submitted⟩, ht.cq.reaped cqe⟩

end IoUring

namespace Handles

variable {α : Type} {hs hs' : Handles} {p : RingProg (α × Handles)} {rs : List KRound}
  {w w' : World} {a : α}

/-- A call of the submission side runs on the ring or on the submission half. -/
theorem onSq_run {f : IoUring → RingProg (α × IoUring)}
    {g : Submitter → RingProg (α × Submitter)} (hp : hs.onSq f g = some p)
    (hr : p.run ringMachine rs w = some ((a, hs'), w')) :
    (∃ r r', hs = .whole r ∧ hs' = .whole r' ∧
        (f r).run ringMachine rs w = some ((a, r'), w')) ∨
      ∃ s s' c, hs = .halves (some s) c ∧ hs' = .halves (some s') c ∧
        (g s).run ringMachine rs w = some ((a, s'), w') := by
  cases hs with
  | whole r =>
      cases hp
      obtain ⟨⟨b, r'⟩, hrun, hx⟩ := Prog.run_map.mp hr
      cases hx
      exact Or.inl ⟨r, r', rfl, rfl, hrun⟩
  | halves s c =>
      cases s with
      | none => cases hp
      | some s =>
          cases hp
          obtain ⟨⟨b, s'⟩, hrun, hx⟩ := Prog.run_map.mp hr
          cases hx
          exact Or.inr ⟨s, s', c, rfl, rfl, hrun⟩
  -- No handle is left to make the call.
  | gone => cases hp

/-- A call of the completion side runs on the ring or on the completion half. -/
theorem onCq_run {f : IoUring → RingProg (α × IoUring)}
    {g : Completer → RingProg (α × Completer)} (hp : hs.onCq f g = some p)
    (hr : p.run ringMachine rs w = some ((a, hs'), w')) :
    (∃ r r', hs = .whole r ∧ hs' = .whole r' ∧
        (f r).run ringMachine rs w = some ((a, r'), w')) ∨
      ∃ s c c', hs = .halves s (some c) ∧ hs' = .halves s (some c') ∧
        (g c).run ringMachine rs w = some ((a, c'), w') := by
  cases hs with
  | whole r =>
      cases hp
      obtain ⟨⟨b, r'⟩, hrun, hx⟩ := Prog.run_map.mp hr
      cases hx
      exact Or.inl ⟨r, r', rfl, rfl, hrun⟩
  | halves s c =>
      cases c with
      -- The completion half is gone, and with it the call.
      | none => cases s <;> cases hp
      | some c =>
          cases s with
          | none =>
              cases hp
              obtain ⟨⟨b, c'⟩, hrun, hx⟩ := Prog.run_map.mp hr
              cases hx
              exact Or.inr ⟨none, c, c', rfl, rfl, hrun⟩
          | some s =>
              cases hp
              obtain ⟨⟨b, c'⟩, hrun, hx⟩ := Prog.run_map.mp hr
              cases hx
              exact Or.inr ⟨some s, c, c', rfl, rfl, hrun⟩
  | gone => cases hp

/-- A push on whichever handle has it. -/
theorem push_run {v : View} {sqe : Sqe} {p : RingProg (Except Error Unit × Handles)}
    {res : Except Error Unit} (h : RingAt v w) (ht : hs.Tracks v)
    (hp : hs.push sqe = some p) (hr : p.run ringMachine rs w = some ((res, hs'), w')) :
    ∃ r rs' w1, rs = r :: rs' ∧ envSteps World.env r.before w = some w1 ∧
      hs'.live = hs.live ∧
      ((v.written.length = w1.consumed.length + v.params.sq.size ∧
          res = .error (.submit .queueFull) ∧ hs' = hs ∧ RingAt v w') ∨
        (v.written.length < w1.consumed.length + v.params.sq.size ∧ res = .ok () ∧
          RingAt { v with written := v.written ++ [sqe] } w' ∧
          hs'.Tracks { v with written := v.written ++ [sqe] })) := by
  rcases onSq_run hp hr with ⟨r, r', rfl, rfl, hrun⟩ | ⟨s, s', c, rfl, rfl, hrun⟩
  · obtain ⟨rd, rs', w1, rfl, hb, hcase⟩ := IoUring.push_run h ht hrun
    refine ⟨rd, rs', w1, rfl, hb, rfl, ?_⟩
    rcases hcase with ⟨hfull, rfl, rfl, hw⟩ | ⟨hroom, rfl, hw, ht'⟩
    · exact Or.inl ⟨hfull, rfl, rfl, hw⟩
    · exact Or.inr ⟨hroom, rfl, hw, ht'⟩
  · obtain ⟨rd, rs', w1, rfl, hb, hcase⟩ := Submitter.push_run h (ht.1 s rfl) hrun
    refine ⟨rd, rs', w1, rfl, hb, rfl, ?_⟩
    rcases hcase with ⟨hfull, rfl, rfl, hw⟩ | ⟨hroom, rfl, rfl, hw⟩
    · exact Or.inl ⟨hfull, rfl, rfl, hw⟩
    · refine Or.inr ⟨hroom, rfl, hw, ?_, ?_⟩
      · intro x hx
        cases hx
        exact (ht.1 s rfl).pushed sqe
      · intro x hx
        exact ⟨(ht.2 x hx).mask, (ht.2 x hx).head⟩

/-- A reap on whichever handle has it. -/
theorem complete_run {v : View} {p : RingProg (Option Completion × Handles)}
    {res : Option Completion} (h : RingAt v w) (ht : hs.Tracks v)
    (hp : hs.complete = some p) (hr : p.run ringMachine rs w = some ((res, hs'), w')) :
    ∃ r rs' w1, rs = r :: rs' ∧ envSteps World.env r.before w = some w1 ∧
      hs'.live = hs.live ∧
      ((v.read.length = w1.posted.length ∧ res = none ∧ hs' = hs ∧ RingAt v w') ∨
        ∃ o cqe, w1.posted[v.read.length]? = some (o, cqe) ∧
          res = some (Completion.ofCqe cqe) ∧
          RingAt { v with read := v.read ++ [cqe] } w' ∧
          hs'.Tracks { v with read := v.read ++ [cqe] }) := by
  rcases onCq_run hp hr with ⟨r, r', rfl, rfl, hrun⟩ | ⟨s, c, c', rfl, rfl, hrun⟩
  · obtain ⟨rd, rs', w1, rfl, hb, hcase⟩ := IoUring.complete_run h ht hrun
    refine ⟨rd, rs', w1, rfl, hb, rfl, ?_⟩
    rcases hcase with ⟨hempty, rfl, rfl, hw⟩ | ⟨o, cqe, hget, rfl, hw, ht'⟩
    · exact Or.inl ⟨hempty, rfl, rfl, hw⟩
    · exact Or.inr ⟨o, cqe, hget, rfl, hw, ht'⟩
  · obtain ⟨rd, rs', w1, rfl, hb, hcase⟩ := Completer.complete_run h (ht.2 c rfl) hrun
    refine ⟨rd, rs', w1, rfl, hb, rfl, ?_⟩
    rcases hcase with ⟨hempty, rfl, rfl, -, hw⟩ | ⟨o, cqe, hget, rfl, rfl, hw⟩
    · exact Or.inl ⟨hempty, rfl, rfl, hw⟩
    · refine Or.inr ⟨o, cqe, hget, rfl, hw, ?_, ?_⟩
      · intro x hx
        exact ⟨(ht.1 x hx).mask, (ht.1 x hx).tail, (ht.1 x hx).submitted⟩
      · intro x hx
        cases hx
        exact (ht.2 c rfl).reaped cqe

/-- The calls that publish the tail and perhaps submit. The local count follows the head
whichever handle makes the call. -/
theorem submitting_run {v : View} {f : IoUring → RingProg (α × IoUring)}
    {g : Submitter → RingProg (α × Submitter)}
    (hf : ∀ r, r.Tracks v → Spec ringMachine (RingAt v) (f r) fun x w => ∃ c p q,
      x.2 = { r with sqSubmitted := r.sqSubmitted + c } ∧
      RingAt { v with sqPub := p, cqPub := q, head := v.head + c } w)
    (hg : ∀ s, s.Tracks v → Spec ringMachine (RingAt v) (g s) fun x w => ∃ c p q,
      x.2 = { s with sqSubmitted := s.sqSubmitted + c } ∧
      RingAt { v with sqPub := p, cqPub := q, head := v.head + c } w)
    (h : RingAt v w) (ht : hs.Tracks v) (hp : hs.onSq f g = some p)
    (hr : p.run ringMachine rs w = some ((a, hs'), w')) :
    ∃ x p q, RingAt { v with sqPub := p, cqPub := q, head := v.head + x } w' ∧
      hs'.Tracks { v with sqPub := p, cqPub := q, head := v.head + x } ∧
      hs'.live = hs.live := by
  rcases onSq_run hp hr with ⟨r, r', rfl, rfl, hrun⟩ | ⟨s, s', c, rfl, rfl, hrun⟩
  · obtain ⟨x, p, q, hr', hw⟩ := hf r ht rs w _ w' h hrun
    cases hr'
    exact ⟨x, p, q, hw, ⟨ht.sq.moved x p q, ht.cq.mask, ht.cq.head⟩, rfl⟩
  · obtain ⟨x, p, q, hs', hw⟩ := hg s (ht.1 s rfl) rs w _ w' h hrun
    cases hs'
    refine ⟨x, p, q, hw, ⟨?_, ?_⟩, rfl⟩
    · intro y hy
      cases hy
      exact (ht.1 s rfl).moved x p q
    · -- The completion half does not see the submission counters.
      intro y hy
      exact ⟨(ht.2 y hy).mask, (ht.2 y hy).head⟩

/-- `submit_sqpoll`: the tail is published and nothing is known of the count. -/
theorem submitSqpoll_run {v : View} {p : RingProg (Except Error Unit × Handles)}
    {res : Except Error Unit} (h : RingAt v w) (ht : hs.Tracks v)
    (hp : hs.submitSqpoll = some p)
    (hr : p.run ringMachine rs w = some ((res, hs'), w')) :
    ∃ y, RingAt { v with sqPub := v.written.length, head := y, synced := false } w' ∧
      hs'.Tracks { v with sqPub := v.written.length, head := y, synced := false } ∧
      hs'.live = hs.live := by
  rcases onSq_run hp hr with ⟨r, r', rfl, rfl, hrun⟩ | ⟨s, s', c, rfl, rfl, hrun⟩
  · -- The ring runs the program of its submission half.
    rw [IoUring.submitSqpoll_eq] at hrun
    obtain ⟨⟨b, s'⟩, hhalf, hx⟩ := Prog.run_map.mp hrun
    cases hx
    obtain ⟨y, hs', hw⟩ := Submitter.submitSqpoll_spec ht.sq rs w _ w' h hhalf
    cases hs'
    exact ⟨y, { hw with }, ⟨ht.sq.unsynced _ y _, ht.cq.mask, ht.cq.head⟩, rfl⟩
  · obtain ⟨y, hs', hw⟩ := Submitter.submitSqpoll_spec (ht.1 s rfl) rs w _ w' h hrun
    cases hs'
    refine ⟨y, { hw with }, ⟨?_, ?_⟩, rfl⟩
    · intro x hx
      cases hx
      exact (ht.1 s rfl).unsynced _ y _
    · intro x hx
      exact ⟨(ht.2 x hx).mask, (ht.2 x hx).head⟩

/-- `sync_cq` publishes everything that was reaped. -/
theorem syncCq_run {v : View} {p : RingProg (Unit × Handles)} {u : Unit} (h : RingAt v w)
    (ht : hs.Tracks v) (hp : hs.syncCq = some p)
    (hr : p.run ringMachine rs w = some ((u, hs'), w')) :
    RingAt { v with cqPub := v.read.length } w' ∧ hs' = hs := by
  rcases onCq_run hp hr with ⟨r, r', rfl, rfl, hrun⟩ | ⟨s, c, c', rfl, rfl, hrun⟩
  · obtain ⟨_, hsync, hx⟩ := Prog.run_map.mp hrun
    cases hx
    exact ⟨Completer.syncCq_spec ht.cq rs w _ w' h hsync, rfl⟩
  · obtain ⟨_, hsync, hx⟩ := Prog.run_map.mp hrun
    cases hx
    exact ⟨Completer.syncCq_spec (ht.2 c rfl) rs w _ w' h hsync, rfl⟩

theorem wait_run {v : View} {minComplete : UInt32}
    {p : RingProg (Except Error Unit × Handles)} {res : Except Error Unit} (h : RingAt v w)
    (ht : hs.Tracks v) (hp : hs.wait minComplete = some p)
    (hr : p.run ringMachine rs w = some ((res, hs'), w')) :
    RingAt { v with cqPub := v.read.length } w' ∧ hs' = hs := by
  cases hs with
  | whole r => cases hp
  | gone => cases hp
  | halves s c =>
      cases c with
      | none => cases s <;> cases hp
      | some c =>
          cases hp
          obtain ⟨res', hrun, hx⟩ := Prog.run_map.mp hr
          cases hx
          exact ⟨Completer.wait_spec (ht.2 c rfl) minComplete rs w _ w' h hrun, rfl⟩

/-- The handles know nothing of the published head or of the shares. -/
theorem Tracks.change {v : View} (ht : hs.Tracks v) (q : Nat) (res : RingResources) :
    hs.Tracks { v with cqPub := q, resources := res } := by
  cases hs with
  | whole r =>
      exact ⟨⟨ht.sq.mask, ht.sq.tail, ht.sq.submitted⟩, ht.cq.mask, ht.cq.head⟩
  | halves s c =>
      exact ⟨fun x hx => ⟨(ht.1 x hx).mask, (ht.1 x hx).tail, (ht.1 x hx).submitted⟩,
        fun x hx => ⟨(ht.2 x hx).mask, (ht.2 x hx).head⟩⟩
  | gone => trivial

end Handles

/-! ### Shares of the resources -/

theorem retain_spec (v : View) :
    Spec ringMachine (RingAt v) (perform .retain) fun _ w =>
      RingAt { v with resources := v.resources.retain } w := by
  show Spec ringMachine (RingAt v) (perform .retain >>= Prog.ret) _
  refine Spec.at (R := fun _ => RingAt { v with resources := v.resources.retain }) ?_
    (fun _ => Spec.ret fun w h => h)
  intro r w u w' h ha
  obtain ⟨-, -, rfl⟩ := World.access_retain.mp ha
  rw [h.resources]
  exact h.setResources _ _

theorem release_spec (v : View) :
    Spec ringMachine (RingAt v) (perform .release) fun _ w =>
      RingAt { v with resources := v.resources.released } w := by
  show Spec ringMachine (RingAt v) (perform .release >>= Prog.ret) _
  refine Spec.at (R := fun _ => RingAt { v with resources := v.resources.released }) ?_
    (fun _ => Spec.ret fun w h => h)
  intro r w u w' h ha
  obtain ⟨-, -, rfl⟩ := World.access_release.mp ha
  rw [h.resources]
  exact h.setResources _ _

namespace Handles

variable {hs hs' : Handles} {p : RingProg (Unit × Handles)} {rs : List KRound}
  {w w' : World} {v : View} {u : Unit}

/-- Dropping the ring publishes the reaped head and gives up one share. -/
theorem dropRing_run (h : RingAt v w) (ht : hs.Tracks v) (hp : hs.dropRing = some p)
    (hr : p.run ringMachine rs w = some ((u, hs'), w')) :
    RingAt { v with cqPub := v.read.length, resources := v.resources.released } w' ∧
      hs.live = 1 ∧ hs' = .gone := by
  cases hs with
  | whole r =>
      cases hp
      obtain ⟨_, hrun, hx⟩ := Prog.run_map.mp hr
      cases hx
      obtain ⟨rs1, rs2, _, w1, rfl, h1, h2⟩ := Prog.run_bind.mp hrun
      -- The head is published before the share is given up.
      have hsync := Completer.syncCq_spec ht.cq rs1 w _ w1 h h1
      exact ⟨release_spec _ rs2 w1 _ w' hsync h2, rfl, rfl⟩
  | halves s c => cases s <;> cases hp
  | gone => cases hp

theorem dropSubmitter_run (h : RingAt v w) (hp : hs.dropSubmitter = some p)
    (hr : p.run ringMachine rs w = some ((u, hs'), w')) :
    RingAt { v with resources := v.resources.released } w' ∧
      ∃ s c, hs = .halves (some s) c ∧ hs' = .halves none c := by
  cases hs with
  | whole r => cases hp
  | halves s c =>
      cases s with
      | none => cases hp
      | some s =>
          cases hp
          obtain ⟨_, hrun, hx⟩ := Prog.run_map.mp hr
          cases hx
          exact ⟨release_spec v rs w _ w' h hrun, s, c, rfl, rfl⟩
  | gone => cases hp

/-- Dropping the completion half publishes the reaped head and gives up one share. -/
theorem dropCompleter_run (h : RingAt v w) (ht : hs.Tracks v) (hp : hs.dropCompleter = some p)
    (hr : p.run ringMachine rs w = some ((u, hs'), w')) :
    RingAt { v with cqPub := v.read.length, resources := v.resources.released } w' ∧
      ∃ s c, hs = .halves s (some c) ∧ hs' = .halves s none := by
  cases hs with
  | whole r => cases hp
  | halves s c =>
      cases c with
      | none => cases s <;> cases hp
      | some c =>
          cases hp
          obtain ⟨_, hrun, hx⟩ := Prog.run_map.mp hr
          cases hx
          obtain ⟨rs1, rs2, _, w1, rfl, h1, h2⟩ := Prog.run_bind.mp hrun
          have hsync := Completer.syncCq_spec (ht.2 c rfl) rs1 w _ w1 h h1
          exact ⟨release_spec _ rs2 w1 _ w' hsync h2, s, c, rfl, rfl⟩
  | gone => cases hp

/-- `split`: refused before any access, or the two halves take over the ring's counters
and one more share. -/
theorem split_run {p : RingProg (Except Error Unit × Handles)} {res : Except Error Unit}
    (h : RingAt v w) (hp : hs.split = some p)
    (hr : p.run ringMachine rs w = some ((res, hs'), w')) :
    ∃ r, hs = .whole r ∧
      ((IoUring.setupFlagsForbidSplit r.setupFlags = true ∧ rs = [] ∧ hs' = hs ∧ w' = w ∧
          res = .error (.setup (.invalidArg (.incompatibleSplit r.setupFlags)))) ∨
        (IoUring.setupFlagsForbidSplit r.setupFlags = false ∧ res = .ok () ∧
          hs' = .halves (some r.submitter) (some r.completer) ∧
          RingAt { v with resources := v.resources.retain } w')) := by
  cases hs with
  | whole r =>
      cases hp
      refine ⟨r, rfl, ?_⟩
      obtain ⟨rs1, rs2, x, w1, rfl, h1, h2⟩ := Prog.run_bind.mp hr
      unfold IoUring.split at h1
      -- The flags decide before anything is touched.
      by_cases hf : IoUring.setupFlagsForbidSplit r.setupFlags = true
      · rw [if_pos hf] at h1
        obtain ⟨rfl, rfl, rfl⟩ := Prog.run_ret.mp h1
        obtain ⟨rfl, hx, rfl⟩ := Prog.run_ret.mp h2
        cases hx
        exact Or.inl ⟨hf, rfl, rfl, rfl, rfl⟩
      · rw [if_neg hf] at h1
        -- The one access of a split is the retain.
        obtain ⟨rs3, rs4, _, w2, rfl, h3, h4⟩ := Prog.run_bind.mp h1
        obtain ⟨rfl, rfl, rfl⟩ := Prog.run_ret.mp h4
        obtain ⟨rfl, hx, rfl⟩ := Prog.run_ret.mp h2
        cases hx
        exact Or.inr ⟨Bool.eq_false_iff.mpr hf, rfl, rfl, retain_spec v _ w _ _ h h3⟩
  | halves s c => cases hp
  | gone => cases hp

end Handles

/-! ### Steps and runs of the system -/

namespace Sys

variable {v : View} {s s' : Sys}

/-- A call that ran: its program, its result and the new world and handles. -/
theorem exec_eq_some {α : Type} {p : Option (RingProg (α × Handles))} {rs : List KRound}
    {record : α → Sys → Sys} (h : s.exec p rs record = some s') :
    ∃ prog a hs' w', p = some prog ∧
      prog.run ringMachine rs s.world = some ((a, hs'), w') ∧
      s' = record a { s with world := w', handles := hs' } := by
  obtain ⟨prog, hp, h⟩ := Option.bind_eq_some_iff.mp h
  obtain ⟨⟨⟨a, hs'⟩, w'⟩, hrun, rfl⟩ := Option.map_eq_some_iff.mp h
  exact ⟨prog, a, hs', w', hp, hrun, rfl⟩

/-- Where a step leaves the system. -/
structure Follows (v : View) (s' : Sys) (v' : View) : Prop where
  fixed : v.Fixed v'
  inv : s'.Inv v'

theorem Inv.push (h : s.Inv v) {sqe : Sqe} {rs : List KRound}
    (hc : s.call (.push sqe) rs = some s') :
    ∃ v', Follows v s' v' ∧ v'.synced = v.synced := by
  obtain ⟨p, res, hs', w', hp, hr, rfl⟩ := exec_eq_some hc
  obtain ⟨r, rs', w1, -, -, hlive, hcase⟩ := Handles.push_run h.ring h.tracks hp hr
  -- A refused push records nothing; an accepted one records the SQE it wrote.
  rcases hcase with ⟨-, rfl, rfl, hw⟩ | ⟨-, rfl, hw, ht⟩
  · exact ⟨v, ⟨⟨rfl, rfl, rfl⟩, hw, h.tracks, h.accepted, h.reaped, h.shares⟩, rfl⟩
  · refine ⟨{ v with written := v.written ++ [sqe] },
      ⟨⟨rfl, rfl, rfl⟩, hw, ht, ?_, h.reaped, ?_⟩, rfl⟩
    · show s.accepted ++ [sqe] = v.written ++ [sqe]
      rw [h.accepted]
    · show v.resources.refcount = hs'.live + s.pools
      rw [hlive]
      exact h.shares

theorem Inv.complete (h : s.Inv v) {rs : List KRound} (hc : s.call .complete rs = some s') :
    ∃ v', Follows v s' v' ∧ v'.synced = v.synced := by
  obtain ⟨p, res, hs', w', hp, hr, rfl⟩ := exec_eq_some hc
  obtain ⟨r, rs', w1, -, -, hlive, hcase⟩ := Handles.complete_run h.ring h.tracks hp hr
  -- An empty queue records nothing; otherwise the next posted CQE is recorded.
  rcases hcase with ⟨-, rfl, rfl, hw⟩ | ⟨o, cqe, -, rfl, hw, ht⟩
  · exact ⟨v, ⟨⟨rfl, rfl, rfl⟩, hw, h.tracks, h.accepted, h.reaped, h.shares⟩, rfl⟩
  · refine ⟨{ v with read := v.read ++ [cqe] },
      ⟨⟨rfl, rfl, rfl⟩, hw, ht, h.accepted, ?_, ?_⟩, rfl⟩
    · show s.reaped ++ [Completion.ofCqe cqe] = (v.read ++ [cqe]).map Completion.ofCqe
      rw [h.reaped, List.map_append]
      rfl
    · show v.resources.refcount = hs'.live + s.pools
      rw [hlive]
      exact h.shares

/-- The calls that only publish and submit. -/
theorem Inv.submitting {α : Type} (h : s.Inv v) {rs : List KRound}
    {f : IoUring → RingProg (α × IoUring)} {g : Submitter → RingProg (α × Submitter)}
    (hf : ∀ r, r.Tracks v → Spec ringMachine (RingAt v) (f r) fun x w => ∃ c p q,
      x.2 = { r with sqSubmitted := r.sqSubmitted + c } ∧
      RingAt { v with sqPub := p, cqPub := q, head := v.head + c } w)
    (hg : ∀ s, s.Tracks v → Spec ringMachine (RingAt v) (g s) fun x w => ∃ c p q,
      x.2 = { s with sqSubmitted := s.sqSubmitted + c } ∧
      RingAt { v with sqPub := p, cqPub := q, head := v.head + c } w)
    (hc : s.exec (s.handles.onSq f g) rs recordNothing = some s') :
    ∃ v', Follows v s' v' ∧ v'.synced = v.synced := by
  obtain ⟨p, res, hs', w', hp, hr, rfl⟩ := exec_eq_some hc
  obtain ⟨x, p', q, hw, ht, hlive⟩ := Handles.submitting_run hf hg h.ring h.tracks hp hr
  refine ⟨{ v with sqPub := p', cqPub := q, head := v.head + x },
    ⟨⟨rfl, rfl, rfl⟩, hw, ht, h.accepted, h.reaped, ?_⟩, rfl⟩
  show v.resources.refcount = hs'.live + s.pools
  rw [hlive]
  exact h.shares

theorem Inv.flushSqTail (h : s.Inv v) {rs : List KRound}
    (hc : s.call .flushSqTail rs = some s') :
    ∃ v', Follows v s' v' ∧ v'.synced = v.synced := by
  refine h.submitting ?_ ?_ hc
  · intro r ht
    refine Spec.storeSqTail ht.sq.tail (Spec.ret fun w hw =>
      ⟨0, v.written.length, v.cqPub, ?_, ?_⟩)
    · rw [UInt32.add_zero]
    · rw [UInt32.add_zero]
      exact hw
  · intro sub ht
    refine Spec.storeSqTail ht.tail (Spec.ret fun w hw =>
      ⟨0, v.written.length, v.cqPub, ?_, ?_⟩)
    · rw [UInt32.add_zero]
    · rw [UInt32.add_zero]
      exact hw

theorem Inv.submit (h : s.Inv v) {rs : List KRound} (hc : s.call .submit rs = some s') :
    ∃ v', Follows v s' v' ∧ v'.synced = v.synced := by
  refine h.submitting ?_ ?_ hc
  · intro r ht
    refine Spec.conseq (IoUring.submit_spec ht) (fun _ hw => hw) ?_
    rintro x w ⟨c, q, hx, hw, -⟩
    exact ⟨c, _, q, hx, hw⟩
  · intro sub ht
    refine Spec.conseq (Submitter.submit_spec ht) (fun _ hw => hw) ?_
    rintro x w ⟨c, hx, hw, -⟩
    exact ⟨c, _, _, hx, hw⟩

theorem Inv.submitAndWait (h : s.Inv v) {n : UInt32} {rs : List KRound}
    (hc : s.call (.submitAndWait n) rs = some s') :
    ∃ v', Follows v s' v' ∧ v'.synced = v.synced := by
  refine h.submitting ?_ ?_ hc
  · intro r ht
    refine Spec.conseq (IoUring.submitAndWait_spec ht n) (fun _ hw => hw) ?_
    rintro x w ⟨c, hx, hw, -⟩
    exact ⟨c, _, _, hx, hw⟩
  · intro sub ht
    refine Spec.conseq (Submitter.submitAndWait_spec ht n) (fun _ hw => hw) ?_
    rintro x w ⟨c, hx, hw, -⟩
    exact ⟨c, _, _, hx, hw⟩

theorem Inv.submitSqpoll (h : s.Inv v) {rs : List KRound}
    (hc : s.call .submitSqpoll rs = some s') : ∃ v', Follows v s' v' := by
  obtain ⟨p, res, hs', w', hp, hr, rfl⟩ := exec_eq_some hc
  obtain ⟨y, hw, ht, hlive⟩ := Handles.submitSqpoll_run h.ring h.tracks hp hr
  refine ⟨{ v with sqPub := v.written.length, head := y, synced := false },
    ⟨rfl, rfl, rfl⟩, hw, ht, h.accepted, h.reaped, ?_⟩
  show v.resources.refcount = hs'.live + s.pools
  rw [hlive]
  exact h.shares

/-- `sync_cq` and `wait`: the reaped head is published. -/
theorem Inv.syncCq (h : s.Inv v) {rs : List KRound} (hc : s.call .syncCq rs = some s') :
    Follows v s' { v with cqPub := v.read.length } := by
  obtain ⟨p, res, hs', w', hp, hr, rfl⟩ := exec_eq_some hc
  obtain ⟨hw, rfl⟩ := Handles.syncCq_run h.ring h.tracks hp hr
  exact ⟨⟨rfl, rfl, rfl⟩, hw, h.tracks.change _ _, h.accepted, h.reaped, h.shares⟩

theorem Inv.wait (h : s.Inv v) {n : UInt32} {rs : List KRound}
    (hc : s.call (.wait n) rs = some s') :
    Follows v s' { v with cqPub := v.read.length } := by
  obtain ⟨p, res, hs', w', hp, hr, rfl⟩ := exec_eq_some hc
  obtain ⟨hw, rfl⟩ := Handles.wait_run h.ring h.tracks hp hr
  exact ⟨⟨rfl, rfl, rfl⟩, hw, h.tracks.change _ _, h.accepted, h.reaped, h.shares⟩

theorem Inv.nextDoTag (h : s.Inv v) {rs : List KRound}
    (hc : s.call .nextDoTag rs = some s') : Follows v s' v := by
  obtain ⟨p, res, hs', w', hp, hr, rfl⟩ := exec_eq_some hc
  have htr := h.tracks
  have hsh := h.shares
  cases hhs : s.handles with
  | whole r =>
      rw [hhs] at hp htr hsh
      cases hp
      obtain ⟨-, hx, rfl⟩ := Prog.run_ret.mp hr
      cases hx
      exact ⟨⟨rfl, rfl, rfl⟩, h.ring,
        ⟨⟨htr.sq.mask, htr.sq.tail, htr.sq.submitted⟩, htr.cq.mask, htr.cq.head⟩,
        h.accepted, h.reaped, hsh⟩
  | halves a b =>
      rw [hhs] at hp
      cases hp
  | gone =>
      rw [hhs] at hp
      cases hp

/-- A ring that `split` refuses is not touched; otherwise the halves take over. -/
theorem Inv.split (h : s.Inv v) {rs : List KRound} (hc : s.call .split rs = some s') :
    ∃ r, s.handles = .whole r ∧
      ((IoUring.setupFlagsForbidSplit r.setupFlags = true ∧ s' = s) ∨
        (IoUring.setupFlagsForbidSplit r.setupFlags = false ∧
          s'.handles = .halves (some r.submitter) (some r.completer) ∧
          s'.accepted = s.accepted ∧ s'.reaped = s.reaped ∧
          Follows v s' { v with resources := v.resources.retain })) := by
  obtain ⟨p, res, hs', w', hp, hr, rfl⟩ := exec_eq_some hc
  obtain ⟨r, hwhole, hcase⟩ := Handles.split_run h.ring hp hr
  refine ⟨r, hwhole, ?_⟩
  rcases hcase with ⟨hf, -, rfl, rfl, -⟩ | ⟨hf, -, rfl, hw⟩
  · exact Or.inl ⟨hf, rfl⟩
  · have ht := h.tracks
    have hshares := h.shares
    rw [hwhole] at ht hshares
    -- each half takes over its counters, and the one share becomes two
    refine Or.inr ⟨hf, rfl, rfl, rfl, ⟨rfl, rfl, rfl⟩, hw, ⟨?_, ?_⟩, h.accepted, h.reaped, ?_⟩
    · intro x hx
      cases hx
      exact ⟨ht.sq.mask, ht.sq.tail, ht.sq.submitted⟩
    · intro x hx
      cases hx
      exact ⟨ht.cq.mask, ht.cq.head⟩
    · show v.resources.refcount + 1 = 1 + 1 + s.pools
      rw [hshares]
      show 1 + s.pools + 1 = 1 + 1 + s.pools
      omega

theorem Inv.dropRing (h : s.Inv v) {rs : List KRound} (hc : s.call .dropRing rs = some s') :
    Follows v s'
      { v with cqPub := v.read.length, resources := v.resources.released } := by
  obtain ⟨p, res, hs', w', hp, hr, rfl⟩ := exec_eq_some hc
  obtain ⟨hw, hlive, rfl⟩ := Handles.dropRing_run h.ring h.tracks hp hr
  refine ⟨⟨rfl, rfl, rfl⟩, hw, trivial, h.accepted, h.reaped, ?_⟩
  show v.resources.refcount - 1 = 0 + s.pools
  rw [h.shares, hlive]
  omega

theorem Inv.dropSubmitter (h : s.Inv v) {rs : List KRound}
    (hc : s.call .dropSubmitter rs = some s') :
    Follows v s' { v with resources := v.resources.released } := by
  obtain ⟨p, res, hs', w', hp, hr, rfl⟩ := exec_eq_some hc
  obtain ⟨hw, sub, c, hhs, rfl⟩ := Handles.dropSubmitter_run h.ring hp hr
  have ht := h.tracks
  have hshares := h.shares
  rw [hhs] at ht hshares
  refine ⟨⟨rfl, rfl, rfl⟩, hw, ⟨?_, ?_⟩, h.accepted, h.reaped, ?_⟩
  · intro x hx
    cases hx
  · intro x hx
    exact ⟨(ht.2 x hx).mask, (ht.2 x hx).head⟩
  · show v.resources.refcount - 1 = 0 + c.toList.length + s.pools
    rw [hshares]
    show 1 + c.toList.length + s.pools - 1 = 0 + c.toList.length + s.pools
    omega

theorem Inv.dropCompleter (h : s.Inv v) {rs : List KRound}
    (hc : s.call .dropCompleter rs = some s') :
    Follows v s'
      { v with cqPub := v.read.length, resources := v.resources.released } := by
  obtain ⟨p, res, hs', w', hp, hr, rfl⟩ := exec_eq_some hc
  obtain ⟨hw, sub, c, hhs, rfl⟩ := Handles.dropCompleter_run h.ring h.tracks hp hr
  have ht := h.tracks
  have hshares := h.shares
  rw [hhs] at ht hshares
  refine ⟨⟨rfl, rfl, rfl⟩, hw, ⟨?_, ?_⟩, h.accepted, h.reaped, ?_⟩
  · intro x hx
    exact ⟨(ht.1 x hx).mask, (ht.1 x hx).tail, (ht.1 x hx).submitted⟩
  · intro x hx
    cases hx
  · show v.resources.refcount - 1 = sub.toList.length + 0 + s.pools
    rw [hshares]
    show sub.toList.length + 1 + s.pools - 1 = sub.toList.length + 0 + s.pools
    omega

theorem Inv.registerPool (h : s.Inv v) {rs : List KRound}
    (hc : s.call .registerPool rs = some s') :
    Follows v s' { v with resources := v.resources.retain } := by
  simp only [call] at hc
  split at hc
  · obtain ⟨p, res, hs', w', hp, hr, rfl⟩ := exec_eq_some hc
    cases hp
    obtain ⟨_, hrun, hx⟩ := Prog.run_map.mp hr
    cases hx
    refine ⟨⟨rfl, rfl, rfl⟩, retain_spec v rs _ _ w' h.ring hrun, h.tracks.change _ _,
      h.accepted, h.reaped, ?_⟩
    show v.resources.refcount + 1 = s.handles.live + (s.pools + 1)
    rw [h.shares]
    omega
  · exact absurd hc (by simp)

theorem Inv.dropPool (h : s.Inv v) {rs : List KRound} (hc : s.call .dropPool rs = some s') :
    Follows v s' { v with resources := v.resources.released } := by
  simp only [call] at hc
  split at hc
  · rename_i hpools
    obtain ⟨p, res, hs', w', hp, hr, rfl⟩ := exec_eq_some hc
    cases hp
    obtain ⟨_, hrun, hx⟩ := Prog.run_map.mp hr
    cases hx
    refine ⟨⟨rfl, rfl, rfl⟩, release_spec v rs _ _ w' h.ring hrun, h.tracks.change _ _,
      h.accepted, h.reaped, ?_⟩
    show v.resources.refcount - 1 = s.handles.live + (s.pools - 1)
    rw [h.shares]
    omega
  · exact absurd hc (by simp)

/-- The step lemma for a call of the owner. -/
theorem Inv.call (h : s.Inv v) {c : Call} {rs : List KRound} (hc : s.call c rs = some s') :
    ∃ v', Follows v s' v' ∧ (c ≠ .submitSqpoll → v'.synced = v.synced) := by
  cases c with
  | push sqe =>
      obtain ⟨v', hf, hs⟩ := h.push hc
      exact ⟨v', hf, fun _ => hs⟩
  | flushSqTail =>
      obtain ⟨v', hf, hs⟩ := h.flushSqTail hc
      exact ⟨v', hf, fun _ => hs⟩
  | submit =>
      obtain ⟨v', hf, hs⟩ := h.submit hc
      exact ⟨v', hf, fun _ => hs⟩
  | submitAndWait n =>
      obtain ⟨v', hf, hs⟩ := h.submitAndWait hc
      exact ⟨v', hf, fun _ => hs⟩
  | submitSqpoll =>
      obtain ⟨v', hf⟩ := h.submitSqpoll hc
      exact ⟨v', hf, fun hne => absurd rfl hne⟩
  | complete =>
      obtain ⟨v', hf, hs⟩ := h.complete hc
      exact ⟨v', hf, fun _ => hs⟩
  | syncCq => exact ⟨_, h.syncCq hc, fun _ => rfl⟩
  | wait n => exact ⟨_, h.wait hc, fun _ => rfl⟩
  | nextDoTag => exact ⟨_, h.nextDoTag hc, fun _ => rfl⟩
  | split =>
      obtain ⟨r, -, hcase⟩ := h.split hc
      -- a ring that `split` refuses stays as it is
      rcases hcase with ⟨-, rfl⟩ | ⟨-, -, -, -, hf⟩
      · exact ⟨v, ⟨⟨rfl, rfl, rfl⟩, h⟩, fun _ => rfl⟩
      · exact ⟨_, hf, fun _ => rfl⟩
  | dropRing => exact ⟨_, h.dropRing hc, fun _ => rfl⟩
  | dropSubmitter => exact ⟨_, h.dropSubmitter hc, fun _ => rfl⟩
  | dropCompleter => exact ⟨_, h.dropCompleter hc, fun _ => rfl⟩
  | registerPool => exact ⟨_, h.registerPool hc, fun _ => rfl⟩
  | dropPool => exact ⟨_, h.dropPool hc, fun _ => rfl⟩

end Sys

/-- A step that is not a `submit_sqpoll`. -/
def Action.notSqpoll : Action → Bool
  | .call .submitSqpoll _ => false
  | _ => true

namespace Sys

variable {v : View} {s s' : Sys}

/-- The step lemma. -/
theorem Inv.step (h : s.Inv v) {a : Action} (hs : s.step a = some s') :
    ∃ v', Follows v s' v' ∧ (a.notSqpoll = true → v'.synced = v.synced) := by
  cases a with
  | call c rs =>
      obtain ⟨v', hf, hsync⟩ := h.call hs
      refine ⟨v', hf, fun hn => hsync ?_⟩
      rintro rfl
      exact absurd hn (by simp [Action.notSqpoll])
  | kernel k =>
      obtain ⟨w', hk, rfl⟩ := Option.map_eq_some_iff.mp hs
      exact ⟨v, ⟨⟨rfl, rfl, rfl⟩, h.ring.env hk, h.tracks, h.accepted, h.reaped, h.shares⟩,
        fun _ => rfl⟩

/-- The run lemma. -/
theorem Inv.run (h : s.Inv v) {as : List Action} (hr : s.run as = some s') :
    ∃ v', Follows v s' v' ∧ ((∀ a ∈ as, a.notSqpoll = true) → v'.synced = v.synced) := by
  induction as generalizing s v with
  | nil =>
      cases hr
      exact ⟨v, ⟨⟨rfl, rfl, rfl⟩, h⟩, fun _ => rfl⟩
  | cons a as ih =>
      obtain ⟨s1, h1, h2⟩ := Option.bind_eq_some_iff.mp hr
      obtain ⟨v1, hf1, hs1⟩ := h.step h1
      obtain ⟨v2, hf2, hs2⟩ := ih hf1.inv h2
      refine ⟨v2, ⟨hf1.fixed.trans hf2.fixed, hf2.inv⟩, fun hall => ?_⟩
      -- Neither part of the run has a `submit_sqpoll`.
      rw [hs2 fun b hb => hall b (List.mem_cons_of_mem a hb)]
      exact hs1 (hall a List.mem_cons_self)

/-- Every call keeps an invariant of the machine. -/
theorem exec_world {I : World → Prop} (hI : ringMachine.Invariant I) (hw : I s.world)
    {α : Type} {p : Option (RingProg (α × Handles))} {rs : List KRound}
    {record : α → Sys → Sys} (hrec : ∀ a t, (record a t).world = t.world)
    (h : s.exec p rs record = some s') : I s'.world := by
  obtain ⟨prog, a, hs', w', -, hrun, rfl⟩ := exec_eq_some h
  rw [hrec]
  exact Prog.run_keeps hI hw hrun

theorem step_world {I : World → Prop} (hI : ringMachine.Invariant I) (hw : I s.world)
    {a : Action} (h : s.step a = some s') : I s'.world := by
  cases a with
  | kernel k =>
      obtain ⟨w', hk, rfl⟩ := Option.map_eq_some_iff.mp h
      exact hI.env k _ w' hw hk
  | call c rs =>
      cases c with
      | push sqe =>
          refine exec_world hI hw (fun a t => ?_) h
          cases a <;> rfl
      | complete =>
          refine exec_world hI hw (fun a t => ?_) h
          cases a <;> rfl
      -- A pool changes the owner's count as well, which is not in the world.
      | registerPool =>
          simp only [Sys.step, Sys.call] at h
          split at h
          · refine exec_world hI hw ?_ h
            intro _ _
            rfl
          · exact absurd h (by simp)
      | dropPool =>
          simp only [Sys.step, Sys.call] at h
          split at h
          · refine exec_world hI hw ?_ h
            intro _ _
            rfl
          · exact absurd h (by simp)
      | _ => exact exec_world hI hw (fun _ _ => rfl) h

theorem isRun : IsRun Sys.step Sys.run := ⟨fun _ => rfl, fun _ _ _ => rfl⟩

/-- Every run of the system keeps an invariant of the machine. -/
theorem run_world {I : World → Prop} (hI : ringMachine.Invariant I) (hw : I s.world)
    {as : List Action} (h : s.run as = some s') : I s'.world :=
  isRun.keeps (fun _ _ _ hw hs => step_world hI hw hs) hw h

/-- A call whose result leaves no trace in the record. -/
theorem exec_unrecorded {α : Type} {p : Option (RingProg (α × Handles))}
    {rs : List KRound} {record : α → Sys → Sys}
    (hrec : ∀ a t, (record a t).accepted = t.accepted ∧ (record a t).reaped = t.reaped)
    (h : s.exec p rs record = some s') :
    s'.accepted = s.accepted ∧ s'.reaped = s.reaped := by
  obtain ⟨prog, a, hs', w', -, -, rfl⟩ := exec_eq_some h
  exact hrec a _

/-- Only a push extends the accepted SQEs, and only a reap the completions. -/
theorem step_record {a : Action} (h : s.step a = some s') :
    (s'.accepted = s.accepted ∨
      ∃ sqe rs, a = .call (.push sqe) rs ∧ s'.accepted = s.accepted ++ [sqe]) ∧
    s.reaped <+: s'.reaped := by
  -- The calls other than the two end with the record they began with.
  have hsame : s'.accepted = s.accepted ∧ s'.reaped = s.reaped →
      (s'.accepted = s.accepted ∨
        ∃ sqe rs, a = .call (.push sqe) rs ∧ s'.accepted = s.accepted ++ [sqe]) ∧
      s.reaped <+: s'.reaped :=
    fun hr => ⟨Or.inl hr.1, hr.2 ▸ List.prefix_rfl⟩
  cases a with
  | kernel k =>
      obtain ⟨w', -, rfl⟩ := Option.map_eq_some_iff.mp h
      exact hsame ⟨rfl, rfl⟩
  | call c rs =>
      cases c with
      | push sqe =>
          obtain ⟨prog, res, hs', w', -, -, rfl⟩ := exec_eq_some h
          cases res with
          | ok u => exact ⟨Or.inr ⟨sqe, rs, rfl, rfl⟩, List.prefix_rfl⟩
          | error e => exact hsame ⟨rfl, rfl⟩
      | complete =>
          obtain ⟨prog, res, hs', w', -, -, rfl⟩ := exec_eq_some h
          cases res with
          | some c => exact ⟨Or.inl rfl, List.prefix_append _ _⟩
          | none => exact hsame ⟨rfl, rfl⟩
      | registerPool =>
          simp only [Sys.step, Sys.call] at h
          split at h
          · refine hsame (exec_unrecorded ?_ h)
            intro _ _
            exact ⟨rfl, rfl⟩
          · exact absurd h (by simp)
      | dropPool =>
          simp only [Sys.step, Sys.call] at h
          split at h
          · refine hsame (exec_unrecorded ?_ h)
            intro _ _
            exact ⟨rfl, rfl⟩
          · exact absurd h (by simp)
      | _ => exact hsame (exec_unrecorded (fun _ _ => ⟨rfl, rfl⟩) h)

end Sys

end Ququmatz
