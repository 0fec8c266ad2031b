import Ququmatz.Proofs.Ring.System

/-!
# `Ququmatz.Proofs.Ring.Fifo`: both queues deliver exactly once and in order

The main results about a ring over whole runs, from any pair of starting indices:

* `submission_queue_exactly_once`: what the kernel read is a prefix of what `push` accepted;
  the accepted SQEs that it has not read are intact in their slots; `push` refuses exactly
  when the ring is full; `sq_space_left` does not underflow; without an SQPOLL thread
  `sq_submitted` is the kernel's head after every call;
* `completion_queue_exactly_once`: what `complete` returned is a prefix of what the kernel
  posted, and `complete` returns the next posted CQE as soon as there is one; a `sync_cq`
  and the drop of a handle publish everything that was reaped.

Both read off `Sys.Inv`, which `Sys.Inv.run` carries along every run.
-/

set_option autoImplicit false

namespace Ququmatz

open Lib

/-- The identity fill of `parse_sq` reaches every slot below its bound. -/
theorem fillIdentity_apply (sqArray : Nat → UInt32) (n i : Nat) (hi : i < n) :
    fillIdentity sqArray n i = UInt32.ofNat i := by
  induction n with
  | zero => omega
  | succ n ih =>
      show Function.update (fillIdentity sqArray n) n (UInt32.ofNat n) i = UInt32.ofNat i
      -- The last slot filled, or one that was filled before it.
      by_cases hin : i = n
      · subst hin
        exact Function.update_self _ _ _
      · rw [Function.update_of_ne hin]
        exact ih (by omega)

/-! ### The first state -/

section Init

variable (params : RingParams) (resources : RingResources) (sqStart cqStart : UInt32)
  (sqArray : Nat → UInt32) (sqes : Nat → Sqe) (cqes : Nat → Cqe)

/-- The view of a ring that `from_params` just returned. -/
def View.init : View where
  params := params
  sqBase := sqStart.toNat
  cqBase := cqStart.toNat
  written := []
  read := []
  sqPub := 0
  cqPub := 0
  resources := { resources with refcount := 1 }
  head := sqStart
  synced := true

/-- `parse_sq` leaves everything but the SQ array as it was. -/
theorem parseSq_eq (w : World) : ∃ a, parseSq w = { w with sqArray := a } ∧
    (w.hasSqArray = true → ∀ i < w.params.sq.size, a i = UInt32.ofNat i) := by
  unfold parseSq
  by_cases harr : w.hasSqArray = true
  · rw [if_pos harr]
    exact ⟨_, rfl, fun _ i hi => fillIdentity_apply _ _ i hi⟩
  · rw [if_neg harr]
    exact ⟨w.sqArray, rfl, fun h => absurd h harr⟩

theorem ofNat_toNat_add_zero (x : UInt32) : x = UInt32.ofNat (x.toNat + 0) := by
  rw [Nat.add_zero, UInt32.ofNat_toNat]

theorem Sys.init_inv :
    (Sys.init params resources sqStart cqStart sqArray sqes cqes).Inv
      (View.init params resources sqStart cqStart) := by
  obtain ⟨a, heq, harr⟩ := parseSq_eq
    (World.fresh params { resources with refcount := 1 } sqStart cqStart sqArray sqes cqes)
  unfold Sys.init
  simp only [heq]
  refine ⟨⟨rfl, rfl, rfl, rfl, fun _ => rfl, ⟨?_, ?_, ?_, harr⟩, ⟨?_, ?_, ?_⟩⟩,
    ⟨⟨rfl, ?_, fun _ => rfl⟩, rfl, ?_⟩, rfl, rfl, rfl⟩
  · exact Spsc.empty _ _ _
  · exact ofNat_toNat_add_zero sqStart
  · exact ofNat_toNat_add_zero sqStart
  · exact Spsc.empty _ _ _
  · exact ofNat_toNat_add_zero cqStart
  · exact ofNat_toNat_add_zero cqStart
  · exact ofNat_toNat_add_zero sqStart
  · exact ofNat_toNat_add_zero cqStart

/-- The kernel has posted nothing on a fresh ring. -/
theorem Sys.init_posted :
    (Sys.init params resources sqStart cqStart sqArray sqes cqes).world.posted = [] := by
  obtain ⟨a, heq, -⟩ := parseSq_eq
    (World.fresh params { resources with refcount := 1 } sqStart cqStart sqArray sqes cqes)
  show (parseSq _).posted = []
  rw [heq]
  rfl

end Init

/-- A queue of two slots. -/
def twoEntries : RingSize := RingSize.ofLog 1 (by decide)

/-- A ring of two and two slots whose indices are about to wrap. -/
def Sys.wrapping : Sys :=
  Sys.init
    { sq := twoEntries
      cq := twoEntries
      flags := .empty
      features := 0 }
    { refcount := 1
      fd := ⟨3⟩
      sqRing := ⟨0, 0⟩
      cqRing := ⟨0, 0⟩
      sqesRegion := ⟨0, 0⟩
      selfPage := ⟨0, 0⟩ }
    0xFFFFFFFF 0xFFFFFFFF (fun _ => 0) (fun _ => Sqe.ZEROED) (fun _ => ⟨0, 0, 0⟩)

/-! ### The laws of the two queues -/

/-- The submission law: the kernel reads the accepted SQEs in order, each once and as it
was pushed, and the slot of an SQE is not overwritten before it was read. -/
structure SqLaw (start : UInt32) (accepted : List Sqe) (w : World) : Prop where
  consumed_prefix : w.consumed <+: accepted
  intact : ∀ i sqe, w.consumed.length ≤ i → accepted[i]? = some sqe →
    w.sqes ((start.toNat + i) % w.params.sq.size) = sqe

/-- The completion law: the completions are returned in the order posted, each once and as
it was posted, and the slot of a CQE is not overwritten before it was copied out. -/
structure CqLaw (start : UInt32) (reaped : List Completion) (w : World) : Prop where
  reaped_prefix : reaped <+: w.posted.map fun p => Completion.ofCqe p.2
  intact : ∀ i p, reaped.length ≤ i → w.posted[i]? = some p →
    w.cqes ((start.toNat + i) % w.params.cq.size) = p.2
  published : ∃ q ≤ reaped.length, w.cqHead = start + UInt32.ofNat q

theorem toNat_add_ofNat (x : UInt32) (n : Nat) :
    UInt32.ofNat (x.toNat + n) = x + UInt32.ofNat n := by
  rw [UInt32.ofNat_add, UInt32.ofNat_toNat]

namespace Sys.Inv

variable {v : View} {s : Sys} {sqStart cqStart : UInt32}

/-- The kernel reads the accepted SQEs in order. -/
theorem consumed_prefix (h : s.Inv v) : s.world.consumed <+: s.accepted := by
  rw [h.accepted, ← h.ring.written]
  exact h.ring.sq.queue.got_prefix

/-- The completions are returned in the order posted. -/
theorem reaped_prefix (h : s.Inv v) :
    s.reaped <+: s.world.posted.map fun p => Completion.ofCqe p.2 := by
  have := h.ring.cq.queue.got_prefix.map Completion.ofCqe
  rw [List.map_map] at this
  rw [h.reaped, ← h.ring.read]
  exact this

theorem sqLaw (h : s.Inv v) (hb : v.sqBase = sqStart.toNat) :
    SqLaw sqStart s.accepted s.world := by
  refine ⟨h.consumed_prefix, ?_⟩
  intro i sqe hi hget
  rw [h.accepted, ← h.ring.written] at hget
  have := h.ring.sq.queue.slots i sqe hi hget
  rw [hb] at this
  exact this

theorem cqLaw (h : s.Inv v) (hb : v.cqBase = cqStart.toNat) :
    CqLaw cqStart s.reaped s.world := by
  have hq := h.ring.cq.queue
  have hlen : s.reaped.length = s.world.read.length := by
    rw [h.reaped, List.length_map, h.ring.read]
  refine ⟨h.reaped_prefix, ?_, v.cqPub, ?_, ?_⟩
  · intro i p hi hget
    have := hq.slots i p.2 (by omega) (by rw [List.getElem?_map, hget]; rfl)
    rw [hb] at this
    exact this
  · rw [hlen]
    exact hq.freed_le
  · rw [h.ring.cq.head, hb, toNat_add_ofNat]

/-- Without an SQPOLL thread the local count is the kernel's head. -/
theorem sqSubmitted_eq (h : s.Inv v) (hsync : v.synced = true)
    (hpoll : s.world.sqpoll = false) {x : UInt32} (hx : s.handles.sqSubmitted = some x) :
    x = s.world.sqHead := by
  have ht := h.tracks
  rw [h.ring.head hpoll]
  -- Each handle that submits tracks the view, and the view knows the head.
  cases hhs : s.handles with
  | whole r =>
      rw [hhs] at ht hx
      cases hx
      exact ht.sq.submitted hsync
  | halves a b =>
      rw [hhs] at ht hx
      cases a with
      | none => cases hx
      | some a =>
          cases hx
          exact (ht.1 a rfl).submitted hsync
  | gone =>
      rw [hhs] at hx
      cases hx

end Sys.Inv

/-! ### The submission queue -/

/-- In every run the kernel consumes the accepted SQEs once and in order, each as it was pushed, a
push is refused exactly when the queue is full, and the space that is reported is there. -/
theorem submission_queue_exactly_once (params : RingParams) (resources : RingResources)
    (sqStart cqStart : UInt32) (sqArray : Nat → UInt32) (sqes : Nat → Sqe) (cqes : Nat → Cqe)
    (as : List Action) (s : Sys)
    (hr : (Sys.init params resources sqStart cqStart sqArray sqes cqes).run as = some s) :
    SqLaw sqStart s.accepted s.world ∧
    (∀ sqe rs p res hs' w', s.handles.push sqe = some p →
      p.run ringMachine rs s.world = some ((res, hs'), w') →
      (res = .ok () ∨ res = .error (.submit .queueFull)) ∧
      ∃ r rs' w1, rs = r :: rs' ∧ envSteps World.env r.before s.world = some w1 ∧
        (res = .error (.submit .queueFull) ↔
          s.accepted.length = w1.consumed.length + params.sq.size)) ∧
    (∀ rs p out hs' w', s.handles.sqSpaceLeft = some p →
      p.run ringMachine rs s.world = some ((out, hs'), w') →
      ∃ x : UInt32, out = some x ∧
        x.toNat + s.accepted.length = params.sq.size + w'.consumed.length) ∧
    (s.world.sqpoll = false → (∀ a ∈ as, a.notSqpoll = true) →
      ∀ x, s.handles.sqSubmitted = some x → x = s.world.sqHead) := by
  obtain ⟨v, hf, hsync⟩ := (Sys.init_inv params resources sqStart cqStart sqArray sqes
    cqes).run hr
  have h := hf.inv
  have hparams : v.params = params := hf.fixed.params
  refine ⟨h.sqLaw hf.fixed.sqBase, ?_, ?_, ?_⟩
  · intro sqe rs p res hs' w' hp hrun
    -- The push decides by the head it loads, so by the state after the first round.
    obtain ⟨r, rs', w1, hrs, hb, -, hcase⟩ := Handles.push_run h.ring h.tracks hp hrun
    rw [← h.accepted, hparams] at hcase
    rcases hcase with ⟨hfull, rfl, -⟩ | ⟨hroom, rfl, -⟩
    · exact ⟨Or.inr rfl, r, rs', w1, hrs, hb, ⟨fun _ => hfull, fun _ => rfl⟩⟩
    · refine ⟨Or.inl rfl, r, rs', w1, hrs, hb, ⟨fun h => absurd h (by simp), ?_⟩⟩
      intro hfull
      omega
  · intro rs p out hs' w' hp hrun
    have ht := h.tracks
    rcases Handles.onSq_run hp hrun with ⟨r, r', hhs, -, hrun⟩ | ⟨a, a', c, hhs, -, hrun⟩
    · rw [hhs] at ht
      obtain ⟨out', hrun', hx⟩ := Prog.run_map.mp hrun
      cases hx
      obtain ⟨-, x, hx, heq⟩ := Submitter.sqSpaceLeft_run h.ring ht.sq hrun'
      rw [← h.accepted, hparams] at heq
      exact ⟨x, hx, heq⟩
    · rw [hhs] at ht
      obtain ⟨out', hrun', hx⟩ := Prog.run_map.mp hrun
      cases hx
      obtain ⟨-, x, hx, heq⟩ := Submitter.sqSpaceLeft_run h.ring (ht.1 a rfl) hrun'
      rw [← h.accepted, hparams] at heq
      exact ⟨x, hx, heq⟩
  · intro hpoll hall x hx
    exact h.sqSubmitted_eq (hsync hall) hpoll hx

/-- Three pushes and two submits across the wrap: the third push is refused, and the
kernel reads the two SQEs that were accepted. -/
def wrappingSubmits : List Action :=
  [.call (.push Sqe.nop) [.quiet, .quiet],
    .call (.push (Sqe.nop.withUserData 7)) [.quiet, .quiet],
    .call (.push Sqe.nop) [.quiet],
    .call .submit [.quiet, .entered ⟨.ok 1, []⟩, .quiet],
    .call (.submitAndWait 0) [.quiet, .quiet, .quiet, .entered ⟨.ok 1, []⟩]]

theorem submission_queue_wraps :
    ∃ s, Sys.wrapping.run wrappingSubmits = some s ∧
      s.world.consumed = [Sqe.nop, Sqe.nop.withUserData 7] ∧
      SqLaw 0xFFFFFFFF s.accepted s.world := by
  have heval : (Sys.wrapping.run wrappingSubmits).map (fun s => s.world.consumed)
      = some [Sqe.nop, Sqe.nop.withUserData 7] := by decide +kernel
  obtain ⟨s, hrun, hread⟩ := Option.map_eq_some_iff.mp heval
  exact ⟨s, hrun, hread,
    (submission_queue_exactly_once _ _ _ _ _ _ _ wrappingSubmits s hrun).1⟩

/-! ### The completion queue -/

/-- The calls after which everything that was reaped is published. -/
def Call.publishes : Call → Bool
  | .syncCq => true
  | .wait _ => true
  | .dropRing => true
  | .dropCompleter => true
  | _ => false

theorem Sys.Inv.publishes {v : View} {s s' : Sys} (h : s.Inv v) {c : Call} {rs : List KRound}
    (hp : c.publishes = true) (hc : s.call c rs = some s') :
    ∃ v', Sys.Follows v s' v' ∧ v'.cqPub = v'.read.length ∧ v'.read = v.read := by
  cases c with
  | syncCq => exact ⟨_, h.syncCq hc, rfl, rfl⟩
  | wait n => exact ⟨_, h.wait hc, rfl, rfl⟩
  | dropRing => exact ⟨_, h.dropRing hc, rfl, rfl⟩
  | dropCompleter => exact ⟨_, h.dropCompleter hc, rfl, rfl⟩
  | _ => exact absurd hp Bool.false_ne_true

/-- In every run the completions are handed out once and in the order of the posts, `None` means
that all were, and the calls that publish give back every slot that was read. -/
theorem completion_queue_exactly_once (params : RingParams) (resources : RingResources)
    (sqStart cqStart : UInt32) (sqArray : Nat → UInt32) (sqes : Nat → Sqe) (cqes : Nat → Cqe)
    (as : List Action) (s : Sys)
    (hr : (Sys.init params resources sqStart cqStart sqArray sqes cqes).run as = some s) :
    CqLaw cqStart s.reaped s.world ∧
    (∀ rs p res hs' w', s.handles.complete = some p →
      p.run ringMachine rs s.world = some ((res, hs'), w') →
      ∃ r rs' w1, rs = r :: rs' ∧ envSteps World.env r.before s.world = some w1 ∧
        res = (w1.posted[s.reaped.length]?).map fun x => Completion.ofCqe x.2) ∧
    (∀ c rs s', c.publishes = true → s.call c rs = some s' →
      s'.reaped = s.reaped ∧
      s'.world.cqHead = cqStart + UInt32.ofNat s'.reaped.length) := by
  obtain ⟨v, hf, -⟩ := (Sys.init_inv params resources sqStart cqStart sqArray sqes
    cqes).run hr
  have h := hf.inv
  refine ⟨h.cqLaw hf.fixed.cqBase, ?_, ?_⟩
  · -- a `complete` looks at the tail once, in the world after the kernel's steps before it
    intro rs p res hs' w' hp hrun
    obtain ⟨r, rs', w1, hrs, hb, -, hcase⟩ := Handles.complete_run h.ring h.tracks hp hrun
    have hlen : s.reaped.length = v.read.length := by rw [h.reaped, List.length_map]
    refine ⟨r, rs', w1, hrs, hb, ?_⟩
    rw [hlen]
    rcases hcase with ⟨hempty, rfl, -⟩ | ⟨o, cqe, hget, rfl, -⟩
    · rw [List.getElem?_eq_none (by omega)]
      rfl
    · rw [hget]
      rfl
  · intro c rs s' hp hc
    obtain ⟨v', hf', hpub, hread⟩ := h.publishes hp hc
    have h' := hf'.inv
    have hreaped : s'.reaped = s.reaped := by rw [h'.reaped, h.reaped, hread]
    have hbase : v'.cqBase = cqStart.toNat := hf'.fixed.cqBase.trans hf.fixed.cqBase
    refine ⟨hreaped, ?_⟩
    rw [h'.ring.cq.head, hbase, toNat_add_ofNat, hpub, h'.reaped, List.length_map]

/-- Two completions across the wrap; the second is posted while the first is read. -/
def wrappingReaps : List Action :=
  [.kernel (.post .foreign ⟨1, 0, 0⟩),
    .call .complete [.quiet, ⟨[.post .foreign ⟨2, 0, 0⟩], none⟩],
    .call .complete [.quiet, .quiet],
    .call .syncCq [.quiet]]

theorem completion_queue_wraps :
    ∃ s, Sys.wrapping.run wrappingReaps = some s ∧
      s.reaped = [⟨1, 0, ⟨0⟩⟩, ⟨2, 0, ⟨0⟩⟩] ∧
      CqLaw 0xFFFFFFFF s.reaped s.world := by
  have heval : (Sys.wrapping.run wrappingReaps).map (fun s => s.reaped)
      = some [⟨1, 0, ⟨0⟩⟩, ⟨2, 0, ⟨0⟩⟩] := by decide +kernel
  obtain ⟨s, hrun, hreaped⟩ := Option.map_eq_some_iff.mp heval
  exact ⟨s, hrun, hreaped,
    (completion_queue_exactly_once _ _ _ _ _ _ _ wrappingReaps s hrun).1⟩

end Ququmatz
