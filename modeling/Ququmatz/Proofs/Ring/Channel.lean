import Ququmatz.Lib.Channel
import Ququmatz.Proofs.Owned.Receipts

/-!
# `Ququmatz.Proofs.Ring.Channel`: a ring is a channel with two bounded queues

`Sys.channel` reads off a ring what it is for: the requests that were accepted and the kernel has
not read, and the completions that were posted and the owner has not reaped. The wrapping indices,
the masks, the published and the local heads and tails, and the kernel's moves in the middle of a
call are gone. `Sys.Inv.simulates` is the simulation: whatever a step does, the channel can do,
with one atomic act for a `push` or a `complete`, at the moment in which the call looks at the
other side's index. `ring_refines_channel` lifts it to runs, and the promise of `sq_space_left`
then follows from that of the channel.
-/

set_option autoImplicit false

namespace Ququmatz

open Lib

/-! ### The channel of a ring -/

/-- The channel in which `w` is, when `accepted` was pushed and `k` completions were reaped. -/
def World.channelAt (accepted : List Sqe) (k : Nat) (w : World) : Channel Sqe Completion where
  requests := accepted.drop w.consumed.length
  replies := (w.posted.drop k).map fun p => Completion.ofCqe p.2

namespace Sys

/-- The channel that the ring is. -/
def channel (s : Sys) : Channel Sqe Completion :=
  s.world.channelAt s.accepted s.reaped.length

/-- What a step of the owner does at the channel. -/
def acts (s : Sys) : Action → List (ChannelEvent Sqe Completion)
  | .call (.push sqe) rs =>
      match s.invoke (s.handles.push sqe) rs (recordPush sqe) with
      | some (res, _) => [.send sqe res.isOk]
      | none => []
  | .call .complete rs =>
      match s.invoke s.handles.complete rs recordReap with
      | some (res, _) => [.receive res]
      | none => []
  | _ => []

/-- What a run of the owner does at the channel, oldest first. -/
def actsAll : List Action → Sys → List (ChannelEvent Sqe Completion)
  | [], _ => []
  | a :: as, s =>
      match s.step a with
      | some s' => s.acts a ++ actsAll as s'
      | none => []

end Sys

/-! ### What the kernel does to it -/

/-- A run that is given a round begins with the kernel's moves of that round. -/
theorem grows_of_first {α : Type} {p : RingProg α} {r : KRound} {rs : List KRound} {w w' : World}
    {a : α} (h : p.run ringMachine (r :: rs) w = some (a, w')) :
    ∃ w1, envSteps World.env r.before w = some w1 ∧ w1.Grows w' := by
  cases p with
  | ret b => cases (Prog.run_ret.mp h).1
  | op o k =>
      obtain ⟨r', rs', w1, x, w2, heq, hb, hacc, hrest⟩ := Prog.run_op.mp h
      cases heq
      have hgrows := Prog.run_keeps (grows_invariant w2) (World.Grows.refl w2) hrest
      exact ⟨w1, hb, (World.grows_of_access hacc).trans hgrows⟩

/-- The kernel has read accepted requests, and posted no more than there is room for. -/
theorem RingAt.served {v : View} {w : World} (h : RingAt v w) :
    w.consumed <+: v.written ∧ v.read.length ≤ w.posted.length ∧
      w.posted.length ≤ v.read.length + v.params.cq.size := by
  have hq := h.cq.queue
  have hroom := hq.room
  have hfreed := hq.freed_le
  have hgot := hq.got_prefix.length_le
  rw [List.length_map] at hroom hgot
  rw [h.params] at hroom
  rw [h.read] at hfreed hgot
  exact ⟨h.written ▸ h.sq.queue.got_prefix, hgot, by omega⟩

/-- The kernel's moves are acts of the server. -/
theorem World.Grows.serves {w w' : World} (hg : w.Grows w') (n : Nat) {m : Nat}
    {accepted : List Sqe} {k : Nat} (hpre : w'.consumed <+: accepted) (hk : k ≤ w.posted.length)
    (hroom : w'.posted.length ≤ k + m) :
    ∃ es, Channel.Run n m (w.channelAt accepted k) es (w'.channelAt accepted k) ∧
      es.filter ChannelEvent.ofClient = [] := by
  obtain ⟨taken, htaken⟩ := hg.consumed
  obtain ⟨posted, hposted⟩ := hg.posted
  obtain ⟨rest, hrest⟩ := hpre
  have hlen := congrArg List.length hposted
  rw [List.length_append] at hlen
  have hserve := Channel.run_serve (m := m) n taken rest
    ((w.posted.drop k).map fun p => Completion.ofCqe p.2)
    (posted.map fun p => Completion.ofCqe p.2)
    (by rw [List.length_map, List.length_map, List.length_drop]; omega)
  have hbefore : w.channelAt accepted k
      = ⟨taken ++ rest, (w.posted.drop k).map fun p => Completion.ofCqe p.2⟩ := by
    unfold World.channelAt
    rw [← hrest, ← htaken, List.append_assoc, List.drop_left]
  have hafter : w'.channelAt accepted k
      = ⟨rest, (w.posted.drop k).map (fun p => Completion.ofCqe p.2)
          ++ posted.map fun p => Completion.ofCqe p.2⟩ := by
    unfold World.channelAt
    rw [← hrest, List.drop_left, ← hposted, List.drop_append_of_le_length hk, List.map_append]
  rw [hbefore, hafter]
  exact hserve

namespace Sys

variable {v : View} {s s' : Sys}

theorem invoke_exec {α : Type} {p : Option (RingProg (α × Handles))} {rs : List KRound}
    {record : α → Sys → Sys} (h : s.exec p rs record = some s') :
    ∃ prog a hs' w', p = some prog ∧
      prog.run ringMachine rs s.world = some ((a, hs'), w') ∧
      s.invoke p rs record = some (a, s') ∧
      s' = record a { s with world := w', handles := hs' } := by
  obtain ⟨prog, a, hs', w', rfl, hrun, rfl⟩ := exec_eq_some h
  refine ⟨prog, a, hs', w', rfl, hrun, ?_, rfl⟩
  simp [invoke, hrun]

theorem actsAll_cons {a : Action} {as : List Action} (hs : s.step a = some s') :
    actsAll (a :: as) s = s.acts a ++ actsAll as s' := by
  simp only [actsAll, hs]

/-! ### The simulation -/

/-- A `push` sends at the moment in which it reads the head of the queue. -/
theorem Inv.push_simulates (h : s.Inv v) {sqe : Sqe} {rs : List KRound}
    (hs : s.step (.call (.push sqe) rs) = some s') :
    ∃ es, Channel.Run v.params.sq.size v.params.cq.size s.channel es s'.channel ∧
      es.filter ChannelEvent.ofClient = s.acts (.call (.push sqe) rs) := by
  obtain ⟨prog, res, hs', w', hp, hrun, hinv, rfl⟩ := invoke_exec hs
  obtain ⟨r, rs', w1, rfl, hb, -, hcase⟩ := Handles.push_run h.ring h.tracks hp hrun
  obtain ⟨w1', hb', hg2⟩ := grows_of_first hrun
  cases hb.symm.trans hb'
  have hg1 := World.grows_of_steps hb
  have h1 := (h.ring.steps hb).served
  have h0 := h.ring.served
  rw [← h.accepted] at h1 hcase
  have hread : s.reaped.length = v.read.length := by rw [h.reaped, List.length_map]
  have hacts : s.acts (.call (.push sqe) (r :: rs')) = [.send sqe res.isOk] := by
    simp only [acts, hinv]
  obtain ⟨es1, hrun1, hes1⟩ := hg1.serves v.params.sq.size h1.1 (hread ▸ h0.2.1)
    (hread ▸ h1.2.2)
  have hsent := List.length_drop (i := w1.consumed.length) (l := s.accepted)
  have hle := h1.1.length_le
  rcases hcase with ⟨hfull, rfl, rfl, hw⟩ | ⟨hroom, rfl, hw, -⟩
  · obtain ⟨es2, hrun2, hes2⟩ := hg2.serves v.params.sq.size (h.accepted ▸ hw.served.1)
      (hread ▸ h1.2.1) (hread ▸ hw.served.2.2)
    have hstep : Channel.Step v.params.sq.size v.params.cq.size
        (w1.channelAt s.accepted s.reaped.length) (.send sqe false)
        (w1.channelAt s.accepted s.reaped.length) := .refuse (by omega)
    refine ⟨es1 ++ ([.send sqe false] ++ es2), hrun1.append (hstep.run.append hrun2), ?_⟩
    rw [List.filter_append, List.filter_append, hes1, hes2, hacts]
    rfl
  · have hw' := hw.served
    have hpre : w'.consumed <+: s.accepted ++ [sqe] := h.accepted ▸ hw'.1
    obtain ⟨es2, hrun2, hes2⟩ := hg2.serves v.params.sq.size hpre (hread ▸ h1.2.1)
      (hread ▸ hw'.2.2)
    have hstep : Channel.Step v.params.sq.size v.params.cq.size
        (w1.channelAt s.accepted s.reaped.length) (.send sqe true)
        (w1.channelAt (s.accepted ++ [sqe]) s.reaped.length) := by
      unfold World.channelAt
      rw [List.drop_append_of_le_length hle]
      exact .accept (by omega)
    refine ⟨es1 ++ ([.send sqe true] ++ es2), hrun1.append (hstep.run.append hrun2), ?_⟩
    rw [List.filter_append, List.filter_append, hes1, hes2, hacts]
    rfl

/-- A `complete` receives at the moment in which it reads the tail of the queue. -/
theorem Inv.complete_simulates (h : s.Inv v) {rs : List KRound}
    (hs : s.step (.call .complete rs) = some s') :
    ∃ es, Channel.Run v.params.sq.size v.params.cq.size s.channel es s'.channel ∧
      es.filter ChannelEvent.ofClient = s.acts (.call .complete rs) := by
  obtain ⟨prog, res, hs', w', hp, hrun, hinv, rfl⟩ := invoke_exec hs
  obtain ⟨r, rs', w1, rfl, hb, -, hcase⟩ := Handles.complete_run h.ring h.tracks hp hrun
  obtain ⟨w1', hb', hg2⟩ := grows_of_first hrun
  cases hb.symm.trans hb'
  have hg1 := World.grows_of_steps hb
  have h1 := (h.ring.steps hb).served
  have h0 := h.ring.served
  rw [← h.accepted] at h1
  have hread : s.reaped.length = v.read.length := by rw [h.reaped, List.length_map]
  have hacts : s.acts (.call .complete (r :: rs')) = [.receive res] := by
    simp only [acts, hinv]
  obtain ⟨es1, hrun1, hes1⟩ := hg1.serves v.params.sq.size h1.1 (hread ▸ h0.2.1)
    (hread ▸ h1.2.2)
  rcases hcase with ⟨hempty, rfl, rfl, hw⟩ | ⟨o, cqe, hget, rfl, hw, -⟩
  · obtain ⟨es2, hrun2, hes2⟩ := hg2.serves v.params.sq.size (h.accepted ▸ hw.served.1)
      (hread ▸ h1.2.1) (hread ▸ hw.served.2.2)
    have hstep : Channel.Step v.params.sq.size v.params.cq.size
        (w1.channelAt s.accepted s.reaped.length) (.receive none)
        (w1.channelAt s.accepted s.reaped.length) := by
      unfold World.channelAt
      rw [List.drop_eq_nil_of_le (by omega : w1.posted.length ≤ s.reaped.length)]
      exact .nothing
    refine ⟨es1 ++ ([.receive none] ++ es2), hrun1.append (hstep.run.append hrun2), ?_⟩
    rw [List.filter_append, List.filter_append, hes1, hes2, hacts]
    rfl
  · obtain ⟨hlt, hget⟩ := List.getElem?_eq_some_iff.mp hget
    have hw' := hw.served
    have hread' : (v.read ++ [cqe]).length = s.reaped.length + 1 := by
      rw [List.length_append, List.length_singleton, hread]
    obtain ⟨es2, hrun2, hes2⟩ := hg2.serves (k := s.reaped.length + 1) v.params.sq.size
      (h.accepted ▸ hw'.1) (by omega) (hread' ▸ hw'.2.2)
    have hstep : Channel.Step v.params.sq.size v.params.cq.size
        (w1.channelAt s.accepted s.reaped.length) (.receive (some (Completion.ofCqe cqe)))
        (w1.channelAt s.accepted (s.reaped.length + 1)) := by
      unfold World.channelAt
      rw [hread, List.drop_eq_getElem_cons hlt, List.map_cons, hget]
      exact .receive
    have hend : Sys.channel (recordReap (some (Completion.ofCqe cqe))
        { s with world := w', handles := hs' })
        = w'.channelAt s.accepted (s.reaped.length + 1) := by
      unfold channel recordReap
      rw [List.length_append, List.length_singleton]
    refine ⟨es1 ++ ([.receive (some (Completion.ofCqe cqe))] ++ es2), ?_, ?_⟩
    · rw [hend]
      exact hrun1.append (hstep.run.append hrun2)
    · rw [List.filter_append, List.filter_append, hes1, hes2, hacts]
      rfl

/-- A step that neither pushes nor reaps leaves the channel to the kernel. -/
theorem Inv.rest_simulates (h : s.Inv v) {a : Action} (hs : s.step a = some s')
    (hpush : ∀ sqe rs, a ≠ .call (.push sqe) rs) (hreap : ∀ rs, a ≠ .call .complete rs) :
    ∃ es, Channel.Run v.params.sq.size v.params.cq.size s.channel es s'.channel ∧
      es.filter ChannelEvent.ofClient = [] := by
  obtain ⟨v', hf, -⟩ := h.step hs
  have hreaped := Sys.step_reaped hs hreap
  have haccepted : s'.accepted = s.accepted := by
    rcases (Sys.step_record hs).1 with heq | ⟨sqe, rs, heq, -⟩
    · exact heq
    · exact absurd heq (hpush sqe rs)
  have h0 := h.ring.served
  have h1 := hf.inv.ring.served
  have hread : s.reaped.length = v.read.length := by rw [h.reaped, List.length_map]
  have hread' : s.reaped.length = v'.read.length := by
    rw [← hreaped, hf.inv.reaped, List.length_map]
  rw [← hf.inv.accepted, haccepted, ← hread', hf.fixed.params] at h1
  have hserve := (Sys.step_advance hs).grows.serves v.params.sq.size h1.1 (hread ▸ h0.2.1) h1.2.2
  unfold channel
  rw [haccepted, hreaped]
  exact hserve

/-- Whatever a step does, the channel can do. -/
theorem Inv.simulates (h : s.Inv v) {a : Action} (hs : s.step a = some s') :
    ∃ es, Channel.Run v.params.sq.size v.params.cq.size s.channel es s'.channel ∧
      es.filter ChannelEvent.ofClient = s.acts a := by
  cases a with
  | kernel k =>
      refine h.rest_simulates hs ?_ ?_
      · intro _ _ heq
        cases heq
      · intro _ heq
        cases heq
  | call c rs =>
      cases c with
      | push sqe => exact h.push_simulates hs
      | complete => exact h.complete_simulates hs
      | _ =>
          refine h.rest_simulates hs ?_ ?_
          · intro _ _ heq
            cases heq
          · intro _ heq
            cases heq

/-- The run lemma of the simulation. -/
theorem Inv.simulates_run (h : s.Inv v) {as : List Action} (hr : s.run as = some s') :
    ∃ es, Channel.Run v.params.sq.size v.params.cq.size s.channel es s'.channel ∧
      es.filter ChannelEvent.ofClient = actsAll as s := by
  induction as generalizing s v with
  | nil =>
      cases hr
      exact ⟨[], .nil _, rfl⟩
  | cons a as ih =>
      obtain ⟨s1, h1, h2⟩ := Option.bind_eq_some_iff.mp hr
      obtain ⟨es1, hrun1, hes1⟩ := h.simulates h1
      obtain ⟨v1, hf, -⟩ := h.step h1
      obtain ⟨es2, hrun2, hes2⟩ := ih hf.inv h2
      rw [hf.fixed.params] at hrun2
      refine ⟨es1 ++ es2, hrun1.append hrun2, ?_⟩
      rw [List.filter_append, hes1, hes2, actsAll_cons h1]

/-! ### What the record says of the acts -/

/-- The requests that a step has accepted are those that it sent with success. -/
theorem acts_accepted {a : Action} (hs : s.step a = some s') :
    s.accepted ++ (s.acts a).filterMap ChannelEvent.accepted = s'.accepted := by
  have hrest (hpush : ∀ sqe rs, a ≠ .call (.push sqe) rs)
      (hacts : (s.acts a).filterMap ChannelEvent.accepted = []) :
      s.accepted ++ (s.acts a).filterMap ChannelEvent.accepted = s'.accepted := by
    rw [hacts, List.append_nil]
    rcases (Sys.step_record hs).1 with heq | ⟨sqe, rs, heq, -⟩
    · exact heq.symm
    · exact absurd heq (hpush sqe rs)
  cases a with
  | kernel k => exact hrest (fun _ _ heq => by cases heq) rfl
  | call c rs =>
      cases c with
      | push sqe =>
          obtain ⟨prog, res, hs', w', -, -, hinv, rfl⟩ := invoke_exec hs
          cases res <;> simp [acts, hinv, recordPush, ChannelEvent.accepted, Except.isOk,
            Except.toBool]
      | complete =>
          obtain ⟨prog, res, hs', w', -, -, hinv, rfl⟩ := invoke_exec hs
          refine hrest (fun _ _ heq => by cases heq) ?_
          simp [acts, hinv, ChannelEvent.accepted]
      | _ => exact hrest (fun _ _ heq => by cases heq) rfl

/-- The completions that a step has reaped are those that it received. -/
theorem acts_received {a : Action} (hs : s.step a = some s') :
    s.reaped ++ (s.acts a).filterMap ChannelEvent.received = s'.reaped := by
  have hrest (hreap : ∀ rs, a ≠ .call .complete rs)
      (hacts : (s.acts a).filterMap ChannelEvent.received = []) :
      s.reaped ++ (s.acts a).filterMap ChannelEvent.received = s'.reaped := by
    rw [hacts, List.append_nil, Sys.step_reaped hs hreap]
  cases a with
  | kernel k => exact hrest (fun _ heq => by cases heq) rfl
  | call c rs =>
      cases c with
      | push sqe =>
          obtain ⟨prog, res, hs', w', -, -, hinv, rfl⟩ := invoke_exec hs
          refine hrest (fun _ heq => by cases heq) ?_
          simp [acts, hinv, ChannelEvent.received]
      | complete =>
          obtain ⟨prog, res, hs', w', -, -, hinv, rfl⟩ := invoke_exec hs
          cases res <;> simp [acts, hinv, recordReap, ChannelEvent.received]
      | _ => exact hrest (fun _ heq => by cases heq) rfl

theorem actsAll_accepted {as : List Action} (hr : s.run as = some s') :
    s.accepted ++ (actsAll as s).filterMap ChannelEvent.accepted = s'.accepted := by
  induction as generalizing s with
  | nil =>
      cases hr
      exact List.append_nil _
  | cons a as ih =>
      obtain ⟨s1, h1, h2⟩ := Option.bind_eq_some_iff.mp hr
      rw [actsAll_cons h1, List.filterMap_append, ← List.append_assoc, acts_accepted h1, ih h2]

theorem actsAll_received {as : List Action} (hr : s.run as = some s') :
    s.reaped ++ (actsAll as s).filterMap ChannelEvent.received = s'.reaped := by
  induction as generalizing s with
  | nil =>
      cases hr
      exact List.append_nil _
  | cons a as ih =>
      obtain ⟨s1, h1, h2⟩ := Option.bind_eq_some_iff.mp hr
      rw [actsAll_cons h1, List.filterMap_append, ← List.append_assoc, acts_received h1, ih h2]

/-- A channel is left with what was accepted and not taken. -/
theorem channel_of_taken {taken : List Sqe} (hw : s.world.consumed <+: s.accepted)
    (h : s.accepted = taken ++ s.channel.requests) : taken = s.world.consumed := by
  obtain ⟨rest, hrest⟩ := hw
  have hreq : s.channel.requests = rest := by
    show s.accepted.drop s.world.consumed.length = rest
    rw [← hrest, List.drop_left]
  rw [hreq, ← hrest] at h
  exact (List.append_cancel_right h).symm

end Sys

/-! ### The refinement -/

/-- Every run of a ring is a run of a channel, with the histories of the ring: a push is one send, a
completion is one receive. -/
theorem ring_refines_channel (params : RingParams) (resources : RingResources)
    (sqStart cqStart : UInt32) (sqArray : Nat → UInt32) (sqes : Nat → Sqe) (cqes : Nat → Cqe)
    (as : List Action) (s : Sys)
    (hr : (Sys.init params resources sqStart cqStart sqArray sqes cqes).run as = some s) :
    ∃ es, Channel.Run params.sq.size params.cq.size Channel.empty es s.channel ∧
      es.filter ChannelEvent.ofClient
        = Sys.actsAll as (Sys.init params resources sqStart cqStart sqArray sqes cqes) ∧
      es.filterMap ChannelEvent.accepted = s.accepted ∧
      es.filterMap ChannelEvent.taken = s.world.consumed ∧
      es.filterMap ChannelEvent.posted = s.world.posted.map (fun p => Completion.ofCqe p.2) ∧
      es.filterMap ChannelEvent.received = s.reaped := by
  have hinit := Sys.init_inv params resources sqStart cqStart sqArray sqes cqes
  have hempty : (Sys.init params resources sqStart cqStart sqArray sqes cqes).channel
      = Channel.empty := by
    unfold Sys.channel World.channelAt
    rw [Sys.init_posted, List.drop_nil]
    exact congrArg (Channel.mk · []) List.drop_nil
  obtain ⟨es, hrun, hes⟩ := hinit.simulates_run hr
  obtain ⟨v, hf, -⟩ := hinit.run hr
  have hacc := Sys.actsAll_accepted hr
  have hrec := Sys.actsAll_received hr
  -- what the client got is among its own acts, and the rest is the kernel's
  rw [← hes, ChannelEvent.accepted_ofClient] at hacc
  rw [← hes, ChannelEvent.received_ofClient] at hrec
  rw [hempty] at hrun
  have hreq := hrun.requests_eq
  have hrep := hrun.replies_eq
  refine ⟨es, hrun, hes, hacc, ?_, ?_, hrec⟩
  · exact Sys.channel_of_taken hf.inv.consumed_prefix (hacc ▸ hreq)
  · rw [show es.filterMap ChannelEvent.received = s.reaped from hrec] at hrep
    obtain ⟨rest, hrest⟩ := hf.inv.reaped_prefix
    have hreplies : s.channel.replies = rest := by
      show (s.world.posted.drop s.reaped.length).map (fun p => Completion.ofCqe p.2) = rest
      rw [List.map_drop, ← hrest, List.drop_left]
    rw [hreplies, hrest] at hrep
    exact hrep

theorem ring_refines_channel_wraps :
    ∃ s, Sys.wrapping.run wrappingSubmits = some s ∧ s.channel = Channel.empty ∧
      ∃ es, Channel.Run 2 2 Channel.empty es s.channel ∧
        es.filter ChannelEvent.ofClient = [.send Sqe.nop true,
          .send (Sqe.nop.withUserData 7) true, .send Sqe.nop false] := by
  have heval : (Sys.wrapping.run wrappingSubmits).map (fun s => (s.channel.requests,
      s.channel.replies)) = some ([], []) := by decide +kernel
  have hacts : Sys.actsAll wrappingSubmits Sys.wrapping = [.send Sqe.nop true,
      .send (Sqe.nop.withUserData 7) true, .send Sqe.nop false] := by decide +kernel
  obtain ⟨s, hrun, hch⟩ := Option.map_eq_some_iff.mp heval
  obtain ⟨es, hes, hclient, -⟩ := ring_refines_channel _ _ _ _ _ _ _ wrappingSubmits s hrun
  refine ⟨s, hrun, ?_, es, hes, hclient.trans hacts⟩
  cases hc : s.channel
  rw [hc] at hch
  cases hch
  rfl

/-! ### The promise of `sq_space_left` -/

/-- The action is a `push`. -/
def Action.isPush : Action → Bool
  | .call (.push _) _ => true
  | _ => false

/-- `sq_space_left` on whichever handle has it. -/
theorem Handles.sqSpaceLeft_run {v : View} {hs hs' : Handles} {w w' : World}
    {p : RingProg (Option UInt32 × Handles)} {rs : List KRound} {out : Option UInt32}
    (h : RingAt v w) (ht : hs.Tracks v) (hp : hs.sqSpaceLeft = some p)
    (hr : p.run ringMachine rs w = some ((out, hs'), w')) :
    hs' = hs ∧ RingAt v w' ∧ ∃ x : UInt32, out = some x ∧
      x.toNat + v.written.length = v.params.sq.size + w'.consumed.length := by
  rcases onSq_run hp hr with ⟨r, r', rfl, rfl, hrun⟩ | ⟨s, s', c, rfl, rfl, hrun⟩
  · obtain ⟨out', hrun', hx⟩ := Prog.run_map.mp hrun
    cases hx
    exact ⟨rfl, Submitter.sqSpaceLeft_run h ht.sq hrun'⟩
  · obtain ⟨out', hrun', hx⟩ := Prog.run_map.mp hrun
    cases hx
    exact ⟨rfl, Submitter.sqSpaceLeft_run h (ht.1 s rfl) hrun'⟩

namespace Sys

theorem acts_sends (s : Sys) (a : Action) :
    (s.acts a).countP ChannelEvent.isSend ≤ if a.isPush = true then 1 else 0 := by
  cases a with
  | kernel k => exact Nat.zero_le _
  | call c rs =>
      cases c with
      | push sqe =>
          show (s.acts (.call (.push sqe) rs)).countP ChannelEvent.isSend ≤ 1
          unfold acts
          dsimp only
          split
          · exact Nat.le_refl 1
          · exact Nat.zero_le 1
      | complete =>
          show (s.acts (.call .complete rs)).countP ChannelEvent.isSend ≤ 0
          unfold acts
          dsimp only
          split <;> exact Nat.le_refl 0
      | _ => exact Nat.zero_le _

/-- A run sends no more than it has pushes. -/
theorem actsAll_sends (as : List Action) (s : Sys) :
    (actsAll as s).countP ChannelEvent.isSend ≤ as.countP Action.isPush := by
  induction as generalizing s with
  | nil => exact Nat.le_refl 0
  | cons a as ih =>
      rw [List.countP_cons]
      cases hs : s.step a with
      | none => simp [actsAll, hs]
      | some s1 =>
          have hone := s.acts_sends a
          have hrest := ih s1
          rw [actsAll_cons hs, List.countP_append]
          omega

end Sys

/-- What `sq_space_left` says holds until that many pushes were made, whatever else is called
and whatever the kernel does. -/
theorem space_left_kept (params : RingParams) (resources : RingResources)
    (sqStart cqStart : UInt32) (sqArray : Nat → UInt32) (sqes : Nat → Sqe) (cqes : Nat → Cqe)
    (as : List Action) (s : Sys)
    (hr : (Sys.init params resources sqStart cqStart sqArray sqes cqes).run as = some s)
    (rs : List KRound) (p : RingProg (Option UInt32 × Handles)) (x : UInt32) (hs' : Handles)
    (w' : World) (hp : s.handles.sqSpaceLeft = some p)
    (hrun : p.run ringMachine rs s.world = some ((some x, hs'), w'))
    (bs : List Action) (s' : Sys)
    (hr' : Sys.run bs { s with world := w', handles := hs' } = some s')
    (hcount : bs.countP Action.isPush ≤ x.toNat) :
    ∀ sqe ok, ChannelEvent.send sqe ok ∈ Sys.actsAll bs { s with world := w', handles := hs' } →
      ok = true := by
  obtain ⟨v, hf, -⟩ := (Sys.init_inv params resources sqStart cqStart sqArray sqes
    cqes).run hr
  have h := hf.inv
  obtain ⟨rfl, hw, y, hy, hroom⟩ := Handles.sqSpaceLeft_run h.ring h.tracks hp hrun
  cases hy
  have hinv : Sys.Inv v { s with world := w' } :=
    ⟨hw, h.tracks, h.accepted, h.reaped, h.shares⟩
  obtain ⟨es, hes, hclient⟩ := hinv.simulates_run hr'
  have hsends := Sys.actsAll_sends bs { s with world := w' }
  rw [← hclient, ChannelEvent.isSend_ofClient] at hsends
  -- the queue holds what was accepted and not read, and the rest of it is `x`
  have hlen : (Sys.channel { s with world := w' }).requests.length
      = s.accepted.length - w'.consumed.length := List.length_drop
  have hle := (hw.served).1.length_le
  rw [← h.accepted] at hroom hle
  intro sqe ok hmem
  rw [← hclient] at hmem
  exact hes.sends_accepted (by omega) sqe ok (ChannelEvent.mem_ofClient hmem)

/-- One push is left of two; a reap and a `submit` come before it. -/
def lastPush : List Action :=
  [.call .complete [.quiet],
    .call .submit [.quiet, .entered ⟨.ok 1, []⟩, .quiet],
    .call (.push (Sqe.nop.withUserData 7)) [.quiet, .quiet]]

theorem space_left_kept_lastPush :
    ∃ s p hs' w', Sys.wrapping.run (wrappingSubmits.take 1) = some s ∧
      s.handles.sqSpaceLeft = some p ∧
      p.run ringMachine [KRound.quiet] s.world = some ((some 1, hs'), w') ∧
      ∀ sqe ok, ChannelEvent.send sqe ok
          ∈ Sys.actsAll lastPush { s with world := w', handles := hs' } → ok = true := by
  have heval : ((Sys.wrapping.run (wrappingSubmits.take 1)).bind fun s =>
      s.handles.sqSpaceLeft.bind fun p => (p.run ringMachine [KRound.quiet] s.world).bind fun x =>
        (Sys.run lastPush { s with world := x.2, handles := x.1.2 }).map fun _ => x.1.1)
      = some (some 1) := by decide +kernel
  obtain ⟨s, hs, heval⟩ := Option.bind_eq_some_iff.mp heval
  obtain ⟨p, hp, heval⟩ := Option.bind_eq_some_iff.mp heval
  obtain ⟨⟨⟨out, hs'⟩, w'⟩, hrun, heval⟩ := Option.bind_eq_some_iff.mp heval
  obtain ⟨s', hr', rfl⟩ := Option.map_eq_some_iff.mp heval
  exact ⟨s, p, hs', w', hs, hp, hrun, space_left_kept _ _ _ _ _ _ _ _ s hs _ p 1 hs' w' hp hrun
    lastPush s' hr' (by decide)⟩

end Ququmatz
