import Ququmatz.Owned.Custody
import Ququmatz.Owned.Kinds

/-!
# `Ququmatz.Proofs.Owned.Custody`: memory that the kernel may be using is nobody else's

`Custody.Does` says once what a step can do to the memory, and every invariant is proved from it.
`Does.move` maps a step to a move of `Ququmatz.Lib.Loans`, so that the memory is conserved and its
blocks stay disjoint in every run, whatever the caller does (`Tracked`). What needs a careful caller
is the third part: a ticket is redeemed only when its request is over, so that the memory of a
request in flight is still in its ticket or leaked (`Kept`). `custody` puts the two together.
-/

set_option autoImplicit false

namespace Ququmatz

open Lib

variable {ι : Type} {K : ι → RequestKind}

/-- To stamp the id that is there already changes nothing. -/
theorem Sqe.withUserData_self {sqe : Sqe} {u : UInt64} (h : sqe.userData = u) :
    sqe.withUserData u = sqe := by
  subst h
  rfl

namespace OwnedSys

variable {B R : Type} {N : Nat} {s s' : OwnedSys B R N}

/-- A redemption, at a ticket and a receipt that are there. -/
theorem redeem_eq {i j : Nat} {h : Held B R N} {r : Receipt} (hh : s.tickets[i]? = some h)
    (hr : s.receipts[j]? = some r) :
    s.redeem i j =
      if h.ticket.accepts r then
        some { s with tickets := s.tickets.eraseIdx i, receipts := s.receipts.eraseIdx j }
      else some s := by
  unfold redeem
  rw [hh, hr]

theorem reap_accepted {rss : List (List KRound)} {receipt : Option Receipt}
    (h : reap rss s = some (receipt, s')) : s.sys.accepted <+: s'.sys.accepted := by
  induction rss generalizing s with
  | nil => cases h
  | cons rs rss ih =>
      obtain ⟨event, s1, he, hcase⟩ := reap_cons h
      have hprefix := (Sys.step_advance (reapEvent_eq he).1).accepted
      rcases hcase with ⟨-, rfl⟩ | ⟨-, hrest⟩
      · exact hprefix
      · exact hprefix.trans (ih hrest)

theorem reap_tickets {rss : List (List KRound)} {receipt : Option Receipt}
    (h : reap rss s = some (receipt, s')) : s'.tickets = s.tickets := by
  induction rss generalizing s with
  | nil => cases h
  | cons rs rss ih =>
      obtain ⟨event, s1, he, hcase⟩ := reap_cons h
      have hsame := (reapEvent_eq he).2.1
      rcases hcase with ⟨-, rfl⟩ | ⟨-, hrest⟩
      · exact hsame
      · exact (ih hrest).trans hsame

/-- What was accepted stays accepted, at its place. -/
theorem step_accepted {a : OwnedAction B R N} (h : s.step a = some s') :
    s.sys.accepted <+: s'.sys.accepted := by
  cases a with
  | inner a =>
      obtain ⟨sys, hs, rfl⟩ := Option.map_eq_some_iff.mp h
      exact (Sys.step_advance hs).accepted
  | splitOwned ring rs => exact (Sys.step_advance (splitOwned_eq h).1).accepted
  | push request rs =>
      obtain ⟨_, _, _, _, -, -, hs, -⟩ := push_eq h
      exact (Sys.step_advance hs).accepted
  | reapEvent rs =>
      obtain ⟨⟨event, s1⟩, he, rfl⟩ := Option.map_eq_some_iff.mp h
      exact (Sys.step_advance (reapEvent_eq he).1).accepted
  | reap rss =>
      obtain ⟨⟨receipt, s1⟩, hr, rfl⟩ := Option.map_eq_some_iff.mp h
      have hprefix := reap_accepted hr
      exact hprefix
  | redeem i j =>
      simp only [step, redeem] at h
      split at h
      · split at h <;> cases h <;> exact List.prefix_rfl
      · cases h
  | dropTicket i =>
      cases h
      exact List.prefix_rfl
  | dropReceipt i =>
      cases h
      exact List.prefix_rfl

/-- A step that spares the tickets leaves them as they are. -/
theorem tickets_of_spares {a : OwnedAction B R N} (ha : a.sparesTickets = true)
    (h : s.step a = some s') : s'.tickets = s.tickets := by
  cases a with
  | inner a =>
      obtain ⟨sys, -, rfl⟩ := Option.map_eq_some_iff.mp h
      rfl
  | splitOwned ring rs => exact (splitOwned_eq h).2.1
  | reapEvent rs =>
      obtain ⟨⟨event, s1⟩, he, rfl⟩ := Option.map_eq_some_iff.mp h
      exact (reapEvent_eq he).2.1
  | reap rss =>
      obtain ⟨⟨receipt, s1⟩, hr, rfl⟩ := Option.map_eq_some_iff.mp h
      have hsame := reap_tickets hr
      exact hsame
  | dropReceipt i =>
      cases h
      rfl
  | push request rs => cases ha
  | redeem i j => cases ha
  | dropTicket i => cases ha

end OwnedSys

namespace Taken

variable (t : Taken K)

theorem memory_eq : t.memory = (K t.kind).holds t.request :=
  (K t.kind).keeps_intoPending t.request t.ring t.id

theorem stamped : t.sqe.withUserData t.id.raw = t.sqe :=
  Sqe.withUserData_self ((K t.kind).userData_intoPending t.request t.ring t.id)

theorem named_inside (h : (K t.kind).Sound t.request) : Range.AllInside t.named t.memory := by
  rw [memory_eq]
  exact (K t.kind).named_inside t.request t.ring t.id h

end Taken

namespace Custody

variable {s s' : Custody K}

/-! ### What a step does -/

/-- The effects of a step, each with its guard. A step of the owned ring that leaves the tickets as
they are is one of `other`, a refused push or a receipt of another request. -/
inductive Does (s : Custody K) : CustodyAction K → Custody K → Prop
  | allocate {block : Range} (fresh : ∀ x ∈ s.loans.all, block.Disjoint x) :
      Does s (.allocate block)
        { s with hand := block :: s.hand, allocated := s.allocated ++ [block] }
  | free {i : Nat} {block : Range} (hblock : s.hand[i]? = some block) :
      Does s (.free i) { s with hand := s.hand.eraseIdx i, freed := s.freed ++ [block] }
  | prepare {k : ι} {q : (K k).Prepared} (hhand : ((K k).holds q).Subperm s.hand) :
      Does s (.prepare k q)
        { s with hand := s.hand.diff ((K k).holds q), requests := s.requests ++ [⟨k, q⟩] }
  | takeApart {i : Nat} {x : (k : ι) × (K k).Prepared} (hx : s.requests[i]? = some x) :
      Does s (.takeApart i)
        { s with hand := s.hand ++ (K x.1).holds x.2, requests := s.requests.eraseIdx i }
  | ring {a : CustodyAction K} {b : OwnedAction Empty Empty 0} {own : OwnedSys Empty Empty 0}
      (hb : s.ownAction a = some b) (hstep : s.own.step b = some own)
      (hsame : own.tickets = s.own.tickets) : Does s a { s with own := own }
  | push {i : Nat} {rs : List KRound} {t : Taken K} {own : OwnedSys Empty Empty 0}
      (ht : s.attempt i = some t) (hstep : s.own.step (.push (.other t.sqe) rs) = some own)
      (hacc : own.sys.accepted = s.own.sys.accepted ++ [t.sqe])
      (hticket : own.tickets = s.own.tickets ++ [t.held]) :
      Does s (.push i rs)
        { s with
          own := own
          requests := s.requests.eraseIdx i
          tickets := s.tickets ++ [t]
          taken := s.taken ++ [t] }
  | redeem {i j : Nat} {t : Taken K} {r : Receipt} {back : List Range}
      {own : OwnedSys Empty Empty 0} (ht : s.tickets[i]? = some t) (hr : r ∈ s.own.receipts)
      (hown : r.belongsTo t.ring t.id = true) (hback : back = t.memory)
      (hstep : s.own.step (.redeem i j) = some own)
      (hticket : own.tickets = s.own.tickets.eraseIdx i) :
      Does s (.redeem i j)
        { s with own := own, hand := s.hand ++ back, tickets := s.tickets.eraseIdx i }
  | dropTicket {i : Nat} {t : Taken K} {own : OwnedSys Empty Empty 0}
      (ht : s.tickets[i]? = some t) (hstep : s.own.step (.dropTicket i) = some own) :
      Does s (.dropTicket i)
        { s with own := own, tickets := s.tickets.eraseIdx i, leaked := s.leaked ++ [t] }

/-- The request of an attempt is one of those that are not queued. -/
theorem attempt_eq {i : Nat} {t : Taken K} (h : s.attempt i = some t) :
    s.requests[i]? = some ⟨t.kind, t.request⟩ ∧ t.slot = s.own.sys.accepted.length ∧
      ∃ ids, s.own.owner = some (t.ring, ids) ∧ t.id = ids.next.1 := by
  unfold attempt at h
  split at h
  · next x ring ids hx howner =>
      cases h
      exact ⟨hx, rfl, ids, howner, rfl⟩
  · cases h

theorem ownAction_push {i : Nat} {t : Taken K} (h : s.attempt i = some t) (rs : List KRound) :
    s.ownAction (.push i rs) = some (.push (.other t.sqe) rs) := by
  simp only [ownAction, h, Option.map_some]

theorem does_push {i : Nat} {rs : List KRound} (h : s.push i rs = some s') :
    Does s (.push i rs) s' := by
  obtain ⟨t, ht, h⟩ := Option.bind_eq_some_iff.mp h
  obtain ⟨own, hown, h⟩ := Option.map_eq_some_iff.mp h
  obtain ⟨hreq, hslot, ids, howner, hid⟩ := attempt_eq ht
  obtain ⟨ring, ids', sqe, ticket, howner', hpend, -, -, hcase⟩ := OwnedSys.push_eq hown
  rw [howner] at howner'
  cases howner'
  -- the ring stamps the SQE with the id that it carries already
  rw [← hid] at hpend
  have hpair : (t.sqe.withUserData t.id.raw, OwnedTicket.other t.ring t.id) = (sqe, ticket) := hpend
  rw [t.stamped] at hpair
  cases hpair
  rcases hcase with ⟨-, hsame⟩ | ⟨hacc, hnew⟩
  · -- refused: the request is the one it was
    rw [if_pos (by rw [hsame])] at h
    subst h
    have hset : s.requests.set i ⟨t.kind, (K t.kind).reclaim t.request t.pending⟩ = s.requests := by
      unfold Taken.pending
      rw [(K t.kind).reclaim_intoPending]
      obtain ⟨hlt, hget⟩ := List.getElem?_eq_some_iff.mp hreq
      rw [← hget]
      exact List.set_getElem_self hlt
    rw [hset]
    have hstep : s.own.step (.push (.other t.sqe) rs) = some own := hown
    exact .ring (ownAction_push ht rs) hstep hsame
  · rw [if_neg (by rw [hnew, List.length_append, List.length_singleton]; omega)] at h
    subst h
    rw [← hslot] at hnew
    exact .push ht hown hacc hnew

theorem does_redeem (htickets : s.own.tickets = s.tickets.map Taken.held) {i j : Nat}
    (h : s.redeem i j = some s') : Does s (.redeem i j) s' := by
  unfold redeem at h
  split at h
  · next t r ht hr =>
      obtain ⟨own, hown, h⟩ := Option.map_eq_some_iff.mp h
      have hstep : s.own.step (.redeem i j) = some own := hown
      have hheld : s.own.tickets[i]? = some t.held := by
        rw [htickets, List.getElem?_map, ht]
        rfl
      rw [OwnedSys.redeem_eq hheld hr] at hown
      unfold Taken.pending at h
      rcases (K t.kind).redeem_cases t.request t.ring t.id r with
        ⟨hbelongs, done, hredeem, hback⟩ | ⟨hbelongs, hredeem⟩
      · -- the ring takes the receipt for the same reason as the ticket
        rw [if_pos (show t.held.ticket.accepts r = true from hbelongs)] at hown
        rw [hredeem] at h
        cases hown
        subst h
        exact .redeem ht (List.mem_of_getElem? hr) hbelongs (hback.trans t.memory_eq.symm) hstep rfl
      · rw [if_neg (show ¬ t.held.ticket.accepts r = true from ne_true_of_eq_false hbelongs)]
          at hown
        rw [hredeem] at h
        cases hown
        subst h
        exact .ring rfl hstep rfl
  · cases h

/-- Every step does one of these things. -/
theorem does_of_step (htickets : s.own.tickets = s.tickets.map Taken.held) {a : CustodyAction K}
    (h : s.step a = some s') : Does s a s' := by
  cases a with
  | allocate block =>
      simp only [step, Option.ite_none_right_eq_some] at h
      obtain ⟨hfresh, h⟩ := h
      cases h
      exact .allocate hfresh
  | free i =>
      obtain ⟨block, hblock, rfl⟩ := Option.map_eq_some_iff.mp h
      exact .free hblock
  | prepare k q =>
      simp only [step, Option.ite_none_right_eq_some] at h
      obtain ⟨hhand, h⟩ := h
      cases h
      exact .prepare hhand
  | takeApart i =>
      obtain ⟨x, hx, rfl⟩ := Option.map_eq_some_iff.mp h
      exact .takeApart hx
  | push i rs => exact does_push h
  | redeem i j => exact does_redeem htickets h
  | dropTicket i =>
      simp only [step] at h
      split at h
      · next t own ht hown =>
          cases h
          exact .dropTicket ht hown
      · cases h
  | other a =>
      simp only [step, Option.ite_none_right_eq_some] at h
      obtain ⟨ha, h⟩ := h
      obtain ⟨own, hown, rfl⟩ := Option.map_eq_some_iff.mp h
      exact .ring rfl hown (OwnedSys.tickets_of_spares ha hown)

/-- The owned ring makes its own step, or none. -/
theorem Does.own {a : CustodyAction K} (h : Does s a s') :
    (s.ownAction a = none ∧ s'.own = s.own) ∨
      ∃ b, s.ownAction a = some b ∧ s.own.step b = some s'.own := by
  cases h with
  | ring hb hstep _ => exact Or.inr ⟨_, hb, hstep⟩
  | push ht hstep _ _ => exact Or.inr ⟨_, ownAction_push ht _, hstep⟩
  | redeem _ _ _ _ hstep _ => exact Or.inr ⟨_, rfl, hstep⟩
  | dropTicket _ hstep => exact Or.inr ⟨_, rfl, hstep⟩
  | _ => exact Or.inl ⟨rfl, rfl⟩

/-! ### The memory moves -/

/-- The memory of a request, and that of the others that are not queued. -/
theorem prepared_eraseIdx {i : Nat} {x : (k : ι) × (K k).Prepared} (hx : s.requests[i]? = some x) :
    ((K x.1).holds x.2 ++ (s.requests.eraseIdx i).flatMap fun y => (K y.1).holds y.2).Perm
      s.prepared := by
  obtain ⟨hlt, rfl⟩ := List.getElem?_eq_some_iff.mp hx
  have hperm := (List.getElem_cons_eraseIdx_perm hlt).flatMap_right fun y => (K y.1).holds y.2
  rw [List.flatMap_cons] at hperm
  exact hperm

/-- The memory of a step is one move of the loans. What came is new in the history of the
allocator, and what left is new in that of the releases. -/
theorem Does.move {a : CustodyAction K} (h : Does s a s') :
    ∃ new gone, Loans.Move Range.Disjoint s.loans new gone s'.loans ∧
      s'.allocated = s.allocated ++ new ∧ s'.freed = s.freed ++ gone := by
  cases h with
  | @allocate block fresh => exact ⟨[block], [], .acquire fresh, rfl, (List.append_nil _).symm⟩
  | @free i block hblock =>
      refine ⟨[], [block], .release ?_, (List.append_nil _).symm, rfl⟩
      obtain ⟨hlt, rfl⟩ := List.getElem?_eq_some_iff.mp hblock
      exact (List.getElem_cons_eraseIdx_perm hlt).append_right _
  | @prepare k q hhand =>
      refine ⟨[], [], .arrange ?_, (List.append_nil _).symm, (List.append_nil _).symm⟩
      simp only [prepared, List.flatMap_append, List.flatMap_singleton]
      -- the blocks that left the hand are those of the last request
      have hdiff := List.subperm_append_diff_self_of_count_le (List.subperm_ext_iff.mp hhand)
      refine List.Perm.trans ?_ (hdiff.append_right _)
      refine ((List.perm_append_comm.append_left _).trans ?_)
      rw [← List.append_assoc]
      exact List.perm_append_comm.append_right _
  | @takeApart i x hx =>
      refine ⟨[], [], .arrange ?_, (List.append_nil _).symm, (List.append_nil _).symm⟩
      show (s.hand ++ (K x.1).holds x.2 ++ (s.requests.eraseIdx i).flatMap _).Perm _
      rw [List.append_assoc]
      exact (prepared_eraseIdx hx).append_left _
  | ring _ _ _ =>
      exact ⟨[], [], .arrange (List.Perm.refl _), (List.append_nil _).symm,
        (List.append_nil _).symm⟩
  | @push i rs t own ht hstep hacc hticket =>
      refine ⟨[], [], ?_, (List.append_nil _).symm, (List.append_nil _).symm⟩
      have hlend := @Loans.Move.lend _ Range.Disjoint s.loans
        (s.hand ++ (s.requests.eraseIdx i).flatMap fun y => (K y.1).holds y.2) t.memory ?_
      · show Loans.Move _ _ _ _ (Loans.mk _ ((s.tickets ++ [t]).map Taken.memory) _)
        rw [List.map_append]
        exact hlend
      · rw [t.memory_eq, List.append_assoc]
        have hrest := prepared_eraseIdx (attempt_eq ht).1
        exact (List.perm_append_comm.trans hrest).append_left _
  | @redeem i j t r back own ht hr hown hback hstep hticket =>
      refine ⟨[], [], ?_, (List.append_nil _).symm, (List.append_nil _).symm⟩
      have hsettle := @Loans.Move.settle _ Range.Disjoint s.loans
        (s.hand ++ back ++ s.prepared) t.memory i ?_ ?_
      · show Loans.Move _ _ _ _ (Loans.mk _ ((s.tickets.eraseIdx i).map Taken.memory) _)
        rw [← List.eraseIdx_map]
        exact hsettle
      · show (s.tickets.map Taken.memory)[i]? = some t.memory
        rw [List.getElem?_map, ht]
        rfl
      · rw [hback]
        show (s.hand ++ t.memory ++ s.prepared).Perm (s.hand ++ s.prepared ++ t.memory)
        rw [List.append_assoc, List.append_assoc]
        exact List.perm_append_comm.append_left _
  | @dropTicket i t own ht hstep =>
      refine ⟨[], [], ?_, (List.append_nil _).symm, (List.append_nil _).symm⟩
      have hforfeit := @Loans.Move.forfeit _ Range.Disjoint s.loans t.memory i ?_
      · show Loans.Move _ _ _ _ (Loans.mk _ ((s.tickets.eraseIdx i).map Taken.memory)
          ((s.leaked ++ [t]).map Taken.memory))
        rw [← List.eraseIdx_map, List.map_append]
        exact hforfeit
      · show (s.tickets.map Taken.memory)[i]? = some t.memory
        rw [List.getElem?_map, ht]
        rfl

/-! ### What every run keeps -/

/-- The tickets are those that the owned ring knows, each accepted SQE is at its place, no two
blocks overlap, and all that was allocated is somewhere or was freed. -/
structure Tracked (s : Custody K) : Prop where
  tickets : s.own.tickets = s.tickets.map Taken.held
  accepted : ∀ t ∈ s.taken, s.own.sys.accepted[t.slot]? = some t.sqe
  apart : s.loans.Apart Range.Disjoint
  balance : (s.loans.all ++ s.freed).Perm s.allocated

theorem Tracked.step (h : s.Tracked) {a : CustodyAction K} (hs : s.step a = some s') :
    s'.Tracked := by
  have hdoes := does_of_step h.tickets hs
  obtain ⟨new, gone, hmove, hnew, hgone⟩ := hdoes.move
  have hprefix : s.own.sys.accepted <+: s'.own.sys.accepted := by
    rcases hdoes.own with ⟨-, hsame⟩ | ⟨b, -, hstep⟩
    · rw [hsame]
    · exact OwnedSys.step_accepted hstep
  have hkeep : ∀ t ∈ s.taken, s'.own.sys.accepted[t.slot]? = some t.sqe := by
    intro t ht
    obtain ⟨u, hu⟩ := hprefix
    have hold := h.accepted t ht
    rw [← hu, List.getElem?_append_left (List.getElem?_eq_some_iff.mp hold).1]
    exact hold
  refine ⟨?_, ?_, hmove.apart Range.Disjoint.symm h.apart, ?_⟩
  · cases hdoes with
    | ring _ _ hsame => exact hsame.trans h.tickets
    | push _ _ _ hticket => rw [hticket, h.tickets, List.map_append]; rfl
    | redeem _ _ _ _ _ hticket => rw [hticket, h.tickets, List.eraseIdx_map]
    | dropTicket _ hstep =>
        cases hstep
        show s.own.tickets.eraseIdx _ = _
        rw [h.tickets, List.eraseIdx_map]
    | _ => exact h.tickets
  · cases hdoes with
    | @push i rs t own ht hstep hacc hticket =>
        intro u hu
        rcases List.mem_append.mp hu with hu | hu
        · exact hkeep u hu
        · rw [List.mem_singleton.mp hu]
          show own.sys.accepted[t.slot]? = some t.sqe
          rw [hacc, (attempt_eq ht).2.1, List.getElem?_concat_length]
    | _ => exact hkeep
  · rw [hnew, hgone, ← List.append_assoc]
    have hbalance := hmove.balance
    calc (s'.loans.all ++ s.freed ++ gone).Perm (s'.loans.all ++ gone ++ s.freed) := by
          rw [List.append_assoc, List.append_assoc]
          exact List.perm_append_comm.append_left _
      List.Perm _ (new ++ s.loans.all ++ s.freed) := hbalance.append_right _
      List.Perm _ (new ++ s.allocated) := by
          rw [List.append_assoc]
          exact h.balance.append_left _
      List.Perm _ (s.allocated ++ new) := List.perm_append_comm

theorem isRun : IsRun (Custody.step (K := K)) Custody.run := ⟨fun _ => rfl, fun _ _ _ => rfl⟩

theorem Tracked.run (h : s.Tracked) {as : List (CustodyAction K)} (hr : s.run as = some s') :
    s'.Tracked :=
  isRun.keeps (fun _ _ _ ht hs => ht.step hs) h hr

theorem ofSys_tracked (sys : Sys) : (ofSys sys : Custody K).Tracked where
  tickets := rfl
  accepted := fun t ht => by cases ht
  apart := List.Pairwise.nil
  balance := List.Perm.refl _

/-- The ring's histories grow. -/
theorem Does.grows {a : CustodyAction K} (h : Does s a s') :
    s.own.sys.world.Grows s'.own.sys.world := by
  rcases h.own with ⟨-, hsame⟩ | ⟨b, -, hstep⟩
  · rw [hsame]
    exact World.Grows.refl _
  · exact OwnedSys.step_grows hstep

theorem Tracked.run_grows (h : s.Tracked) {as : List (CustodyAction K)}
    (hr : s.run as = some s') : s.own.sys.world.Grows s'.own.sys.world := by
  have hkeeps := isRun.keeps
    (P := fun t : Custody K => t.Tracked ∧ s.own.sys.world.Grows t.own.sys.world)
    (fun t _ t' ht hs => ⟨ht.1.step hs, ht.2.trans (does_of_step ht.1.tickets hs).grows⟩)
    ⟨h, World.Grows.refl _⟩ hr
  exact hkeeps.2

/-! ### What a careful run keeps -/

/-- The memory of a request in flight is in its ticket or leaked, and the request is as its
constructor made it. -/
structure Kept (s : Custody K) : Prop where
  inv : s.own.Inv
  kept : ∀ t, s.InFlight t → t ∈ s.tickets ∨ t ∈ s.leaked
  sound : ∀ t ∈ s.taken, (K t.kind).Sound t.request

/-- A request that was in flight before a step is not over before it. -/
theorem InFlight.before {a : CustodyAction K} (h : Does s a s') {t : Taken K}
    (ht : s'.InFlight t) (hmem : t ∈ s.taken) : s.InFlight t := by
  refine ⟨hmem, Bool.eq_false_iff.mpr fun hfin => ?_⟩
  have hafter := World.finished_mono h.grows.posted hfin
  rw [ht.2] at hafter
  cases hafter

/-- A ticket is used up only when its request is over. -/
theorem Does.keeps {a : CustodyAction K} (h : Does s a s')
    (htickets : s.own.tickets = s.tickets.map Taken.held) (hauth : s.own.ReceiptsAuthentic)
    (hkept : ∀ t, s.InFlight t → t ∈ s.tickets ∨ t ∈ s.leaked) :
    ∀ t, s'.InFlight t → t ∈ s'.tickets ∨ t ∈ s'.leaked := by
  have hbefore := fun (t : Taken K) (ht : s'.InFlight t) (hmem : t ∈ s.taken) =>
    hkept t (ht.before h hmem)
  intro t ht
  cases h with
  | push _ _ _ _ =>
      rcases List.mem_append.mp ht.1 with hmem | hmem
      · exact (hbefore t ht hmem).imp (List.mem_append_left _) id
      · exact Or.inl (List.mem_append_right _ hmem)
  | @redeem i j u r back own hu hr hown hback hstep hticket =>
      -- the ticket that was redeemed is that of a request that is over
      have hfinished : s.own.sys.world.finished u.slot = true := by
        refine hauth u.held ?_ r hr hown
        rw [htickets]
        exact List.mem_map_of_mem (List.mem_of_getElem? hu)
      rcases hbefore t ht ht.1 with hmem | hmem
      · obtain ⟨hlt, rfl⟩ := List.getElem?_eq_some_iff.mp hu
        rw [← (List.getElem_cons_eraseIdx_perm hlt).mem_iff, List.mem_cons] at hmem
        rcases hmem with rfl | hmem
        · have hafter := World.finished_mono (OwnedSys.step_grows hstep).posted hfinished
          rw [ht.2] at hafter
          cases hafter
        · exact Or.inl hmem
      · exact Or.inr hmem
  | @dropTicket i u own hu hstep =>
      rcases hbefore t ht ht.1 with hmem | hmem
      · obtain ⟨hlt, rfl⟩ := List.getElem?_eq_some_iff.mp hu
        rw [← (List.getElem_cons_eraseIdx_perm hlt).mem_iff, List.mem_cons] at hmem
        rcases hmem with rfl | hmem
        · exact Or.inr (List.mem_append_right _ (List.mem_singleton_self _))
        · exact Or.inl hmem
      · exact Or.inr (List.mem_append_left _ hmem)
  | _ => exact hbefore t ht ht.1

/-- Every ticket stays that of a request that was accepted. -/
theorem Does.filed {a : CustodyAction K} (h : Does s a s')
    (hf : ∀ t ∈ s.tickets, t ∈ s.taken) : ∀ t ∈ s'.tickets, t ∈ s'.taken := by
  intro t ht
  cases h with
  | push _ _ _ _ =>
      rcases List.mem_append.mp ht with ht | ht
      · exact List.mem_append_left _ (hf t ht)
      · exact List.mem_append_right _ ht
  | redeem _ _ _ _ _ _ => exact hf t (List.mem_of_mem_eraseIdx ht)
  | dropTicket _ _ => exact hf t (List.mem_of_mem_eraseIdx ht)
  | _ => exact hf t ht

/-- What was accepted stays in the history. -/
theorem Does.taken {a : CustodyAction K} (h : Does s a s') : s.taken ⊆ s'.taken := by
  cases h with
  | push _ _ _ _ => exact List.subset_append_left _ _
  | _ => exact List.Subset.refl _

/-- A ticket that is there after a step was there before, unless its request was only accepted. -/
theorem Does.ticket_before {a : CustodyAction K} (h : Does s a s') {t : Taken K}
    (ht : t ∈ s'.tickets) (hold : t.slot < s.own.sys.accepted.length) : t ∈ s.tickets := by
  cases h with
  | @push i rs u own hu _ _ _ =>
      rcases List.mem_append.mp ht with ht | ht
      · exact ht
      · rw [List.mem_singleton.mp ht, (attempt_eq hu).2.1] at hold
        omega
  | redeem _ _ _ _ _ _ => exact List.mem_of_mem_eraseIdx ht
  | dropTicket _ _ => exact List.mem_of_mem_eraseIdx ht
  | _ => exact ht

theorem Kept.step (h : s.Kept) (htracked : s.Tracked) {a : CustodyAction K}
    (hc : s.careful a = true) (hs : s.step a = some s') (hclosed : s'.own.Closed) : s'.Kept := by
  have hdoes := does_of_step htracked.tickets hs
  refine ⟨?_, hdoes.keeps htracked.tickets h.inv.authentic h.kept, ?_⟩
  · rcases hdoes.own with ⟨-, hsame⟩ | ⟨b, hb, hstep⟩
    · rw [hsame]
      exact h.inv
    · rw [careful, hb, Bool.and_eq_true] at hc
      exact h.inv.step hc.2 hstep hclosed
  · cases hdoes with
    | @push i rs u own hu _ _ _ =>
        simp only [careful, pushesSound, hu, Option.all_some, Bool.and_eq_true,
          decide_eq_true_eq] at hc
        intro t ht
        rcases List.mem_append.mp ht with hmem | hmem
        · exact h.sound t hmem
        · rw [List.mem_singleton.mp hmem]
          exact hc.1
    | _ => exact h.sound

theorem Kept.run (h : s.Kept) (htracked : s.Tracked) {as : List (CustodyAction K)}
    (hc : carefulRun as s = true) (hr : s.run as = some s') (hclosed : s'.own.Closed) :
    s'.Kept := by
  induction as generalizing s with
  | nil =>
      cases hr
      exact h
  | cons a as ih =>
      obtain ⟨s1, h1, h2⟩ := Option.bind_eq_some_iff.mp hr
      simp only [carefulRun, h1, Bool.and_eq_true] at hc
      have htracked1 := htracked.step h1
      have hclosed1 := hclosed.of_grows (htracked1.run_grows h2)
      exact ih (h.step htracked hc.1 h1 hclosed1) htracked1 hc.2 h2

theorem ofSys_kept (params : RingParams) (resources : RingResources) (sqStart cqStart : UInt32)
    (sqArray : Nat → UInt32) (sqes : Nat → Sqe) (cqes : Nat → Cqe) :
    (ofSys (Sys.init params resources sqStart cqStart sqArray sqes cqes) : Custody K).Kept := by
  refine ⟨⟨Sys.Sound.init params resources sqStart cqStart sqArray sqes cqes, ?_⟩, ?_, ?_⟩
  · intro t ht
    cases ht
  · intro t ht
    cases ht.1
  · intro t ht
    cases ht

/-! ### Safety -/

theorem Kept.safe (h : s.Kept) (htracked : s.Tracked) : s.Safe := by
  -- where the memory of a request in flight is among the lots that are not in hand
  have hlot : ∀ t, s.InFlight t → ∃ i : Nat, s.loans.out[i]? = some t.memory ∧
      (s.tickets ++ s.leaked)[i]? = some t := by
    intro t ht
    obtain ⟨i, hi⟩ := List.mem_iff_getElem?.mp (List.mem_append.mpr (h.kept t ht))
    refine ⟨i, ?_, hi⟩
    show (s.tickets.map Taken.memory ++ s.leaked.map Taken.memory)[i]? = _
    rw [← List.map_append, List.getElem?_map, hi]
    rfl
  have hinside := fun (t : Taken K) (ht : s.InFlight t) => t.named_inside (h.sound t ht.1)
  have hheld : ∀ t, s.InFlight t → ∀ r ∈ t.named, ∀ x ∈ s.loans.held, r.Disjoint x := by
    intro t ht r hr x hx
    obtain ⟨i, hi, -⟩ := hlot t ht
    obtain ⟨block, hblock, hin⟩ := hinside t ht r hr
    have hapart := htracked.apart.held_out Range.Disjoint.symm hx (List.mem_of_getElem? hi) hblock
    exact hapart.inside hin (Or.inr ⟨Nat.le_refl _, Nat.le_refl _⟩)
  refine ⟨fun t ht => htracked.accepted t ht.1, ?_, ?_, ?_, ?_⟩
  · intro t ht r hr
    obtain ⟨i, hi, -⟩ := hlot t ht
    obtain ⟨block, hblock, hin⟩ := hinside t ht r hr
    exact ⟨block, List.mem_flatten.mpr ⟨_, List.mem_of_getElem? hi, hblock⟩, hin⟩
  · exact fun t ht r hr x hx => hheld t ht r hr x (List.mem_append_left _ hx)
  · exact fun t ht r hr x hx => hheld t ht r hr x (List.mem_append_right _ hx)
  · intro t u ht hu hne r hr x hx
    obtain ⟨i, hi, hti⟩ := hlot t ht
    obtain ⟨j, hj, huj⟩ := hlot u hu
    obtain ⟨block, hblock, hin⟩ := hinside t ht r hr
    obtain ⟨block', hblock', hin'⟩ := hinside u hu x hx
    -- requests at different places are different lots
    have hij : i ≠ j := by
      rintro rfl
      rw [hti] at huj
      cases huj
      exact hne rfl
    exact (htracked.apart.out_out Range.Disjoint.symm hi hj hij hblock hblock').inside hin hin'

end Custody

/-! ### The law -/

section Methods

variable [Native] {B R : Type} [StableBuffer B] [StableBuffer R]

/-- The memory of a program over the requests of the push methods, before it has any. -/
def Custody.start (B R : Type) [StableBuffer B] [StableBuffer R] (w : Width) (packed : Bool)
    (sys : Sys) : Custody (PushMethod.kind B R w packed) :=
  Custody.ofSys sys

/-- Whatever the caller does, each block that was allocated is in one place, or was freed, and no
two blocks that are somewhere overlap. -/
theorem memory_conserved (w : Width) (packed : Bool) (sys : Sys)
    (as : List (CustodyAction (PushMethod.kind B R w packed)))
    (s : Custody (PushMethod.kind B R w packed))
    (hr : (Custody.start B R w packed sys).run as = some s) :
    (s.loans.all ++ s.freed).Perm s.allocated ∧ s.loans.all.Pairwise Range.Disjoint :=
  have htracked := (Custody.ofSys_tracked sys).run hr
  ⟨htracked.balance, htracked.apart⟩

/-- In every careful run, memory that the kernel may be using is nobody else's. -/
theorem memory_custody (w : Width) (packed : Bool) (params : RingParams)
    (resources : RingResources) (sqStart cqStart : UInt32) (sqArray : Nat → UInt32)
    (sqes : Nat → Sqe) (cqes : Nat → Cqe)
    (as : List (CustodyAction (PushMethod.kind B R w packed)))
    (s : Custody (PushMethod.kind B R w packed))
    (hr : (Custody.start B R w packed
      (Sys.init params resources sqStart cqStart sqArray sqes cqes)).run as = some s)
    (hclosed : s.own.Closed)
    (hc : Custody.carefulRun as (Custody.start B R w packed
      (Sys.init params resources sqStart cqStart sqArray sqes cqes)) = true) : s.Safe := by
  have htracked : (Custody.start B R w packed
      (Sys.init params resources sqStart cqStart sqArray sqes cqes)).Tracked :=
    Custody.ofSys_tracked _
  have hkept : (Custody.start B R w packed
      (Sys.init params resources sqStart cqStart sqArray sqes cqes)).Kept :=
    Custody.ofSys_kept params resources sqStart cqStart sqArray sqes cqes
  exact (hkept.run htracked hc hr hclosed).safe (htracked.run hr)

end Methods

/-- Storage of a path, away from `onePage`. -/
def tmpPath : OwnedPath .w64 := ⟨⟨0x4000, 16, by decide⟩, 4⟩

section Run

local instance littleEndian : Native := ⟨.little⟩

/-- A ring of two entries. -/
abbrev twoEntryStart : Custody (PushMethod.kind MmapBuffer MmapBuffer .w64 true) :=
  Custody.start MmapBuffer MmapBuffer .w64 true Sys.wrapping

/-- A read and an open are queued, and a block that is in no request is freed. The read completes
and its buffer comes back, while the path stays in the ticket of the open. -/
def readAndOpen : List (CustodyAction (PushMethod.kind MmapBuffer MmapBuffer .w64 true)) :=
  [.other (.splitOwned ⟨7⟩ [.quiet]),
    .allocate ⟨0x10000, 64⟩, .allocate ⟨0x4000, 16⟩, .allocate ⟨0x20000, 16⟩,
    .prepare (.buffers 0)
      (Request.single (Prepared.read ⟨4⟩ onePage 0) : Request MmapBuffer MmapBuffer 0),
    .prepare .openat (PreparedOpen.at .cwd tmpPath ∅ ∅ : PreparedOpen .w64),
    .push 0 [.quiet, .quiet], .push 0 [.quiet, .quiet],
    .free 0,
    .other (.inner (.call .submit [.quiet, .entered ⟨.ok 2, [.post (.request 0) ⟨1, 64, 0⟩]⟩])),
    .other (.reap [[.quiet, .quiet]]),
    .redeem 0 0]

theorem memory_conserved_readAndOpen :
    ∃ s, twoEntryStart.run readAndOpen = some s ∧ s.freed = [⟨0x20000, 16⟩] ∧
      (s.loans.all ++ s.freed).Perm s.allocated ∧ s.loans.all.Pairwise Range.Disjoint := by
  have heval : (twoEntryStart.run readAndOpen).map (fun s => s.freed) = some [⟨0x20000, 16⟩] := by
    decide +kernel
  obtain ⟨s, hrun, hfreed⟩ := Option.map_eq_some_iff.mp heval
  exact ⟨s, hrun, hfreed, memory_conserved .w64 true Sys.wrapping readAndOpen s hrun⟩

/-- The open is in flight, and the buffer of the read is in hand again. -/
theorem memory_custody_readAndOpen :
    ∃ s, twoEntryStart.run readAndOpen = some s ∧
      (s.taken.any fun t => !s.own.sys.world.finished t.slot) = true ∧
      s.hand = [memoryOf onePage] ∧ s.Safe := by
  have heval : (twoEntryStart.run readAndOpen).map
      (fun s => (decide s.own.Closed,
        s.taken.any fun t => !s.own.sys.world.finished t.slot, s.hand))
      = some (true, true, [memoryOf onePage]) := by decide +kernel
  have hcareful : Custody.carefulRun readAndOpen twoEntryStart = true := by decide +kernel
  obtain ⟨s, hrun, heval⟩ := Option.map_eq_some_iff.mp heval
  obtain ⟨hclosed, hopen, hhand⟩ := by simpa only [Prod.mk.injEq] using heval
  exact ⟨s, hrun, hopen, hhand, memory_custody .w64 true _ _ _ _ _ _ _ readAndOpen s hrun
    (of_decide_eq_true hclosed) hcareful⟩

end Run

end Ququmatz
