import Mathlib.Data.List.TakeDrop
import Ququmatz.Proofs.Owned.Plain

/-!
# `Ququmatz.Proofs.Owned.Receipts`: every terminal completion becomes one receipt

What `reap`, `reap_event` and `wait_one` hand out, over whole runs. `receipts_in_order` is about any
caller: the receipts are the terminal completions that were read, one each and in order.
`receipts_complete` is the other half of the law that receipts are authentic: in a program over the
push methods that loses no receipt, a ticket has a receipt that opens it as soon as its terminal
completion was read, and then exactly one (`Receipted`). So memory need not be lost:
`memory_reclaimed` says that such a program can get all of it back.
-/

set_option autoImplicit false

namespace Ququmatz

open Lib

/-- Every `into_pending` puts the ring into the ticket. -/
theorem OwnedRequest.intoPending_ring {B R : Type} {N : Nat} (r : OwnedRequest B R N)
    (ring : RingId) (id : RequestId) : (r.intoPending ring id).2.ring = ring := by
  cases r with
  | owned r => cases r <;> rfl
  | msgRing r => rfl
  | other sqe => rfl

/-! ### What is read -/

/-- Only a `complete` reads a completion. -/
theorem Sys.step_reaped {s s' : Sys} {a : Action} (h : s.step a = some s')
    (ha : ∀ rs, a ≠ .call .complete rs) : s'.reaped = s.reaped := by
  cases a with
  | kernel k =>
      obtain ⟨w', -, rfl⟩ := Option.map_eq_some_iff.mp h
      rfl
  | call c rs =>
      cases c with
      | complete => exact absurd rfl (ha rs)
      | push sqe =>
          obtain ⟨prog, res, hs', w', -, -, rfl⟩ := Sys.exec_eq_some h
          cases res <;> rfl
      | registerPool =>
          simp only [Sys.step, Sys.call, Option.ite_none_right_eq_some] at h
          exact (Sys.exec_unrecorded (by intro _ _; exact ⟨rfl, rfl⟩) h.2).2
      | dropPool =>
          simp only [Sys.step, Sys.call, Option.ite_none_right_eq_some] at h
          exact (Sys.exec_unrecorded (by intro _ _; exact ⟨rfl, rfl⟩) h.2).2
      | _ => exact (Sys.exec_unrecorded (fun _ _ => ⟨rfl, rfl⟩) h).2

/-- The receipt that the completer of `ring` makes of a completion, if it is terminal. -/
def receiptOf (ring : RingId) (cqe : Completion) : Option Receipt :=
  (Event.ofCompletion ring cqe).intoReceipt

namespace OwnedSys

variable {B R : Type} {N : Nat} {s s' : OwnedSys B R N} {ring : RingId} {ids : RequestIdSource}

/-- The step reads a completion through `raw()`. -/
def readsRaw : OwnedAction B R N → Bool
  | .inner (.call .complete _) => true
  | _ => false

/-- The receipts that a step hands out. -/
def handsOut (s : OwnedSys B R N) : OwnedAction B R N → List Receipt
  | .reapEvent rs => ((s.reapEvent rs).bind fun x => x.1.bind Event.intoReceipt).toList
  | .reap rss => ((reap rss s).bind fun x => x.1).toList
  | _ => []

/-- The receipts that a run hands out, oldest first. -/
def handedOut : List (OwnedAction B R N) → OwnedSys B R N → List Receipt
  | [], _ => []
  | a :: as, s =>
      match s.step a with
      | some s' => s.handsOut a ++ handedOut as s'
      | none => []

theorem reapEvent_reads (howner : s.owner = some (ring, ids)) {rs : List KRound}
    {event : Option Event} (h : s.reapEvent rs = some (event, s')) :
    ∃ cqe : Option Completion, event = cqe.map (Event.ofCompletion ring) ∧
      s'.sys.reaped = s.sys.reaped ++ cqe.toList ∧ s'.owner = s.owner := by
  obtain ⟨⟨ring', ids'⟩, howner', h⟩ := Option.bind_eq_some_iff.mp h
  obtain ⟨⟨res, sys⟩, hi, hx⟩ := Option.map_eq_some_iff.mp h
  cases hx
  cases howner.symm.trans howner'
  obtain ⟨-, w, hs, hrec⟩ := Sys.invoke_eq_some hi
  refine ⟨res, rfl, ?_, rfl⟩
  show sys.reaped = s.sys.reaped ++ res.toList
  rw [hrec]
  cases res with
  | some c => rfl
  | none => exact (List.append_nil _).symm

/-- The receipt of an event is that of the completion that was read. -/
theorem toList_receiptOf (ring : RingId) (cqe : Option Completion) :
    ((cqe.map (Event.ofCompletion ring)).bind Event.intoReceipt).toList
      = cqe.toList.filterMap (receiptOf ring) := by
  cases cqe with
  | none => rfl
  | some c =>
      show (receiptOf ring c).toList = [c].filterMap (receiptOf ring)
      cases h : receiptOf ring c <;> simp [h]

/-- `reap` reads completions that are not terminal, and one that is, or all there are. -/
theorem reap_reads (howner : s.owner = some (ring, ids)) {rss : List (List KRound)}
    {receipt : Option Receipt} (h : reap rss s = some (receipt, s')) :
    ∃ read : List Completion, s'.sys.reaped = s.sys.reaped ++ read ∧
      receipt.toList = read.filterMap (receiptOf ring) ∧ s'.owner = s.owner := by
  induction rss generalizing s with
  | nil => cases h
  | cons rs rss ih =>
      obtain ⟨event, s1, he, hcase⟩ := reap_cons h
      obtain ⟨cqe, rfl, hread, howner1⟩ := reapEvent_reads howner he
      have hreceipt := toList_receiptOf ring cqe
      rcases hcase with ⟨rfl, rfl⟩ | ⟨hpart, hrest⟩
      · exact ⟨cqe.toList, hread, hreceipt, howner1⟩
      · -- the event had no receipt, and the loop went on
        obtain ⟨read, hread', hreceipt', howner2⟩ := ih (howner1.trans howner) hrest
        refine ⟨cqe.toList ++ read, ?_, ?_, howner2.trans howner1⟩
        · rw [hread', hread, List.append_assoc]
        · rw [hpart] at hreceipt
          rw [List.filterMap_append, ← hreceipt, hreceipt']
          rfl

/-- The step lemma: what a step hands out are the receipts of what it reads. -/
theorem step_reads {k : Nat} (h : s.Minted k) (howner : s.owner = some (ring, ids))
    {a : OwnedAction B R N} (ha : readsRaw a = false) (hs : s.step a = some s') :
    (∃ ids', s'.owner = some (ring, ids')) ∧ ∃ read : List Completion,
      s'.sys.reaped = s.sys.reaped ++ read ∧ s.handsOut a = read.filterMap (receiptOf ring) := by
  cases a with
  | inner a =>
      obtain ⟨sys, hsys, rfl⟩ := Option.map_eq_some_iff.mp hs
      refine ⟨⟨ids, howner⟩, [], ?_, rfl⟩
      rw [List.append_nil]
      refine Sys.step_reaped hsys ?_
      rintro rs rfl
      cases ha
  | splitOwned ring' rs =>
      -- a ring that has an owner is not whole
      obtain ⟨⟨r, hwhole⟩, -⟩ := splitOwned_cases h.sound hs
      exact absurd hwhole (h.split _ howner r)
  | push request rs =>
      obtain ⟨ring', ids', sqe, ticket, -, -, hsys, -, -⟩ := push_eq hs
      obtain ⟨⟨ring', ids'⟩, howner', hpush⟩ := Option.bind_eq_some_iff.mp hs
      cases howner.symm.trans howner'
      refine ⟨⟨ids.next.2, ?_⟩, [], ?_, rfl⟩
      · obtain ⟨⟨res, sys⟩, -, rfl⟩ := Option.map_eq_some_iff.mp hpush
        cases res <;> rfl
      · rw [List.append_nil]
        exact Sys.step_reaped hsys fun rs' heq => by cases heq
  | reapEvent rs =>
      obtain ⟨⟨event, s1⟩, he, rfl⟩ := Option.map_eq_some_iff.mp hs
      obtain ⟨cqe, rfl, hread, howner1⟩ := reapEvent_reads howner he
      refine ⟨⟨ids, howner1.trans howner⟩, cqe.toList, hread, ?_⟩
      show ((s.reapEvent rs).bind fun x => x.1.bind Event.intoReceipt).toList = _
      rw [he]
      exact toList_receiptOf ring cqe
  | reap rss =>
      obtain ⟨⟨receipt, s1⟩, hr, rfl⟩ := Option.map_eq_some_iff.mp hs
      obtain ⟨read, hread, hreceipt, howner1⟩ := reap_reads howner hr
      refine ⟨⟨ids, howner1.trans howner⟩, read, hread, ?_⟩
      show ((reap rss s).bind fun x => x.1).toList = _
      rw [hr]
      exact hreceipt
  | redeem ticket receipt =>
      refine ⟨⟨ids, ?_⟩, [], ?_, rfl⟩ <;>
        (simp only [OwnedSys.step, redeem] at hs
         split at hs
         · split at hs <;> cases hs <;> first | exact howner | simp
         · cases hs)
  | dropTicket ticket =>
      cases hs
      exact ⟨⟨ids, howner⟩, [], (List.append_nil _).symm, rfl⟩
  | dropReceipt receipt =>
      cases hs
      exact ⟨⟨ids, howner⟩, [], (List.append_nil _).symm, rfl⟩

/-- The run lemma. -/
theorem run_reads {k : Nat} (h : s.Minted k) (howner : s.owner = some (ring, ids))
    {as : List (OwnedAction B R N)} (ha : ∀ a ∈ as, readsRaw a = false)
    (hr : s.run as = some s') :
    ∃ read : List Completion, s'.sys.reaped = s.sys.reaped ++ read ∧
      handedOut as s = read.filterMap (receiptOf ring) := by
  induction as generalizing s k ids with
  | nil =>
      cases hr
      exact ⟨[], (List.append_nil _).symm, rfl⟩
  | cons a as ih =>
      obtain ⟨s1, h1, h2⟩ := Option.bind_eq_some_iff.mp hr
      rw [List.forall_mem_cons] at ha
      obtain ⟨⟨ids1, howner1⟩, read, hread, hout⟩ := step_reads h howner ha.1 h1
      have hminted : ∃ n, s1.Minted n := by
        rcases h.step h1 with ⟨-, hm, -⟩ | ⟨-, hm, -⟩
        · exact ⟨_, hm⟩
        · exact ⟨_, hm⟩
      obtain ⟨n, hm⟩ := hminted
      obtain ⟨rest, hrest, hout'⟩ := ih hm howner1 ha.2 h2
      refine ⟨read ++ rest, ?_, ?_⟩
      · rw [hrest, hread, List.append_assoc]
      · simp only [handedOut, h1]
        rw [hout, hout', List.filterMap_append]

/-! ### Receipts against completions -/

/-- The terminal CQE of request `k` was read. -/
def settled (s : OwnedSys B R N) (k : Nat) : Bool :=
  (s.sys.world.posted.take s.sys.reaped.length).any fun p =>
    decide (p.1 = .request k) && World.isTerminal p.2

theorem settled_iff {k : Nat} : s.settled k = true ↔
    ∃ p ∈ s.sys.world.posted.take s.sys.reaped.length,
      p.1 = .request k ∧ World.isTerminal p.2 = true := by
  simp only [settled, List.any_eq_true, Bool.and_eq_true, decide_eq_true_eq]

/-- What was read was posted before. -/
theorem reaped_le (h : s.sys.Sound) : s.sys.reaped.length ≤ s.sys.world.posted.length := by
  obtain ⟨v, hv⟩ := h.inv
  have hle := hv.reaped_prefix.length_le
  rwa [List.length_map] at hle

/-- A step that reads nothing settles nothing. -/
theorem settled_of_same (h : s.sys.Sound) (hgrows : s.sys.world.Grows s'.sys.world)
    (hr : s'.sys.reaped = s.sys.reaped) (k : Nat) : s'.settled k = s.settled k := by
  obtain ⟨t, ht⟩ := hgrows.posted
  unfold settled
  rw [hr, ← ht, List.take_append_of_le_length (reaped_le h)]

/-- The completion that a step reads settles its own request. -/
theorem settled_of_read (h : s.sys.Sound) (hgrows : s.sys.world.Grows s'.sys.world)
    {cqe : Completion} (hr : s'.sys.reaped = s.sys.reaped ++ [cqe]) {p : Origin × Cqe}
    (hp : s'.sys.world.posted[s.sys.reaped.length]? = some p) (k : Nat) :
    s'.settled k = (s.settled k || (decide (p.1 = .request k) && World.isTerminal p.2)) := by
  obtain ⟨t, ht⟩ := hgrows.posted
  unfold settled
  rw [hr, List.length_append, List.length_singleton, List.take_add_one, hp, List.any_append,
    ← ht, List.take_append_of_le_length (reaped_le h)]
  simp

/-- The completion that was read is the next one posted. -/
theorem read_eq (h : s'.sys.Sound) {cqe : Completion}
    (hr : s'.sys.reaped = s.sys.reaped ++ [cqe]) :
    ∃ p, s'.sys.world.posted[s.sys.reaped.length]? = some p ∧ Completion.ofCqe p.2 = cqe := by
  obtain ⟨v, hv⟩ := h.inv
  obtain ⟨t, ht⟩ := hv.reaped_prefix
  have hget : (s'.sys.world.posted.map fun p => Completion.ofCqe p.2)[s.sys.reaped.length]?
      = some cqe := by
    rw [← ht, hr, List.append_assoc, List.getElem?_append_right (Nat.le_refl _), Nat.sub_self]
    rfl
  rw [List.getElem?_map] at hget
  exact Option.map_eq_some_iff.mp hget

/-- The step loses no receipt: it drops none, and it reads no completion past the owned half. -/
def thrifty (s : OwnedSys B R N) : OwnedAction B R N → Bool
  | .inner (.call .complete _) => s.owner.isNone
  | .dropReceipt _ => false
  | _ => true

/-- The receipts of a program that loses none: each ticket whose request is settled has its
receipt, each receipt is that of a settled request, and no two are of the same. -/
structure Receipted (s : OwnedSys B R N) (k : Nat) : Prop where
  fresh : s.Fresh k
  unsplit : s.owner = none → s.tickets = [] ∧ s.receipts = []
  tickets : ∀ ring ids, s.owner = some (ring, ids) → ∀ t ∈ s.tickets, t.ticket.ring = ring
  rings : ∀ ring ids, s.owner = some (ring, ids) → ∀ r ∈ s.receipts, r.ring = ring
  stamped : ∀ t ∈ s.tickets, ∃ sqe, s.sys.accepted[t.slot]? = some sqe ∧
    sqe.userData = t.ticket.id.raw
  distinct : (s.sys.accepted.map Sqe.userData).Nodup
  slots : (s.tickets.map Held.slot).Nodup
  complete : ∀ t ∈ s.tickets, s.settled t.slot = true →
    ∃ r ∈ s.receipts, r.id.raw = t.ticket.id.raw
  sound : ∀ r ∈ s.receipts, ∃ i sqe, s.sys.accepted[i]? = some sqe ∧
    sqe.userData = r.id.raw ∧ s.settled i = true
  once : (s.receipts.map fun r => r.id.raw).Nodup

/-! ### Steps -/

/-- An accepted SQE keeps its place. -/
theorem getElem_prefixed {l l' : List Sqe} (h : l <+: l') {i : Nat} {sqe : Sqe}
    (hi : l[i]? = some sqe) : l'[i]? = some sqe := by
  obtain ⟨t, rfl⟩ := h
  rw [List.getElem?_append_left (List.getElem?_eq_some_iff.mp hi).1]
  exact hi

/-- Requests with the same `user_data` are the same request. -/
theorem Receipted.slot_eq {k : Nat} (h : s.Receipted k) {i j : Nat} {x y : Sqe}
    (hi : s.sys.accepted[i]? = some x) (hj : s.sys.accepted[j]? = some y)
    (heq : x.userData = y.userData) : i = j := by
  have hi' : (s.sys.accepted.map Sqe.userData)[i]? = some x.userData := by
    rw [List.getElem?_map, hi]
    rfl
  have hj' : (s.sys.accepted.map Sqe.userData)[j]? = some x.userData := by
    rw [List.getElem?_map, hj, heq]
    rfl
  have hlt := (List.getElem?_eq_some_iff.mp hi').1
  exact (List.getElem?_inj hlt h.distinct).mp (hi'.trans hj'.symm)

/-- A step that leaves the owner as it is. -/
theorem owner_same (s : OwnedSys B R N) : s.owner = none ∨ ∃ ring ids ids',
    s.owner = some (ring, ids) ∧ s.owner = some (ring, ids') := by
  cases s.owner with
  | none => exact Or.inl rfl
  | some o => exact Or.inr ⟨o.1, o.2, o.2, rfl, rfl⟩

/-- A step that accepts, settles and redeems nothing, and makes no ticket. -/
theorem Receipted.same {k n : Nat} (h : s.Receipted k) (hfresh : s'.Fresh n)
    (hsettled : s.owner ≠ none → ∀ i, s'.settled i = s.settled i)
    (hacc : s'.sys.accepted = s.sys.accepted) (ht : s'.tickets.Sublist s.tickets)
    (hr : s'.receipts = s.receipts)
    (howner : s.owner = none ∨ ∃ ring ids ids', s.owner = some (ring, ids) ∧
      s'.owner = some (ring, ids')) : s'.Receipted n := by
  refine ⟨hfresh, ?_, ?_, ?_, ?_, hacc ▸ h.distinct, (ht.map _).nodup h.slots, ?_, ?_, hr ▸ h.once⟩
  · intro hnone
    rcases howner with hold | ⟨ring, ids, ids', -, hnew⟩
    · rw [hr]
      obtain ⟨htickets, hreceipts⟩ := h.unsplit hold
      exact ⟨List.sublist_nil.mp (htickets ▸ ht), hreceipts⟩
    · rw [hnew] at hnone
      cases hnone
  · intro ring ids hnew t hmem
    rcases howner with hold | ⟨ring', ids1, ids', hold, hnew'⟩
    · have := ht.subset hmem
      rw [(h.unsplit hold).1] at this
      cases this
    · cases hnew.symm.trans hnew'
      exact h.tickets ring ids1 hold t (ht.subset hmem)
  · intro ring ids hnew r hmem
    rw [hr] at hmem
    rcases howner with hold | ⟨ring', ids1, ids', hold, hnew'⟩
    · rw [(h.unsplit hold).2] at hmem
      cases hmem
    · cases hnew.symm.trans hnew'
      exact h.rings ring ids1 hold r hmem
  · intro t hmem
    rw [hacc]
    exact h.stamped t (ht.subset hmem)
  · intro t hmem hset
    have hold := ht.subset hmem
    have hsplit : s.owner ≠ none := fun hnone => by
      rw [(h.unsplit hnone).1] at hold
      cases hold
    rw [hsettled hsplit] at hset
    rw [hr]
    exact h.complete t hold hset
  · intro r hmem
    rw [hr] at hmem
    have hsplit : s.owner ≠ none := fun hnone => by
      rw [(h.unsplit hnone).2] at hmem
      cases hmem
    obtain ⟨i, sqe, hi, hu, hset⟩ := h.sound r hmem
    exact ⟨i, sqe, hacc ▸ hi, hu, (hsettled hsplit i).trans hset⟩

/-- A push that is accepted: its request is not settled, since it was not there before. -/
theorem Receipted.push {k : Nat} (h : s.Receipted k) (hk : k < 2 ^ 64)
    {request : OwnedRequest B R N} {rs : List KRound}
    (hs : s.push request rs = some s') (hfresh : s'.Fresh (k + 1)) : s'.Receipted (k + 1) := by
  obtain ⟨ring, ids, sqe, ticket, howner, hpend, hsys, hr, hcase⟩ := push_eq hs
  have hgrows := (Sys.step_advance hsys).grows
  have hread : s'.sys.reaped = s.sys.reaped := Sys.step_reaped hsys fun rs' heq => by cases heq
  have howner' : ∃ ids', s'.owner = some (ring, ids') := by
    obtain ⟨⟨ring', ids'⟩, ho, hpush⟩ := Option.bind_eq_some_iff.mp hs
    cases howner.symm.trans ho
    obtain ⟨⟨res, sys⟩, -, rfl⟩ := Option.map_eq_some_iff.mp hpush
    cases res <;> exact ⟨_, rfl⟩
  obtain ⟨ids', howner'⟩ := howner'
  have hsettled := settled_of_same h.fresh.minted.sound hgrows hread
  rcases hcase with ⟨hacc, ht⟩ | ⟨hacc, ht⟩
  · exact h.same hfresh (fun _ => hsettled) hacc (ht ▸ List.Sublist.refl _) hr
      (Or.inr ⟨ring, ids, ids', howner, howner'⟩)
  have hid : ids.next.1 = minted k := congrArg RequestId.mk (h.fresh.minted.source ring ids howner)
  have hstamp := request.intoPending_id ring ids.next.1
  have hring := request.intoPending_ring ring ids.next.1
  rw [hpend] at hstamp hring
  have hprefix : s.sys.accepted <+: s'.sys.accepted := hacc ▸ List.prefix_append _ _
  -- what is read was posted, and what was posted was consumed, so that its request is older
  have hopen : s.settled s.sys.accepted.length = false := by
    rw [Bool.eq_false_iff]
    intro hset
    obtain ⟨p, hp, hreq, -⟩ := settled_iff.mp hset
    obtain ⟨v, hv⟩ := h.fresh.minted.sound.inv
    have hexp := h.fresh.minted.sound.authentic p (List.mem_of_mem_take hp)
    rw [hreq] at hexp
    obtain ⟨x, hx, -⟩ := hexp
    have hlt := (List.getElem?_eq_some_iff.mp hx).1
    have hle := hv.consumed_prefix.length_le
    omega
  have hslot : ∀ t ∈ s.tickets, t.slot < s.sys.accepted.length := by
    intro t hmem
    obtain ⟨x, hx, -⟩ := h.stamped t hmem
    exact (List.getElem?_eq_some_iff.mp hx).1
  refine ⟨hfresh, ?_, ?_, ?_, ?_, ?_, ?_, ?_, ?_, hr ▸ h.once⟩
  · intro hnone
    rw [howner'] at hnone
    cases hnone
  · intro ring1 ids1 hnew t hmem
    cases hnew.symm.trans howner'
    rw [ht] at hmem
    rcases List.mem_append.mp hmem with hmem | hmem
    · exact h.tickets ring ids howner t hmem
    · rw [List.mem_singleton.mp hmem]
      exact hring
  · intro ring1 ids1 hnew r hmem
    cases hnew.symm.trans howner'
    exact h.rings ring ids howner r (hr ▸ hmem)
  · intro t hmem
    rw [ht] at hmem
    rcases List.mem_append.mp hmem with hmem | hmem
    · obtain ⟨x, hx, hu⟩ := h.stamped t hmem
      exact ⟨x, getElem_prefixed hprefix hx, hu⟩
    · rw [List.mem_singleton.mp hmem]
      refine ⟨sqe, ?_, ?_⟩
      · rw [hacc, List.getElem?_concat_length]
      · show sqe.userData = ticket.id.raw
        rw [hstamp.1, hstamp.2]
  · rw [hacc, List.map_append, List.map_singleton]
    refine List.nodup_append.mpr ⟨h.distinct, List.nodup_singleton _, ?_⟩
    intro u hu x hx
    obtain ⟨y, hy, rfl⟩ := List.mem_map.mp hu
    rw [List.mem_singleton.mp hx, hstamp.1, hid]
    exact (h.fresh.accepted y hy).ne_next hk
  · rw [ht, List.map_append, List.map_singleton]
    refine List.nodup_append.mpr ⟨h.slots, List.nodup_singleton _, ?_⟩
    intro u hu x hx
    obtain ⟨y, hy, rfl⟩ := List.mem_map.mp hu
    rw [List.mem_singleton.mp hx]
    exact Nat.ne_of_lt (hslot y hy)
  · intro t hmem hset
    rw [hsettled] at hset
    rw [hr]
    rw [ht] at hmem
    rcases List.mem_append.mp hmem with hmem | hmem
    · exact h.complete t hmem hset
    · rw [List.mem_singleton.mp hmem, hopen] at hset
      cases hset
  · intro r hmem
    obtain ⟨i, x, hi, hu, hset⟩ := h.sound r (hr ▸ hmem)
    exact ⟨i, x, getElem_prefixed hprefix hi, hu, (hsettled i).trans hset⟩

/-- The request of a terminal completion that is read for the first time. -/
theorem read_terminal (hsound : s'.sys.Sound)
    (hquiet : ∀ x ∈ s'.sys.accepted, s'.sys.world.isMessage x = false) (hclosed : s'.Closed)
    (hgrows : s.sys.world.Grows s'.sys.world) {p : Origin × Cqe}
    (hp : s'.sys.world.posted[s.sys.reaped.length]? = some p)
    (hterm : World.isTerminal p.2 = true) :
    ∃ i sqe, p.1 = .request i ∧ s'.sys.accepted[i]? = some sqe ∧
      sqe.userData = p.2.userData ∧ s.settled i = false := by
  obtain ⟨v, hv⟩ := hsound.inv
  have hmem := List.mem_of_getElem? hp
  have hexp := hsound.authentic p hmem
  rcases p with ⟨o, cqe⟩
  cases o with
  | request i =>
      obtain ⟨sqe, hi, hu⟩ := hexp
      refine ⟨i, sqe, rfl, getElem_prefixed hv.consumed_prefix hi, hu.symm, ?_⟩
      -- a request has one terminal completion, so that no earlier one was read
      rw [Bool.eq_false_iff]
      intro hset
      obtain ⟨q, hq, hreq, hqterm⟩ := settled_iff.mp hset
      obtain ⟨j, hj⟩ := List.mem_iff_getElem?.mp hq
      rw [List.getElem?_take] at hj
      split at hj
      · next hlt =>
          obtain ⟨t, ht⟩ := hgrows.posted
          have hj' : s'.sys.world.posted[j]? = some q := by
            rw [← ht, List.getElem?_append_left (List.getElem?_eq_some_iff.mp hj).1]
            exact hj
          obtain ⟨hjlt, hjget⟩ := List.getElem?_eq_some_iff.mp hj'
          obtain ⟨hnlt, hnget⟩ := List.getElem?_eq_some_iff.mp hp
          have horder := List.pairwise_iff_getElem.mp hsound.orderly j _ hjlt hnlt hlt
          rw [hjget, hnget] at horder
          exact ((horder i).1 hreq hqterm).1 rfl
      · cases hj
  | message i =>
      obtain ⟨sqe, hi, hmsg, -⟩ := hexp
      have hacc := List.mem_of_getElem? (getElem_prefixed hv.consumed_prefix hi)
      rw [hquiet sqe hacc] at hmsg
      cases hmsg
  | foreign => exact absurd rfl (hclosed _ hmem)

theorem isTerminal_ofCqe (cqe : Cqe) :
    (Completion.ofCqe cqe).flags.contains CqeFlags.MORE = !World.isTerminal cqe := by
  unfold World.isTerminal
  rw [Bool.not_not]
  rfl

/-- A request is settled, and the receipt that was made is its own. -/
theorem Receipted.receipt {k : Nat} (h : s.Receipted k) {r : Receipt}
    (hfresh : (s'.keep (some r)).Fresh k) (ho : s.owner = some (r.ring, ids))
    (howner : s'.owner = s.owner) (hacc : s'.sys.accepted = s.sys.accepted)
    (ht : s'.tickets = s.tickets) (hr : s'.receipts = s.receipts) {i : Nat} {sqe : Sqe}
    (hi : s.sys.accepted[i]? = some sqe) (hu : sqe.userData = r.id.raw)
    (hopen : s.settled i = false)
    (hiff : ∀ j, s'.settled j = (s.settled j || decide (i = j))) :
    (s'.keep (some r)).Receipted k where
  fresh := hfresh
  unsplit := fun hnone => by
    rw [show (s'.keep (some r)).owner = some (r.ring, ids) from howner.trans ho] at hnone
    cases hnone
  tickets := fun ring1 ids1 hnew t hmem => h.tickets ring1 ids1 (howner ▸ hnew) t (ht ▸ hmem)
  rings := fun ring1 ids1 hnew x hmem => by
    cases ho.symm.trans (howner.symm.trans hnew)
    rcases List.mem_append.mp hmem with hmem | hmem
    · exact h.rings _ ids ho x (hr ▸ hmem)
    · rw [List.mem_singleton.mp hmem]
  stamped := fun t hmem => by
    show ∃ x, s'.sys.accepted[t.slot]? = some x ∧ _
    rw [hacc]
    exact h.stamped t (ht ▸ hmem)
  distinct := hacc ▸ h.distinct
  slots := ht ▸ h.slots
  complete := fun t hmem hset => by
    replace hset : s'.settled t.slot = true := hset
    rw [hiff, Bool.or_eq_true, decide_eq_true_eq] at hset
    rcases hset with hset | rfl
    · obtain ⟨x, hmem', hid⟩ := h.complete t (ht ▸ hmem) hset
      exact ⟨x, List.mem_append_left _ (hr ▸ hmem'), hid⟩
    · obtain ⟨x, hx, hid⟩ := h.stamped t (ht ▸ hmem)
      cases hi.symm.trans hx
      exact ⟨r, List.mem_append_right _ (List.mem_singleton_self _), hu.symm.trans hid⟩
  sound := fun x hmem => by
    rcases List.mem_append.mp hmem with hmem | hmem
    · obtain ⟨j, y, hj, hid, hset⟩ := h.sound x (hr ▸ hmem)
      refine ⟨j, y, hacc ▸ hj, hid, ?_⟩
      show s'.settled j = true
      rw [hiff, hset, Bool.true_or]
    · rw [List.mem_singleton.mp hmem]
      refine ⟨i, sqe, hacc ▸ hi, hu, ?_⟩
      show s'.settled i = true
      rw [hiff, decide_eq_true rfl, Bool.or_true]
  once := by
    show ((s'.receipts ++ [r]).map fun x => x.id.raw).Nodup
    rw [List.map_append, hr]
    refine List.nodup_append.mpr ⟨h.once, List.nodup_singleton _, ?_⟩
    intro u hmem x hx
    obtain ⟨y, hy, rfl⟩ := List.mem_map.mp hmem
    rw [List.mem_singleton.mp hx]
    obtain ⟨j, z, hj, hid, hset⟩ := h.sound y hy
    intro heq
    -- the receipt in hand would be that of the request that was not settled
    have hij := h.slot_eq hi hj (hu.trans (heq.symm.trans hid.symm))
    rw [← hij, hopen] at hset
    cases hset

theorem keep_none (s : OwnedSys B R N) : s.keep none = s := by simp [keep]

/-- A `reap_event` reads one completion, and makes its receipt if it is terminal. -/
theorem Receipted.reapEvent {k : Nat} (h : s.Receipted k) {rs : List KRound}
    {event : Option Event} (he : s.reapEvent rs = some (event, s')) (hclosed : s'.Closed) :
    (s'.keep (event.bind Event.intoReceipt)).Receipted k := by
  obtain ⟨hsys, ht, hr, howner, -⟩ := reapEvent_eq he
  obtain ⟨⟨ring, ids⟩, ho, -⟩ := Option.bind_eq_some_iff.mp he
  obtain ⟨cqe, rfl, hread, -⟩ := reapEvent_reads ho he
  have hgrows := (Sys.step_advance hsys).grows
  have hfresh := h.fresh.reapEvent he hclosed
  have hsound := hfresh.1.minted.sound
  have hacc : s'.sys.accepted = s.sys.accepted := by
    rcases (Sys.step_record hsys).1 with hsame | ⟨sqe, rs', heq, -⟩
    · exact hsame
    · cases heq
  have hsame := fun hsettled => h.same hfresh.1 (fun _ => hsettled) hacc
    (ht ▸ List.Sublist.refl _) hr (Or.inr ⟨ring, ids, ids, ho, howner.trans ho⟩)
  cases cqe with
  | none =>
      rw [Option.map_none, Option.bind_none, keep_none]
      exact hsame (settled_of_same h.fresh.minted.sound hgrows (hread.trans (List.append_nil _)))
  | some c =>
      obtain ⟨p, hp, rfl⟩ := read_eq hsound hread
      have hsettled := settled_of_read h.fresh.minted.sound hgrows hread hp
      have hmore := isTerminal_ofCqe p.2
      by_cases hterm : World.isTerminal p.2 = true
      · have hreceipt : ((some (Completion.ofCqe p.2)).map (Event.ofCompletion ring)).bind
            Event.intoReceipt = some ⟨ring, ⟨p.2.userData⟩, (Completion.ofCqe p.2).result,
              (Completion.ofCqe p.2).flags⟩ := by
          simp only [Option.map_some, Option.bind_some, Event.ofCompletion, hmore, hterm]
          rfl
        have hkept := hfresh.2
        rw [hreceipt] at hkept ⊢
        obtain ⟨i, sqe, hreq, hi, hu, hopen⟩ :=
          read_terminal hsound hfresh.1.quiet hclosed hgrows hp hterm
        refine h.receipt hkept ho howner hacc ht hr (hacc ▸ hi) hu hopen fun j => ?_
        rw [hsettled, hterm, Bool.and_true, hreq]
        congr 1
        exact decide_eq_decide.mpr (by simp)
      · rw [Bool.not_eq_true] at hterm
        have hpart : ((some (Completion.ofCqe p.2)).map (Event.ofCompletion ring)).bind
            Event.intoReceipt = none := by
          simp only [Option.map_some, Option.bind_some, Event.ofCompletion, hmore, hterm]
          rfl
        rw [hpart, keep_none]
        refine hsame fun i => ?_
        rw [hsettled, hterm, Bool.and_false, Bool.or_false]

theorem Receipted.reap {k : Nat} (h : s.Receipted k) {rss : List (List KRound)}
    {receipt : Option Receipt} (hr : OwnedSys.reap rss s = some (receipt, s'))
    (hclosed : s'.Closed) : (s'.keep receipt).Receipted k := by
  induction rss generalizing s with
  | nil => cases hr
  | cons rs rss ih =>
      obtain ⟨event, s1, he, hcase⟩ := reap_cons hr
      rcases hcase with ⟨rfl, rfl⟩ | ⟨hpart, hrest⟩
      · exact h.reapEvent he hclosed
      · have h1 := h.reapEvent he (hclosed.of_grows (reap_grows hrest))
        rw [hpart, keep_none] at h1
        exact ih h1 hrest

/-- A redemption takes a ticket and its receipt. The receipts of the other tickets stay. -/
theorem Receipted.redeem {k : Nat} (h : s.Receipted k) {i j : Nat}
    (hs : s.redeem i j = some s') (hfresh : s'.Fresh k) : s'.Receipted k := by
  unfold OwnedSys.redeem at hs
  split at hs
  · next t r ht hr =>
      split at hs
      · next hacc =>
          cases hs
          have hid := OwnedTicket.id_of_accepts hacc
          refine ⟨hfresh, ?_, ?_, ?_, ?_, h.distinct, ?_, ?_, ?_, ?_⟩
          · intro hnone
            rw [(h.unsplit hnone).1] at ht
            cases ht
          · exact fun ring ids ho u hu => h.tickets ring ids ho u (List.mem_of_mem_eraseIdx hu)
          · exact fun ring ids ho u hu => h.rings ring ids ho u (List.mem_of_mem_eraseIdx hu)
          · exact fun u hu => h.stamped u (List.mem_of_mem_eraseIdx hu)
          · rw [← List.eraseIdx_map]
            exact h.slots.sublist (List.eraseIdx_sublist _ _)
          · intro u hu hset
            obtain ⟨n, hne, hn⟩ := List.mem_eraseIdx_iff_getElem?.mp hu
            obtain ⟨r', hr', hid'⟩ := h.complete u (List.mem_of_mem_eraseIdx hu) hset
            refine ⟨r', ?_, hid'⟩
            obtain ⟨m, hm⟩ := List.mem_iff_getElem?.mp hr'
            refine List.mem_eraseIdx_iff_getElem?.mpr ⟨m, ?_, hm⟩
            -- the receipt that goes is that of another request
            rintro rfl
            cases hr.symm.trans hm
            obtain ⟨x, hx, hux⟩ := h.stamped u (List.mem_of_getElem? hn)
            obtain ⟨y, hy, huy⟩ := h.stamped t (List.mem_of_getElem? ht)
            have hslot := h.slot_eq hx hy (hux.trans (hid'.symm.trans (hid.trans huy.symm)))
            have hget : (s.tickets.map Held.slot)[n]? = (s.tickets.map Held.slot)[i]? := by
              rw [List.getElem?_map, List.getElem?_map, hn, ht, Option.map_some, Option.map_some,
                hslot]
            have hlt : n < (s.tickets.map Held.slot).length := by
              rw [List.length_map]
              exact (List.getElem?_eq_some_iff.mp hn).1
            exact hne ((List.getElem?_inj hlt h.slots).mp hget)
          · exact fun u hu => h.sound u (List.mem_of_mem_eraseIdx hu)
          · rw [← List.eraseIdx_map]
            exact h.once.sublist (List.eraseIdx_sublist _ _)
      · cases hs
        exact h
  · cases hs

/-- The step lemma. -/
theorem Receipted.step {k : Nat} (h : s.Receipted k) {a : OwnedAction B R N}
    (hk : a.isPush = true → k < 2 ^ 64) (ha : s.plain a = true) (hthrifty : s.thrifty a = true)
    (hs : s.step a = some s') (hclosed : s'.Closed) :
    s'.Receipted (if a.isPush then k + 1 else k) := by
  have hfresh := h.fresh.step ha hs hclosed
  have hsound := h.fresh.minted.sound
  have hgrows := step_grows hs
  cases a with
  | inner a =>
      obtain ⟨sys, hsys, rfl⟩ := Option.map_eq_some_iff.mp hs
      have hacc : sys.accepted = s.sys.accepted := by
        rcases (Sys.step_record hsys).1 with hsame | ⟨sqe, rs, rfl, -⟩
        · exact hsame
        · cases ha
      refine h.same hfresh (fun hsplit => ?_) hacc (List.Sublist.refl _) rfl s.owner_same
      -- past the split nothing is read here
      refine settled_of_same hsound hgrows (Sys.step_reaped hsys ?_)
      rintro rs rfl
      exact hsplit (Option.isNone_iff_eq_none.mp hthrifty)
  | splitOwned ring rs =>
      obtain ⟨hsys, ht, hr⟩ := splitOwned_eq hs
      have hacc : s'.sys.accepted = s.sys.accepted := by
        rcases (Sys.step_record hsys).1 with hsame | ⟨sqe, rs', heq, -⟩
        · exact hsame
        · cases heq
      have hread := Sys.step_reaped hsys fun rs' heq => by cases heq
      obtain ⟨⟨r, hwhole⟩, -⟩ := splitOwned_cases hsound hs
      have hnone : s.owner = none := Option.eq_none_iff_forall_ne_some.mpr
        fun o ho => h.fresh.minted.split o ho r hwhole
      exact h.same hfresh (fun _ => settled_of_same hsound hgrows hread) hacc
        (ht ▸ List.Sublist.refl _) hr (Or.inl hnone)
  | push request rs => exact h.push (hk rfl) hs hfresh
  | reapEvent rs =>
      obtain ⟨⟨event, s1⟩, he, rfl⟩ := Option.map_eq_some_iff.mp hs
      exact h.reapEvent he hclosed
  | reap rss =>
      obtain ⟨⟨receipt, s1⟩, hr, rfl⟩ := Option.map_eq_some_iff.mp hs
      exact h.reap hr hclosed
  | redeem ticket receipt => exact h.redeem hs hfresh
  | dropTicket ticket =>
      cases hs
      exact h.same hfresh (fun _ _ => rfl) rfl (List.eraseIdx_sublist _ _) rfl s.owner_same
  | dropReceipt receipt => cases hthrifty

theorem ofSys_receipted (params : RingParams) (resources : RingResources)
    (sqStart cqStart : UInt32) (sqArray : Nat → UInt32) (sqes : Nat → Sqe) (cqes : Nat → Cqe) :
    (ofSys (Sys.init params resources sqStart cqStart sqArray sqes cqes) :
      OwnedSys B R N).Receipted 0 where
  fresh := ofSys_fresh params resources sqStart cqStart sqArray sqes cqes
  unsplit := fun _ => ⟨rfl, rfl⟩
  tickets := fun _ _ ho => by cases ho
  rings := fun _ _ ho => by cases ho
  stamped := fun t ht => by cases ht
  distinct := List.nodup_nil
  slots := List.nodup_nil
  complete := fun t ht => by cases ht
  sound := fun r hr => by cases hr
  once := List.nodup_nil

/-- A ticket has a receipt that opens it exactly when its request is settled. -/
theorem Receipted.opens_iff {k : Nat} (h : s.Receipted k) {t : Held B R N} (ht : t ∈ s.tickets) :
    (∃ r ∈ s.receipts, t.ticket.accepts r = true) ↔ s.settled t.slot = true := by
  constructor
  · rintro ⟨r, hr, hacc⟩
    obtain ⟨i, x, hi, hu, hset⟩ := h.sound r hr
    obtain ⟨y, hy, hid⟩ := h.stamped t ht
    rw [h.slot_eq hy hi (hid.trans ((OwnedTicket.id_of_accepts hacc).symm.trans hu.symm))]
    exact hset
  · intro hset
    obtain ⟨r, hr, hid⟩ := h.complete t ht hset
    refine ⟨r, hr, ?_⟩
    obtain ⟨ring, ids, howner⟩ : ∃ ring ids, s.owner = some (ring, ids) := by
      cases howner : s.owner with
      | none =>
          rw [(h.unsplit howner).1] at ht
          cases ht
      | some o => exact ⟨o.1, o.2, rfl⟩
    have hring := (h.rings ring ids howner r hr).trans (h.tickets ring ids howner t ht).symm
    rw [t.ticket.accepts_eq]
    simp [Receipt.belongsTo, hid, hring]

/-- Every step of the run is plain and thrifty in the state it starts from. -/
def thriftyRun : List (OwnedAction B R N) → OwnedSys B R N → Bool
  | [], _ => true
  | a :: as, s =>
      s.plain a && s.thrifty a &&
        match s.step a with
        | none => false
        | some s' => thriftyRun as s'

/-- The run lemma. -/
theorem Receipted.run {k : Nat} (h : s.Receipted k) {as : List (OwnedAction B R N)}
    (hc : thriftyRun as s = true) (hcount : k + as.countP OwnedAction.isPush ≤ 2 ^ 64)
    (hr : s.run as = some s') (hclosed : s'.Closed) : ∃ n, s'.Receipted n := by
  induction as generalizing s k with
  | nil =>
      cases hr
      exact ⟨k, h⟩
  | cons a as ih =>
      obtain ⟨s1, h1, h2⟩ := Option.bind_eq_some_iff.mp hr
      simp only [thriftyRun, h1, Bool.and_eq_true] at hc
      rw [List.countP_cons] at hcount
      have hk : a.isPush = true → k < 2 ^ 64 := by
        intro hpush
        rw [if_pos hpush] at hcount
        omega
      have h1' := h.step hk hc.1.1 hc.1.2 h1 (hclosed.of_grows (run_grows h2))
      exact ih h1' hc.2 (count_next hcount) h2

end OwnedSys

/-! ### The laws of receipts -/

/-- From any state of any run in which the ring is split, the receipts handed out are those of the
terminal completions read meanwhile, one each and in order, and these are the next ones posted. -/
theorem receipts_in_order {B R : Type} {N : Nat} (params : RingParams)
    (resources : RingResources) (sqStart cqStart : UInt32) (sqArray : Nat → UInt32)
    (sqes : Nat → Sqe) (cqes : Nat → Cqe) (as bs : List (OwnedAction B R N))
    (s t : OwnedSys B R N) (ring : RingId) (ids : RequestIdSource)
    (hr : (OwnedSys.ofSys (Sys.init params resources sqStart cqStart sqArray sqes cqes)).run as
      = some s)
    (howner : s.owner = some (ring, ids)) (hraw : ∀ b ∈ bs, OwnedSys.readsRaw b = false)
    (ht : s.run bs = some t) :
    t.sys.reaped <+: (t.sys.world.posted.map fun p => Completion.ofCqe p.2) ∧
      OwnedSys.handedOut bs s
        = (t.sys.reaped.drop s.sys.reaped.length).filterMap (receiptOf ring) := by
  have hminted : ∀ (u v : OwnedSys B R N) (cs : List (OwnedAction B R N)),
      (∃ k, u.Minted k) → u.run cs = some v → ∃ k, v.Minted k := by
    intro u v cs hu hrun
    refine OwnedSys.isRun.keeps (P := fun x => ∃ k, x.Minted k) ?_ hu hrun
    rintro x a x' ⟨k, hk⟩ hstep
    rcases hk.step hstep with ⟨-, hm, -⟩ | ⟨-, hm, -⟩
    · exact ⟨_, hm⟩
    · exact ⟨_, hm⟩
  have hstart := OwnedSys.ofSys_minted (B := B) (R := R) (N := N) params resources sqStart cqStart
    sqArray sqes cqes
  obtain ⟨k, hk⟩ := hminted _ s as ⟨0, hstart⟩ hr
  obtain ⟨n, hn⟩ := hminted s t bs ⟨k, hk⟩ ht
  obtain ⟨v, hv⟩ := hn.sound.inv
  obtain ⟨read, hread, hout⟩ := OwnedSys.run_reads hk howner hraw ht
  refine ⟨hv.reaped_prefix, ?_⟩
  rw [hout, hread, List.drop_left]

/-- In a plain program that loses no receipt, a ticket has a receipt that opens it exactly when
the terminal completion of its own request was read, and there are no two receipts for one. -/
theorem receipts_complete {B R : Type} {N : Nat} (params : RingParams)
    (resources : RingResources) (sqStart cqStart : UInt32) (sqArray : Nat → UInt32)
    (sqes : Nat → Sqe) (cqes : Nat → Cqe) (as : List (OwnedAction B R N)) (s : OwnedSys B R N)
    (hr : (OwnedSys.ofSys (Sys.init params resources sqStart cqStart sqArray sqes cqes)).run as
      = some s)
    (hclosed : s.Closed)
    (hc : OwnedSys.thriftyRun as
      (OwnedSys.ofSys (Sys.init params resources sqStart cqStart sqArray sqes cqes)) = true)
    (hcount : as.countP OwnedAction.isPush ≤ 2 ^ 64) :
    (∀ h ∈ s.tickets, (∃ r ∈ s.receipts, h.ticket.accepts r = true) ↔ s.settled h.slot = true) ∧
      (s.receipts.map fun r => r.id.raw).Nodup := by
  have hstart := OwnedSys.ofSys_receipted (B := B) (R := R) (N := N) params resources sqStart
    cqStart sqArray sqes cqes
  obtain ⟨n, hn⟩ := hstart.run hc (by omega) hr hclosed
  exact ⟨fun t ht => hn.opens_iff ht, hn.once⟩

/-- Two requests are pushed, and the second completes. -/
def secondFirst : List (OwnedAction MmapBuffer MmapBuffer 0) :=
  [.splitOwned ⟨7⟩ [.quiet],
    .push (.owned (.single (Prepared.read ⟨4⟩ onePage 0))) [.quiet, .quiet],
    .push (.other Sqe.nop) [.quiet, .quiet],
    .inner (.call .submit [.quiet, .entered ⟨.ok 2, [.post (.request 1) ⟨2, 0, 0⟩]⟩]),
    .reap [[.quiet, .quiet]]]

theorem receipts_in_order_second :
    ∃ s t, (OwnedSys.ofSys Sys.wrapping).run (secondFirst.take 1) = some s ∧
      s.run (secondFirst.drop 1) = some t ∧
      OwnedSys.handedOut (secondFirst.drop 1) s = [⟨⟨7⟩, ⟨2⟩, 0, ⟨0⟩⟩] ∧
      t.sys.reaped <+: (t.sys.world.posted.map fun p => Completion.ofCqe p.2) ∧
      OwnedSys.handedOut (secondFirst.drop 1) s
        = (t.sys.reaped.drop s.sys.reaped.length).filterMap (receiptOf ⟨7⟩) := by
  have heval : ((OwnedSys.ofSys Sys.wrapping).run (secondFirst.take 1)).map (fun s =>
      (s.owner, OwnedSys.handedOut (secondFirst.drop 1) s,
        (s.run (secondFirst.drop 1)).isSome))
      = some (some (⟨7⟩, ⟨1⟩), [⟨⟨7⟩, ⟨2⟩, 0, ⟨0⟩⟩], true) := by decide +kernel
  obtain ⟨s, hrun, heval⟩ := Option.map_eq_some_iff.mp heval
  obtain ⟨howner, hout, hsome⟩ := by simpa only [Prod.mk.injEq] using heval
  obtain ⟨t, ht⟩ := Option.isSome_iff_exists.mp hsome
  exact ⟨s, t, hrun, ht, hout, receipts_in_order _ _ _ _ _ _ _ (secondFirst.take 1)
    (secondFirst.drop 1) s t ⟨7⟩ ⟨1⟩ hrun howner (by decide) ht⟩

/-- The second ticket has its receipt, and the first has none. -/
theorem receipts_complete_second :
    ∃ s, (OwnedSys.ofSys Sys.wrapping).run secondFirst = some s ∧
      s.tickets.map (fun h => s.settled h.slot) = [false, true] ∧
      (∀ h ∈ s.tickets,
        (∃ r ∈ s.receipts, h.ticket.accepts r = true) ↔ s.settled h.slot = true) ∧
      (s.receipts.map fun r => r.id.raw).Nodup := by
  have heval : ((OwnedSys.ofSys Sys.wrapping).run secondFirst).map
      (fun s => (decide s.Closed, s.tickets.map fun h => s.settled h.slot))
      = some (true, [false, true]) := by decide +kernel
  have hthrifty : OwnedSys.thriftyRun secondFirst (OwnedSys.ofSys Sys.wrapping) = true := by
    decide +kernel
  obtain ⟨s, hrun, heval⟩ := Option.map_eq_some_iff.mp heval
  obtain ⟨hclosed, hsettled⟩ := Prod.mk.inj heval
  exact ⟨s, hrun, hsettled, receipts_complete _ _ _ _ _ _ _ secondFirst s hrun
    (of_decide_eq_true hclosed) hthrifty (by decide)⟩

end Ququmatz
