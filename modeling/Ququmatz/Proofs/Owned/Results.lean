import Ququmatz.Proofs.Owned.Receipts

/-!
# `Ququmatz.Proofs.Owned.Results`: a ticket reports the result of its own request

That a receipt opens a ticket means that the request is over. `result_own` says more: the receipt is
that of the terminal CQE of this very request, so that the result and the flags that the completion
carries are those that the kernel gave for it, and no other request's. The receipts are followed
from the CQE that they were made of (`Traced`), in any plain program, also in one that drops tickets
and receipts or reads past the owned half.
-/

set_option autoImplicit false

namespace Ququmatz

open Lib

namespace OwnedSys

variable {B R : Type} {N : Nat} {s s' : OwnedSys B R N}

/-- The receipt is that of the terminal CQE of request `i`. -/
structure Reports (s : OwnedSys B R N) (r : Receipt) (i : Nat) : Prop where
  request : ∃ sqe, s.sys.accepted[i]? = some sqe ∧ sqe.userData = r.id.raw
  cqe : ∃ cqe, (.request i, cqe) ∈ s.sys.world.posted ∧ World.isTerminal cqe = true ∧
    receiptOf r.ring (Completion.ofCqe cqe) = some r

theorem Reports.mono {r : Receipt} {i : Nat} (h : s.Reports r i)
    (hacc : s.sys.accepted <+: s'.sys.accepted) (hgrows : s.sys.world.Grows s'.sys.world) :
    s'.Reports r i where
  request := by
    obtain ⟨sqe, hi, hu⟩ := h.request
    exact ⟨sqe, getElem_prefixed hacc hi, hu⟩
  cqe := by
    obtain ⟨cqe, hmem, hterm, hr⟩ := h.cqe
    exact ⟨cqe, hgrows.posted.subset hmem, hterm, hr⟩

/-- The state after `k` pushes of a plain program: no two requests or tickets are confused, and
every receipt in hand is that of some request. -/
structure Traced (s : OwnedSys B R N) (k : Nat) : Prop where
  fresh : s.Fresh k
  distinct : (s.sys.accepted.map Sqe.userData).Nodup
  stamped : ∀ t ∈ s.tickets, ∃ sqe, s.sys.accepted[t.slot]? = some sqe ∧
    sqe.userData = t.ticket.id.raw
  slots : (s.tickets.map Held.slot).Nodup
  receipts : ∀ r ∈ s.receipts, ∃ i, s.Reports r i

/-- Requests with the same `user_data` are the same request. -/
theorem Traced.place_eq {k : Nat} (h : s.Traced k) {i j : Nat} {x y : Sqe}
    (hi : s.sys.accepted[i]? = some x) (hj : s.sys.accepted[j]? = some y)
    (heq : x.userData = y.userData) : i = j := by
  have hi' : (s.sys.accepted.map Sqe.userData)[i]? = some x.userData := by
    rw [List.getElem?_map, hi]
    rfl
  have hj' : (s.sys.accepted.map Sqe.userData)[j]? = some x.userData := by
    rw [List.getElem?_map, hj, heq]
    rfl
  have hlt := (List.getElem?_eq_some_iff.mp hi').1
  exact (List.getElem?_inj hlt h.distinct).mp (hi'.trans hj'.symm)

/-- A receipt that opens a ticket is that of its request. -/
theorem Traced.reports {k : Nat} (h : s.Traced k) {t : Held B R N} (ht : t ∈ s.tickets)
    {r : Receipt} (hr : r ∈ s.receipts) (hacc : t.ticket.accepts r = true) :
    s.Reports r t.slot := by
  obtain ⟨i, hrep⟩ := h.receipts r hr
  obtain ⟨x, hx, hid⟩ := hrep.request
  obtain ⟨y, hy, hstamp⟩ := h.stamped t ht
  rw [h.place_eq hy hx (hstamp.trans ((OwnedTicket.id_of_accepts hacc).symm.trans hid.symm))]
  exact hrep

/-! ### Steps -/

/-- A step that accepts nothing, makes no ticket, and gives no receipt. -/
theorem Traced.same {k n : Nat} (h : s.Traced k) (hfresh : s'.Fresh n)
    (hacc : s'.sys.accepted = s.sys.accepted) (hgrows : s.sys.world.Grows s'.sys.world)
    (ht : s'.tickets.Sublist s.tickets) (hr : s'.receipts ⊆ s.receipts) : s'.Traced n where
  fresh := hfresh
  distinct := hacc ▸ h.distinct
  stamped := fun t hmem => by
    rw [hacc]
    exact h.stamped t (ht.subset hmem)
  slots := (ht.map _).nodup h.slots
  receipts := fun r hmem => by
    obtain ⟨i, hrep⟩ := h.receipts r (hr hmem)
    exact ⟨i, hrep.mono (hacc ▸ List.prefix_rfl) hgrows⟩

/-- A push mints an identity that no request has. -/
theorem Traced.push {k : Nat} (h : s.Traced k) (hk : k < 2 ^ 64) {request : OwnedRequest B R N}
    {rs : List KRound} (hs : s.push request rs = some s') (hfresh : s'.Fresh (k + 1)) :
    s'.Traced (k + 1) := by
  obtain ⟨ring, ids, sqe, ticket, howner, hpend, hsys, hr, hcase⟩ := push_eq hs
  have hgrows := (Sys.step_advance hsys).grows
  rcases hcase with ⟨hacc, ht⟩ | ⟨hacc, ht⟩
  · exact h.same hfresh hacc hgrows (ht ▸ List.Sublist.refl _) (hr ▸ List.Subset.refl _)
  have hid : ids.next.1 = minted k := congrArg RequestId.mk (h.fresh.minted.source ring ids howner)
  have hstamp := request.intoPending_id ring ids.next.1
  rw [hpend] at hstamp
  have hprefix : s.sys.accepted <+: s'.sys.accepted := hacc ▸ List.prefix_append _ _
  refine ⟨hfresh, ?_, ?_, ?_, ?_⟩
  · rw [hacc, List.map_append, List.map_singleton]
    refine List.nodup_append.mpr ⟨h.distinct, List.nodup_singleton _, ?_⟩
    intro u hu x hx
    obtain ⟨y, hy, rfl⟩ := List.mem_map.mp hu
    rw [List.mem_singleton.mp hx, hstamp.1, hid]
    exact (h.fresh.accepted y hy).ne_next hk
  · intro t hmem
    rw [ht] at hmem
    rcases List.mem_append.mp hmem with hmem | hmem
    · obtain ⟨x, hx, hu⟩ := h.stamped t hmem
      exact ⟨x, getElem_prefixed hprefix hx, hu⟩
    · rw [List.mem_singleton.mp hmem]
      refine ⟨sqe, ?_, ?_⟩
      · rw [hacc, List.getElem?_concat_length]
      · show sqe.userData = ticket.id.raw
        rw [hstamp.1, hstamp.2]
  · rw [ht, List.map_append, List.map_singleton]
    refine List.nodup_append.mpr ⟨h.slots, List.nodup_singleton _, ?_⟩
    intro i hi j hj
    obtain ⟨t, hmem, rfl⟩ := List.mem_map.mp hi
    obtain ⟨x, hx, -⟩ := h.stamped t hmem
    rw [List.mem_singleton.mp hj]
    exact Nat.ne_of_lt (List.getElem?_eq_some_iff.mp hx).1
  · intro r hmem
    obtain ⟨i, hrep⟩ := h.receipts r (hr ▸ hmem)
    exact ⟨i, hrep.mono hprefix hgrows⟩

/-- The receipt that a `reap_event` makes is that of the CQE it read. -/
theorem reapEvent_reports {k : Nat} (h : s.Fresh k) {rs : List KRound} {event : Option Event}
    (he : s.reapEvent rs = some (event, s')) (hclosed : s'.Closed) {r : Receipt}
    (hr : event.bind Event.intoReceipt = some r) : ∃ i, s'.Reports r i := by
  obtain ⟨⟨ring, ids⟩, howner, -⟩ := Option.bind_eq_some_iff.mp he
  obtain ⟨cqe, rfl, hread, -⟩ := reapEvent_reads howner he
  obtain ⟨hsys, -⟩ := reapEvent_eq he
  have hfresh := (h.reapEvent he hclosed).1
  cases cqe with
  | none => cases hr
  | some c =>
      have hreceipt : receiptOf ring c = some r := hr
      obtain ⟨p, hp, rfl⟩ := read_eq hfresh.minted.sound hread
      -- only a terminal CQE makes a receipt, and it carries the identity
      have hboth : World.isTerminal p.2 = true ∧ r.ring = ring ∧ p.2.userData = r.id.raw := by
        unfold receiptOf Event.ofCompletion at hreceipt
        rw [isTerminal_ofCqe] at hreceipt
        cases hterm : World.isTerminal p.2 with
        | false =>
            rw [hterm] at hreceipt
            cases hreceipt
        | true =>
            rw [hterm] at hreceipt
            cases hreceipt
            exact ⟨rfl, rfl, rfl⟩
      obtain ⟨hterm, hring, hid⟩ := hboth
      obtain ⟨i, sqe, hreq, hi, hu, -⟩ := read_terminal hfresh.minted.sound hfresh.quiet hclosed
        (Sys.step_advance hsys).grows hp hterm
      refine ⟨i, ⟨sqe, hi, hu.trans hid⟩, p.2, ?_, hterm, hring ▸ hreceipt⟩
      rw [← hreq]
      exact List.mem_of_getElem? hp

theorem Traced.reapEvent {k : Nat} (h : s.Traced k) {rs : List KRound} {event : Option Event}
    (he : s.reapEvent rs = some (event, s')) (hclosed : s'.Closed) :
    (s'.keep (event.bind Event.intoReceipt)).Traced k := by
  obtain ⟨hsys, ht, hr, howner, -⟩ := reapEvent_eq he
  have hacc : s'.sys.accepted = s.sys.accepted := by
    rcases (Sys.step_record hsys).1 with hsame | ⟨sqe, rs', heq, -⟩
    · exact hsame
    · cases heq
  obtain ⟨hfresh, hkept⟩ := h.fresh.reapEvent he hclosed
  have hold := h.same hfresh hacc (Sys.step_advance hsys).grows (ht ▸ List.Sublist.refl _)
    (hr ▸ List.Subset.refl _)
  refine ⟨hkept, hold.distinct, hold.stamped, hold.slots, ?_⟩
  intro r hmem
  rcases List.mem_append.mp hmem with hmem | hmem
  · obtain ⟨i, hrep⟩ := hold.receipts r hmem
    exact ⟨i, hrep.request, hrep.cqe⟩
  · obtain ⟨i, hrep⟩ := reapEvent_reports h.fresh he hclosed (Option.mem_toList.mp hmem)
    exact ⟨i, hrep.request, hrep.cqe⟩

theorem Traced.reap {k : Nat} (h : s.Traced k) {rss : List (List KRound)}
    {receipt : Option Receipt} (hr : OwnedSys.reap rss s = some (receipt, s'))
    (hclosed : s'.Closed) : (s'.keep receipt).Traced k := by
  induction rss generalizing s with
  | nil => cases hr
  | cons rs rss ih =>
      obtain ⟨event, s1, he, hcase⟩ := reap_cons hr
      rcases hcase with ⟨rfl, rfl⟩ | ⟨hpart, hrest⟩
      · exact h.reapEvent he hclosed
      · have h1 := h.reapEvent he (hclosed.of_grows (reap_grows hrest))
        rw [hpart, keep_none] at h1
        exact ih h1 hrest

/-- The step lemma. -/
theorem Traced.step {k : Nat} (h : s.Traced k) {a : OwnedAction B R N}
    (hk : a.isPush = true → k < 2 ^ 64) (ha : s.plain a = true) (hs : s.step a = some s')
    (hclosed : s'.Closed) : s'.Traced (if a.isPush then k + 1 else k) := by
  have hfresh := h.fresh.step ha hs hclosed
  have hgrows := step_grows hs
  cases a with
  | inner a =>
      obtain ⟨sys, hsys, rfl⟩ := Option.map_eq_some_iff.mp hs
      refine h.same hfresh ?_ hgrows (List.Sublist.refl _) (List.Subset.refl _)
      rcases (Sys.step_record hsys).1 with hsame | ⟨sqe, rs, rfl, -⟩
      · exact hsame
      · cases ha
  | splitOwned ring rs =>
      obtain ⟨hsys, ht, hr⟩ := splitOwned_eq hs
      refine h.same hfresh ?_ hgrows (ht ▸ List.Sublist.refl _) (hr ▸ List.Subset.refl _)
      rcases (Sys.step_record hsys).1 with hsame | ⟨sqe, rs', heq, -⟩
      · exact hsame
      · cases heq
  | push request rs => exact h.push (hk rfl) hs hfresh
  | reapEvent rs =>
      obtain ⟨⟨event, s1⟩, he, rfl⟩ := Option.map_eq_some_iff.mp hs
      exact h.reapEvent he hclosed
  | reap rss =>
      obtain ⟨⟨receipt, s1⟩, hr, rfl⟩ := Option.map_eq_some_iff.mp hs
      exact h.reap hr hclosed
  | redeem ticket receipt =>
      simp only [OwnedSys.step, redeem] at hs
      split at hs
      · split at hs <;> cases hs
        · exact h.same hfresh rfl hgrows (List.eraseIdx_sublist _ _) List.eraseIdx_subset
        · exact h
      · cases hs
  | dropTicket ticket =>
      cases hs
      exact h.same hfresh rfl hgrows (List.eraseIdx_sublist _ _) (List.Subset.refl _)
  | dropReceipt receipt =>
      cases hs
      exact h.same hfresh rfl hgrows (List.Sublist.refl _) List.eraseIdx_subset

theorem ofSys_traced (params : RingParams) (resources : RingResources)
    (sqStart cqStart : UInt32) (sqArray : Nat → UInt32) (sqes : Nat → Sqe) (cqes : Nat → Cqe) :
    (ofSys (Sys.init params resources sqStart cqStart sqArray sqes cqes) :
      OwnedSys B R N).Traced 0 where
  fresh := ofSys_fresh params resources sqStart cqStart sqArray sqes cqes
  distinct := List.nodup_nil
  stamped := fun t ht => by cases ht
  slots := List.nodup_nil
  receipts := fun r hr => by cases hr

/-- Every step of the run is plain in the state it starts from. -/
def plainRun : List (OwnedAction B R N) → OwnedSys B R N → Bool
  | [], _ => true
  | a :: as, s =>
      s.plain a &&
        match s.step a with
        | none => false
        | some s' => plainRun as s'

/-- The run lemma. -/
theorem Traced.run {k : Nat} (h : s.Traced k) {as : List (OwnedAction B R N)}
    (hc : plainRun as s = true) (hcount : k + as.countP OwnedAction.isPush ≤ 2 ^ 64)
    (hr : s.run as = some s') (hclosed : s'.Closed) : ∃ n, s'.Traced n := by
  induction as generalizing s k with
  | nil =>
      cases hr
      exact ⟨k, h⟩
  | cons a as ih =>
      obtain ⟨s1, h1, h2⟩ := Option.bind_eq_some_iff.mp hr
      simp only [plainRun, h1, Bool.and_eq_true] at hc
      rw [List.countP_cons] at hcount
      have hk : a.isPush = true → k < 2 ^ 64 := by
        intro hpush
        rw [if_pos hpush] at hcount
        omega
      have h1' := h.step hk hc.1 h1 (hclosed.of_grows (run_grows h2))
      exact ih h1' hc.2 (count_next hcount) h2

/-- A request has one terminal CQE. -/
theorem terminal_unique (h : s.sys.Sound) {i : Nat} {c d : Cqe}
    (hc : (.request i, c) ∈ s.sys.world.posted) (hd : (.request i, d) ∈ s.sys.world.posted)
    (hcterm : World.isTerminal c = true) (hdterm : World.isTerminal d = true) : c = d := by
  obtain ⟨m, hm⟩ := List.mem_iff_getElem?.mp hc
  obtain ⟨n, hn⟩ := List.mem_iff_getElem?.mp hd
  obtain ⟨hmlt, hmget⟩ := List.getElem?_eq_some_iff.mp hm
  obtain ⟨hnlt, hnget⟩ := List.getElem?_eq_some_iff.mp hn
  -- after the terminal one there is none
  have horder := List.pairwise_iff_getElem.mp h.orderly
  rcases Nat.lt_trichotomy m n with hlt | rfl | hlt
  · have hno := (horder m n hmlt hnlt hlt i).1
    rw [hmget, hnget] at hno
    exact absurd rfl (hno rfl hcterm).1
  · cases hm.symm.trans hn
    rfl
  · have hno := (horder n m hnlt hmlt hlt i).1
    rw [hmget, hnget] at hno
    exact absurd rfl (hno rfl hdterm).1

end OwnedSys

/-! ### The law of results -/

/-- In a plain program a receipt opens a ticket only if it is the receipt of a terminal CQE that the
kernel posted for the ticket's own request, result and flags included, and the request has no other
terminal CQE. -/
theorem result_own {B R : Type} {N : Nat} (params : RingParams) (resources : RingResources)
    (sqStart cqStart : UInt32) (sqArray : Nat → UInt32) (sqes : Nat → Sqe) (cqes : Nat → Cqe)
    (as : List (OwnedAction B R N)) (s : OwnedSys B R N)
    (hr : (OwnedSys.ofSys (Sys.init params resources sqStart cqStart sqArray sqes cqes)).run as
      = some s)
    (hclosed : s.Closed)
    (hc : OwnedSys.plainRun as
      (OwnedSys.ofSys (Sys.init params resources sqStart cqStart sqArray sqes cqes)) = true)
    (hcount : as.countP OwnedAction.isPush ≤ 2 ^ 64) :
    ∀ h ∈ s.tickets, ∀ r ∈ s.receipts, h.ticket.accepts r = true →
      ∃ cqe, (.request h.slot, cqe) ∈ s.sys.world.posted ∧ World.isTerminal cqe = true ∧
        receiptOf r.ring (Completion.ofCqe cqe) = some r ∧
        ∀ other, (.request h.slot, other) ∈ s.sys.world.posted →
          World.isTerminal other = true → other = cqe := by
  have hstart := OwnedSys.ofSys_traced (B := B) (R := R) (N := N) params resources sqStart
    cqStart sqArray sqes cqes
  obtain ⟨n, hn⟩ := hstart.run hc (by omega) hr hclosed
  intro t ht r hmem hacc
  obtain ⟨cqe, hcqe, hterm, hreceipt⟩ := (hn.reports ht hmem hacc).cqe
  exact ⟨cqe, hcqe, hterm, hreceipt, fun other hother hterm' =>
    OwnedSys.terminal_unique hn.fresh.minted.sound hother hcqe hterm' hterm⟩

/-- Two requests complete in the other order, with different results. -/
def crossed : List (OwnedAction MmapBuffer MmapBuffer 0) :=
  [.splitOwned ⟨7⟩ [.quiet],
    .push (.owned (.single (Prepared.read ⟨4⟩ onePage 0))) [.quiet, .quiet],
    .push (.other Sqe.nop) [.quiet, .quiet],
    .inner (.call .submit [.quiet,
      .entered ⟨.ok 2, [.post (.request 1) ⟨2, 9, 0⟩, .post (.request 0) ⟨1, 5, 0⟩]⟩]),
    .reap [[.quiet, .quiet]], .reap [[.quiet, .quiet]]]

/-- The second receipt opens the first ticket. -/
theorem result_own_crossed :
    ∃ s, (OwnedSys.ofSys Sys.wrapping).run crossed = some s ∧
      s.receipts.map (fun r => s.tickets.map fun h => (h.ticket.accepts r, r.result))
        = [[(false, 9), (true, 9)], [(true, 5), (false, 5)]] ∧
      ∀ h ∈ s.tickets, ∀ r ∈ s.receipts, h.ticket.accepts r = true →
        ∃ cqe, (.request h.slot, cqe) ∈ s.sys.world.posted ∧ World.isTerminal cqe = true ∧
          receiptOf r.ring (Completion.ofCqe cqe) = some r ∧
          ∀ other, (.request h.slot, other) ∈ s.sys.world.posted →
            World.isTerminal other = true → other = cqe := by
  have heval : ((OwnedSys.ofSys Sys.wrapping).run crossed).map (fun s =>
      (decide s.Closed,
        s.receipts.map fun r => s.tickets.map fun h => (h.ticket.accepts r, r.result)))
      = some (true, [[(false, 9), (true, 9)], [(true, 5), (false, 5)]]) := by decide +kernel
  have hplain : OwnedSys.plainRun crossed (OwnedSys.ofSys Sys.wrapping) = true := by
    decide +kernel
  obtain ⟨s, hrun, heval⟩ := Option.map_eq_some_iff.mp heval
  obtain ⟨hclosed, hopens⟩ := Prod.mk.inj heval
  exact ⟨s, hrun, hopens, result_own _ _ _ _ _ _ _ crossed s hrun (of_decide_eq_true hclosed)
    hplain (by decide)⟩

end Ququmatz
