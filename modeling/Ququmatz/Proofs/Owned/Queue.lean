import Ququmatz.Owned.Queue
import Ququmatz.Proofs.Owned.Footprint
import Ququmatz.Proofs.Ring.Fifo

/-!
# `Ququmatz.Proofs.Owned.Queue`: what a receipt proves

`redeem` compares identities and nothing else, so a receipt proves that its ticket's request
is over only while no other source on the ring can produce the same identity. There are
four such sources: an unfinished request with that `user_data`, a `MSG_RING` request that
still has to deliver it, a terminal CQE nobody has reaped, and a receipt already in hand.

`Sys.Sole s id slot` says that the request at `slot` is the only source of `id` on the ring.
`Sys.Sole.advance` is the main lemma: a step of the ring keeps `Sole` until the request at
`slot` is finished, provided the SQE that the step pushes is no new source. Every path of the
API goes through it: a raw push, an owned push, for the old tickets and for the new one, and
the calls that push nothing.

The library does not check that proviso. `OwnedSys.careful` states it for each push, and
`receipts_authentic` proves the law for every run that keeps to it. A run that does not is
`forgedReceipt`: a `nop` with `user_data` 1, pushed before `split_owned`, gives out the
receipt for the first owned request while the kernel still works on that request's buffer.
-/

set_option autoImplicit false

namespace Ququmatz

open Lib

/-! ### What a step of the ring adds -/

/-- The facts about a reachable ring that the histories are read with. -/
structure Sys.Sound (s : Sys) : Prop where
  inv : ∃ v, s.Inv v
  authentic : s.world.Authentic
  orderly : s.world.Orderly

theorem Sys.Sound.step {s s' : Sys} (h : s.Sound) {a : Action} (hs : s.step a = some s') :
    s'.Sound := by
  obtain ⟨v, hv⟩ := h.inv
  obtain ⟨v', hf, -⟩ := hv.step hs
  exact ⟨⟨v', hf.inv⟩, Sys.step_world authentic_invariant h.authentic hs,
    Sys.step_world orderly_invariant h.orderly hs⟩

theorem Sys.Sound.init (params : RingParams) (resources : RingResources)
    (sqStart cqStart : UInt32) (sqArray : Nat → UInt32) (sqes : Nat → Sqe) (cqes : Nat → Cqe) :
    (Sys.init params resources sqStart cqStart sqArray sqes cqes).Sound := by
  refine ⟨⟨_, Sys.init_inv params resources sqStart cqStart sqArray sqes cqes⟩, ?_, ?_⟩
  · intro p hp
    rw [Sys.init_posted] at hp
    cases hp
  · show List.Pairwise MayFollow _
    rw [Sys.init_posted]
    exact List.Pairwise.nil

/-- What one step adds to the record of the owner's calls: at most one accepted SQE. -/
structure Sys.Advance (s s' : Sys) : Prop where
  accepted : s.accepted <+: s'.accepted
  one : s'.accepted.length ≤ s.accepted.length + 1
  reaped : s.reaped <+: s'.reaped
  grows : s.world.Grows s'.world

theorem Sys.step_advance {s s' : Sys} {a : Action} (h : s.step a = some s') : s.Advance s' := by
  have hgrows : s.world.Grows s'.world :=
    Sys.step_world (grows_invariant s.world) (World.Grows.refl s.world) h
  obtain ⟨hacc, hrea⟩ := Sys.step_record h
  rcases hacc with hacc | ⟨sqe, rs, -, hacc⟩
  · exact ⟨hacc ▸ List.prefix_rfl, by rw [hacc]; omega, hrea, hgrows⟩
  · refine ⟨hacc ▸ List.prefix_append _ _, ?_, hrea, hgrows⟩
    rw [hacc, List.length_append, List.length_singleton]

namespace Sys.Advance

variable {s s' : Sys}

theorem getElem_accepted (h : s.Advance s') {k : Nat} {sqe : Sqe}
    (hk : s'.accepted[k]? = some sqe) :
    s.accepted[k]? = some sqe ∨ k = s.accepted.length := by
  obtain ⟨t, ht⟩ := h.accepted
  have hlt := (List.getElem?_eq_some_iff.mp hk).1
  have hone := h.one
  by_cases hold : k < s.accepted.length
  · left
    rw [← ht, List.getElem?_append_left hold] at hk
    exact hk
  · right
    omega

theorem isMessage_eq (h : s.Advance s') (sqe : Sqe) :
    s'.world.isMessage sqe = s.world.isMessage sqe := by
  unfold World.isMessage
  rw [h.grows.fd]

theorem unfinished (h : s.Advance s') {k : Nat} (hk : s'.world.finished k = false) :
    s.world.finished k = false := by
  rw [Bool.eq_false_iff] at hk ⊢
  exact fun hfin => hk (World.finished_mono h.grows.posted hfin)

theorem unmessaged (h : s.Advance s') {k : Nat} (hk : s'.world.messaged k = false) :
    s.world.messaged k = false := by
  rw [Bool.eq_false_iff] at hk ⊢
  exact fun hsent => hk (World.messaged_mono h.grows.posted hsent)

end Sys.Advance

/-- A CQE that was posted during the step comes from a request that was unfinished before
it, or is a message that was not sent before it. -/
theorem Sys.Sound.posts {s s' : Sys} (hs : s'.Sound) {t : List (Origin × Cqe)}
    (ht : s.world.posted ++ t = s'.world.posted) {p : Origin × Cqe} (hp : p ∈ t) :
    (∃ k sqe, p.1 = .request k ∧ s'.accepted[k]? = some sqe ∧ p.2.userData = sqe.userData ∧
        s.world.finished k = false) ∨
      (∃ k sqe, p.1 = .message k ∧ s'.accepted[k]? = some sqe ∧
        s'.world.isMessage sqe = true ∧ p.2.userData = sqe.off ∧
        s.world.finished k = false ∧ s.world.messaged k = false) ∨
      p.1 = .foreign := by
  obtain ⟨v, hv⟩ := hs.inv
  have hexp := hs.authentic p (ht ▸ List.mem_append_right _ hp)
  -- What the kernel read is what `push` accepted.
  have hget : ∀ {k : Nat} {sqe : Sqe}, s'.world.consumed[k]? = some sqe →
      s'.accepted[k]? = some sqe := by
    intro k sqe hk
    obtain ⟨u, hu⟩ := hv.consumed_prefix
    rw [← hu, List.getElem?_append_left (List.getElem?_eq_some_iff.mp hk).1]
    exact hk
  have horder : ∀ q ∈ s.world.posted, MayFollow q p := by
    have := hs.orderly
    unfold World.Orderly at this
    rw [← ht] at this
    intro q hq
    exact (List.pairwise_append.mp this).2.2 q hq p hp
  have hopen : ∀ k, p.1 = .request k ∨ p.1 = .message k → s.world.finished k = false := by
    intro k hk
    rw [Bool.eq_false_iff]
    intro hfin
    obtain ⟨q, hq, hreq, hterm⟩ := World.finished_iff.mp hfin
    have hno := (horder q hq k).1 hreq hterm
    rcases hk with hk | hk
    · exact hno.1 hk
    · exact hno.2 hk
  rcases p with ⟨o, cqe⟩
  cases o with
  | request k =>
      obtain ⟨sqe, hk, hu⟩ := hexp
      exact Or.inl ⟨k, sqe, rfl, hget hk, hu, hopen k (Or.inl rfl)⟩
  | message k =>
      obtain ⟨sqe, hk, hm, hu⟩ := hexp
      refine Or.inr (Or.inl ⟨k, sqe, rfl, hget hk, hm, hu, hopen k (Or.inr rfl), ?_⟩)
      rw [Bool.eq_false_iff]
      intro hsent
      obtain ⟨q, hq, hmsg⟩ := World.messaged_iff.mp hsent
      exact (horder q hq k).2 hmsg rfl
  | foreign => exact Or.inr (Or.inr rfl)

/-! ### The only source of an identity -/

/-- The request at `slot` is the only source of `id` on the ring: no other unfinished request
carries it, no message that is still to come brings it, and no unread terminal CQE has it. -/
structure Sys.Sole (s : Sys) (id : UInt64) (slot : Nat) : Prop where
  requests : ∀ k sqe, s.accepted[k]? = some sqe → s.world.finished k = false →
    sqe.userData = id → k = slot
  messages : ∀ k sqe, s.accepted[k]? = some sqe → s.world.finished k = false →
    s.world.messaged k = false → s.world.isMessage sqe = true → sqe.off ≠ id
  unread : ∀ p ∈ s.world.posted.drop s.reaped.length, World.isTerminal p.2 = true →
    p.2.userData ≠ id

/-- What a step pushes is no source of `id` beside the request at `slot`. -/
def Sys.NoNewSource (s s' : Sys) (id : UInt64) (slot : Nat) : Prop :=
  ∀ sqe, s'.accepted[s.accepted.length]? = some sqe →
    (sqe.userData = id → s.accepted.length = slot) ∧
      (s.world.isMessage sqe = true → sqe.off ≠ id)

namespace Sys.Sole

variable {s s' : Sys} {id : UInt64} {slot : Nat}

/-- After the step, too, only the request at `slot` carries `id`. -/
theorem requests_after (h : s.Sole id slot) (hadv : s.Advance s')
    (hnew : s.NoNewSource s' id slot) {k : Nat} {sqe : Sqe}
    (hk : s'.accepted[k]? = some sqe) (hopen : s.world.finished k = false)
    (hid : sqe.userData = id) : k = slot := by
  rcases hadv.getElem_accepted hk with hold | rfl
  · exact h.requests k sqe hold hopen hid
  · exact (hnew sqe hk).1 hid

/-- After the step, too, no message brings `id`. -/
theorem messages_after (h : s.Sole id slot) (hadv : s.Advance s')
    (hnew : s.NoNewSource s' id slot) {k : Nat} {sqe : Sqe}
    (hk : s'.accepted[k]? = some sqe) (hopen : s.world.finished k = false)
    (hunsent : s.world.messaged k = false) (hmsg : s'.world.isMessage sqe = true) :
    sqe.off ≠ id := by
  rw [hadv.isMessage_eq] at hmsg
  rcases hadv.getElem_accepted hk with hold | rfl
  · exact h.messages k sqe hold hopen hunsent hmsg
  · exact (hnew sqe hk).2 hmsg

/-- Until the request at `slot` is finished, no step makes a CQE with `id` appear. -/
theorem unread_after (h : s.Sole id slot) (hadv : s.Advance s') (hs : s.Sound)
    (hs' : s'.Sound) (hclosed : ∀ p ∈ s'.world.posted, p.1 ≠ .foreign)
    (hnew : s.NoNewSource s' id slot) (hopen : s'.world.finished slot = false) :
    ∀ p ∈ s'.world.posted.drop s.reaped.length, World.isTerminal p.2 = true →
      p.2.userData ≠ id := by
  obtain ⟨v, hv⟩ := hs.inv
  have hread : s.reaped.length ≤ s.world.posted.length := by
    have := hv.reaped_prefix.length_le
    rw [List.length_map] at this
    exact this
  obtain ⟨t, ht⟩ := hadv.grows.posted
  rw [← ht, List.drop_append_of_le_length hread]
  intro p hp hterm hid
  rcases List.mem_append.mp hp with hold | hp
  · exact h.unread p hold hterm hid
  -- A new CQE: it would finish the request at `slot`, or be a message that cannot come.
  · have hmem : p ∈ s'.world.posted := ht ▸ List.mem_append_right _ hp
    rcases hs'.posts ht hp with ⟨k, sqe, ho, hk, hu, hkopen⟩ |
      ⟨k, sqe, ho, hk, hmsg, hu, hkopen, hunsent⟩ | ho
    · have hslot := h.requests_after hadv hnew hk hkopen (hu.symm.trans hid)
      subst hslot
      rw [World.finished_iff.mpr ⟨p, hmem, ho, hterm⟩] at hopen
      exact absurd hopen (by simp)
    · exact h.messages_after hadv hnew hk hkopen hunsent hmsg (hu.symm.trans hid)
    · exact hclosed p hmem ho

/-- A step that pushes no new source keeps the request at `slot` the only one, until that
request is finished. -/
theorem advance (h : s.Sole id slot) (hadv : s.Advance s') (hs : s.Sound) (hs' : s'.Sound)
    (hclosed : ∀ p ∈ s'.world.posted, p.1 ≠ .foreign) (hnew : s.NoNewSource s' id slot)
    (hopen : s'.world.finished slot = false) : s'.Sole id slot where
  requests := fun _ _ hk hkopen hid =>
    h.requests_after hadv hnew hk (hadv.unfinished hkopen) hid
  messages := fun _ _ hk hkopen hunsent hmsg =>
    h.messages_after hadv hnew hk (hadv.unfinished hkopen) (hadv.unmessaged hunsent) hmsg
  unread := fun p hp =>
    h.unread_after hadv hs hs' hclosed hnew hopen p
      (List.drop_subset_drop_left _ hadv.reaped.length_le hp)

end Sys.Sole

/-! ### The owned system is the ring's -/

/-- A call with its result is the call, and its result is what was recorded. -/
theorem Sys.invoke_eq_some {s s' : Sys} {α : Type} {p : Option (RingProg (α × Handles))}
    {rs : List KRound} {record : α → Sys → Sys} {a : α}
    (h : s.invoke p rs record = some (a, s')) :
    s.exec p rs record = some s' ∧
      ∃ w hs, s' = record a { s with world := w, handles := hs } := by
  obtain ⟨prog, hp, h⟩ := Option.bind_eq_some_iff.mp h
  obtain ⟨⟨⟨b, hs⟩, w⟩, hrun, hx⟩ := Option.map_eq_some_iff.mp h
  cases hx
  refine ⟨?_, w, hs, rfl⟩
  unfold Sys.exec
  rw [hp, Option.bind_some, hrun]
  rfl

namespace OwnedSys

variable {B R : Type} {N : Nat} {s s' : OwnedSys B R N}

/-- `split_owned` is a `split`, and hands out no ticket and no receipt. -/
theorem splitOwned_eq {ring : RingId} {rs : List KRound}
    (h : s.splitOwned ring rs = some s') :
    s.sys.step (.call .split rs) = some s'.sys ∧
      s'.tickets = s.tickets ∧ s'.receipts = s.receipts := by
  obtain ⟨⟨res, sys⟩, hi, rfl⟩ := Option.map_eq_some_iff.mp h
  cases res with
  | ok u => exact ⟨(Sys.invoke_eq_some hi).1, rfl, rfl⟩
  | error e => exact ⟨(Sys.invoke_eq_some hi).1, rfl, rfl⟩

/-- An owned push is a push of the stamped SQE, accepted with a ticket or refused. -/
theorem push_eq {request : OwnedRequest B R N} {rs : List KRound}
    (h : s.push request rs = some s') :
    ∃ ring ids sqe ticket, s.owner = some (ring, ids) ∧
      request.intoPending ring ids.next.1 = (sqe, ticket) ∧
      s.sys.step (.call (.push sqe) rs) = some s'.sys ∧ s'.receipts = s.receipts ∧
      ((s'.sys.accepted = s.sys.accepted ∧ s'.tickets = s.tickets) ∨
        (s'.sys.accepted = s.sys.accepted ++ [sqe] ∧
          s'.tickets = s.tickets ++ [⟨ticket, s.sys.accepted.length⟩])) := by
  obtain ⟨⟨ring, ids⟩, howner, h⟩ := Option.bind_eq_some_iff.mp h
  obtain ⟨⟨res, sys⟩, hi, rfl⟩ := Option.map_eq_some_iff.mp h
  obtain ⟨hexec, w, hs, hrec⟩ := Sys.invoke_eq_some hi
  refine ⟨ring, ids, _, _, howner, rfl, ?_⟩
  cases res with
  | ok u => exact ⟨hexec, rfl, Or.inr ⟨by rw [hrec]; rfl, rfl⟩⟩
  | error e => exact ⟨hexec, rfl, Or.inl ⟨by rw [hrec]; rfl, rfl⟩⟩

/-- A `reap_event` is a `complete`, and its event is made of what that returned. -/
theorem reapEvent_eq {rs : List KRound} {event : Option Event}
    (h : s.reapEvent rs = some (event, s')) :
    s.sys.step (.call .complete rs) = some s'.sys ∧
      s'.tickets = s.tickets ∧ s'.receipts = s.receipts ∧ s'.owner = s.owner ∧
      ∃ (ring : RingId) (cqe : Option Completion), event = cqe.map (Event.ofCompletion ring) ∧
        s'.sys.reaped = s.sys.reaped ++ cqe.toList := by
  obtain ⟨⟨ring, ids⟩, howner, h⟩ := Option.bind_eq_some_iff.mp h
  obtain ⟨⟨res, sys⟩, hi, hx⟩ := Option.map_eq_some_iff.mp h
  cases hx
  obtain ⟨hexec, w, hs, hrec⟩ := Sys.invoke_eq_some hi
  refine ⟨hexec, rfl, rfl, rfl, ring, res, rfl, ?_⟩
  show sys.reaped = s.sys.reaped ++ res.toList
  rw [hrec]
  cases res with
  | some c => rfl
  | none => exact (List.append_nil _).symm

/-- One turn of the loop of `reap`: it ends with the receipt of the event, if that has one
or if there was no event, and else it goes on without the event. -/
theorem reap_cons {rs : List KRound} {rss : List (List KRound)} {receipt : Option Receipt}
    (h : reap (rs :: rss) s = some (receipt, s')) :
    ∃ event s1, s.reapEvent rs = some (event, s1) ∧
      ((event.bind Event.intoReceipt = receipt ∧ s1 = s') ∨
        (event.bind Event.intoReceipt = none ∧ reap rss s1 = some (receipt, s'))) := by
  obtain ⟨⟨event, s1⟩, he, h⟩ := Option.bind_eq_some_iff.mp h
  refine ⟨event, s1, he, ?_⟩
  cases event with
  | none =>
      simp only at h
      split at h
      · cases h
        exact Or.inl ⟨rfl, rfl⟩
      · cases h
  | some event =>
      cases event with
      | complete r =>
          simp only at h
          split at h
          · cases h
            exact Or.inl ⟨rfl, rfl⟩
          · cases h
      | part r => exact Or.inr ⟨rfl, h⟩

theorem reap_grows {rss : List (List KRound)} {receipt : Option Receipt}
    (h : reap rss s = some (receipt, s')) : s.sys.world.Grows s'.sys.world := by
  induction rss generalizing s with
  | nil => cases h
  | cons rs rss ih =>
      obtain ⟨event, s1, he, hcase⟩ := reap_cons h
      have hgrows := (Sys.step_advance (reapEvent_eq he).1).grows
      rcases hcase with ⟨-, rfl⟩ | ⟨-, hrest⟩
      · exact hgrows
      · exact hgrows.trans (ih hrest)

/-- The histories of the ring grow under every step of its owner. -/
theorem step_grows {a : OwnedAction B R N} (h : s.step a = some s') :
    s.sys.world.Grows s'.sys.world := by
  cases a with
  | inner a =>
      obtain ⟨sys, hs, rfl⟩ := Option.map_eq_some_iff.mp h
      exact (Sys.step_advance hs).grows
  | splitOwned ring rs => exact (Sys.step_advance (splitOwned_eq h).1).grows
  | push request rs =>
      obtain ⟨_, _, _, _, -, -, hs, -⟩ := push_eq h
      exact (Sys.step_advance hs).grows
  | reapEvent rs =>
      obtain ⟨⟨event, s1⟩, he, rfl⟩ := Option.map_eq_some_iff.mp h
      exact (Sys.step_advance (reapEvent_eq he).1).grows
  | reap rss =>
      obtain ⟨⟨receipt, s1⟩, hr, rfl⟩ := Option.map_eq_some_iff.mp h
      have hgrows := reap_grows hr
      exact hgrows
  | redeem ticket receipt =>
      simp only [step, redeem] at h
      split at h
      · split at h <;> cases h <;> exact World.Grows.refl _
      · cases h
  | dropTicket ticket =>
      cases h
      exact World.Grows.refl _
  | dropReceipt receipt =>
      cases h
      exact World.Grows.refl _

theorem isRun : IsRun (OwnedSys.step (B := B) (R := R) (N := N)) OwnedSys.run :=
  ⟨fun _ => rfl, fun _ _ _ => rfl⟩

theorem run_grows {as : List (OwnedAction B R N)} (h : s.run as = some s') :
    s.sys.world.Grows s'.sys.world := by
  have hstep : ∀ (t : OwnedSys B R N) (a : OwnedAction B R N) (t' : OwnedSys B R N),
      s.sys.world.Grows t.sys.world → t.step a = some t' → s.sys.world.Grows t'.sys.world :=
    fun _ _ _ hg hs => hg.trans (step_grows hs)
  exact isRun.keeps hstep (World.Grows.refl _) h

theorem Closed.of_grows (h : s'.Closed) (hg : s.sys.world.Grows s'.sys.world) : s.Closed :=
  fun p hp => h p (hg.posted.subset hp)

end OwnedSys

/-! ### Identities of requests and tickets -/

section Identities

variable {B R : Type} {N : Nat}

theorem Request.intoPending_id (r : Request B R N) (ring : RingId) (id : RequestId) :
    (r.intoPending ring id).1.userData = id.raw ∧ (r.intoPending ring id).2.id = id := by
  cases r with
  | single r => exact ⟨rfl, rfl⟩
  | zc r => exact ⟨rfl, rfl⟩
  | vectored r => exact ⟨rfl, rfl⟩
  | sendmsg r => exact ⟨rfl, rfl⟩
  | sendmsgZc r => exact ⟨rfl, rfl⟩

/-- Every `into_pending` stamps the minted id into the SQE and the ticket. -/
theorem OwnedRequest.intoPending_id (r : OwnedRequest B R N) (ring : RingId) (id : RequestId) :
    (r.intoPending ring id).1.userData = id.raw ∧ (r.intoPending ring id).2.id = id := by
  cases r with
  | owned r => exact r.intoPending_id ring id
  | msgRing r => exact ⟨rfl, rfl⟩
  | other sqe => exact ⟨rfl, rfl⟩

/-- A `redeem` in the crate is a guarded `Ok`. -/
theorem isOk_guarded {ε α : Type} (b : Bool) (e : ε) (a : α) :
    (if !b then Except.error e else Except.ok a).isOk = b := by
  cases b <;> rfl

theorem Ticket.accepts_eq (t : Ticket B R N) (receipt : Receipt) :
    t.accepts receipt = receipt.belongsTo t.ring t.id := by
  cases t with
  | single p => exact isOk_guarded _ _ _
  | zc p => exact isOk_guarded _ _ _
  | vectored p => exact isOk_guarded _ _ _
  | sendmsg p => exact isOk_guarded _ _ _
  | sendmsgZc p => exact isOk_guarded _ _ _

/-- Every `redeem` takes exactly the receipts with the ticket's ring and id. -/
theorem OwnedTicket.accepts_eq (t : OwnedTicket B R N) (receipt : Receipt) :
    t.accepts receipt = receipt.belongsTo t.ring t.id := by
  cases t with
  | owned t => exact t.accepts_eq receipt
  | msgRing p => exact isOk_guarded _ _ _
  | other ring id => rfl

/-- A receipt is made of a terminal completion, and has its `user_data`. -/
theorem Event.intoReceipt_ofCompletion {ring : RingId} {cqe : Completion} {receipt : Receipt}
    (h : (Event.ofCompletion ring cqe).intoReceipt = some receipt) :
    cqe.flags.contains CqeFlags.MORE = false ∧ receipt.id.raw = cqe.userData := by
  unfold Event.ofCompletion at h
  by_cases hmore : cqe.flags.contains CqeFlags.MORE = true
  · simp only [hmore, if_true] at h
    cases h
  · simp only [hmore] at h
    cases h
    exact ⟨Bool.eq_false_iff.mpr hmore, rfl⟩

theorem OwnedTicket.id_of_accepts {t : OwnedTicket B R N} {receipt : Receipt}
    (h : t.accepts receipt = true) : receipt.id.raw = t.id.raw := by
  rw [t.accepts_eq] at h
  unfold Receipt.belongsTo at h
  simp only [Bool.and_eq_true, beq_iff_eq] at h
  exact h.1

end Identities

/-! ### The pushes that make no second source -/

/-- Request `k`, with the SQE `sqe`, can still post a CQE that carries `id`: a completion of
its own, or its message. -/
def World.brings (w : World) (id : UInt64) (sqe : Sqe) (k : Nat) : Bool :=
  !w.finished k &&
    (sqe.userData == id || (w.isMessage sqe && sqe.off == id && !w.messaged k))

/-- `id` can still be reaped: a request brings it, or a terminal CQE with it is unread. -/
def Sys.circulates (s : Sys) (id : UInt64) : Bool :=
  (s.accepted.zipIdx.any fun x => s.world.brings id x.1 x.2) ||
    (s.world.posted.drop s.reaped.length).any fun p =>
      World.isTerminal p.2 && p.2.userData == id

namespace OwnedSys

variable {B R : Type} {N : Nat}

/-- `id` can still be reaped, or a receipt with it is held. -/
def circulates (s : OwnedSys B R N) (id : UInt64) : Bool :=
  s.sys.circulates id || s.receipts.any fun receipt => receipt.id.raw == id

/-- A ticket with `id` is held whose request is unfinished. -/
def awaits (s : OwnedSys B R N) (id : UInt64) : Bool :=
  s.tickets.any fun h => h.ticket.id.raw == id && !s.sys.world.finished h.slot

/-- What a push must keep to. A raw push carries no `user_data` that a ticket waits for, an
owned push mints no id that is in circulation, and neither sends a message to this ring
under an id that a ticket waits for, the new ticket included. -/
def careful (s : OwnedSys B R N) : OwnedAction B R N → Bool
  | .inner (.call (.push sqe) _) =>
      !s.awaits sqe.userData && (!s.sys.world.isMessage sqe || !s.awaits sqe.off)
  | .push request _ =>
      match s.owner with
      | none => true
      | some (ring, ids) =>
          let id := ids.next.1
          let sqe := (request.intoPending ring id).1
          !s.circulates id.raw &&
            (!s.sys.world.isMessage sqe || (sqe.off != id.raw && !s.awaits sqe.off))
  | _ => true

/-- Every push of the run is careful in the state it starts from. -/
def carefulRun : List (OwnedAction B R N) → OwnedSys B R N → Bool
  | [], _ => true
  | a :: as, s =>
      s.careful a &&
        match s.step a with
        | none => false
        | some s' => carefulRun as s'

end OwnedSys

theorem Sys.Sole.of_not_circulates {s : Sys} {id : UInt64} (h : s.circulates id = false) :
    s.Sole id s.accepted.length := by
  unfold Sys.circulates at h
  rw [Bool.or_eq_false_iff] at h
  obtain ⟨hreq, hunread⟩ := h
  -- No accepted SQE brings `id`, so each part of `Sole` holds for want of a source.
  have hnone : ∀ k sqe, s.accepted[k]? = some sqe → s.world.brings id sqe k = false := by
    intro k sqe hk
    exact Bool.eq_false_iff.mpr
      (List.any_eq_false.mp hreq (sqe, k) (List.mk_mem_zipIdx_iff_getElem?.mpr hk))
  refine ⟨?_, ?_, ?_⟩
  · intro k sqe hk hopen hid
    have := hnone k sqe hk
    simp [World.brings, hopen, hid] at this
  · intro k sqe hk hopen hunsent hmsg hid
    have := hnone k sqe hk
    simp [World.brings, hopen, hunsent, hmsg, hid] at this
  · intro p hp hterm hid
    have := List.any_eq_false.mp hunread p hp
    simp [hterm, hid] at this

/-! ### The invariant -/

/-- The ticket `h` waits: its own SQE carries its id, and no receipt or other source of the
id exists. -/
structure Held.Waits {B R : Type} {N : Nat} (h : Held B R N) (sys : Sys)
    (receipts : List Receipt) : Prop where
  own : ∃ sqe, sys.accepted[h.slot]? = some sqe ∧ sqe.userData = h.ticket.id.raw
  sole : sys.Sole h.ticket.id.raw h.slot
  unheld : ∀ receipt ∈ receipts, receipt.id.raw ≠ h.ticket.id.raw

namespace OwnedSys

variable {B R : Type} {N : Nat} {s s' : OwnedSys B R N}

/-- Every ticket whose request is unfinished waits. -/
structure Inv (s : OwnedSys B R N) : Prop where
  sound : s.sys.Sound
  waits : ∀ h ∈ s.tickets, s.sys.world.finished h.slot = false → h.Waits s.sys s.receipts

theorem Inv.authentic (h : s.Inv) : s.ReceiptsAuthentic := by
  intro t ht receipt hr hacc
  by_cases hfin : s.sys.world.finished t.slot = true
  · exact hfin
  · have hwaits := h.waits t ht (Bool.eq_false_iff.mpr hfin)
    exact absurd (OwnedTicket.id_of_accepts hacc) (hwaits.unheld receipt hr)

/-- To give a ticket or a receipt away does no harm. -/
theorem Inv.fewer (h : s.Inv) (hsys : s'.sys = s.sys) (ht : s'.tickets ⊆ s.tickets)
    (hr : s'.receipts ⊆ s.receipts) : s'.Inv := by
  refine ⟨hsys ▸ h.sound, ?_⟩
  intro t hmem hopen
  rw [hsys] at hopen ⊢
  have hwaits := h.waits t (ht hmem) hopen
  exact ⟨hwaits.own, hwaits.sole, fun receipt hm => hwaits.unheld receipt (hr hm)⟩

/-- A step of the ring that is no new source for any waiting ticket. -/
theorem Inv.advance (h : s.Inv) {a : Action} (hs : s.sys.step a = some s'.sys)
    (ht : s'.tickets = s.tickets) (hr : s'.receipts = s.receipts) (hclosed : s'.Closed)
    (hnew : ∀ t ∈ s.tickets, s.sys.world.finished t.slot = false →
      s.sys.NoNewSource s'.sys t.ticket.id.raw t.slot) : s'.Inv := by
  have hadv := Sys.step_advance hs
  have hsound := h.sound.step hs
  refine ⟨hsound, ?_⟩
  intro t hmem hopen
  rw [ht] at hmem
  rw [hr]
  -- a slot that is open after the step was open before it
  have hbefore := hadv.unfinished hopen
  have hwaits := h.waits t hmem hbefore
  refine ⟨?_, ?_, hwaits.unheld⟩
  · obtain ⟨sqe, hk, hu⟩ := hwaits.own
    obtain ⟨u, hu'⟩ := hadv.accepted
    refine ⟨sqe, ?_, hu⟩
    -- accepted requests are only appended, so that the ticket keeps its slot
    rw [← hu', List.getElem?_append_left (List.getElem?_eq_some_iff.mp hk).1]
    exact hk
  · exact hwaits.sole.advance hadv h.sound hsound hclosed (hnew t hmem hbefore) hopen

/-- A step that accepts nothing is no new source. -/
theorem noNewSource_of_same {sys sys' : Sys} (h : sys'.accepted = sys.accepted) (id : UInt64)
    (slot : Nat) : sys.NoNewSource sys' id slot := by
  intro sqe hk
  rw [h, List.getElem?_eq_none (Nat.le_refl _)] at hk
  cases hk

theorem noNewSource_of_push {sys sys' : Sys} {sqe : Sqe}
    (h : sys'.accepted = sys.accepted ++ [sqe]) {id : UInt64} {slot : Nat}
    (hid : sqe.userData = id → sys.accepted.length = slot)
    (hmsg : sys.world.isMessage sqe = true → sqe.off ≠ id) : sys.NoNewSource sys' id slot := by
  intro sqe' hk
  rw [h, List.getElem?_concat_length] at hk
  cases hk
  exact ⟨hid, hmsg⟩

/-- A ticket that waits for an id makes `awaits` true of it. -/
theorem ne_of_not_awaits {u : UInt64} (h : s.awaits u = false) {t : Held B R N}
    (ht : t ∈ s.tickets) (hopen : s.sys.world.finished t.slot = false) :
    u ≠ t.ticket.id.raw := by
  intro hid
  have := List.any_eq_false.mp h t ht
  simp [hid, hopen] at this

/-! ### Steps and runs -/

theorem Inv.inner (h : s.Inv) {a : Action} (hc : s.careful (.inner a) = true)
    (hs : s.step (.inner a) = some s') (hclosed : s'.Closed) : s'.Inv := by
  obtain ⟨sys, hsys, rfl⟩ := Option.map_eq_some_iff.mp hs
  refine h.advance hsys rfl rfl hclosed ?_
  intro t ht hopen
  -- only a push accepts a request, and a careful one takes no id that is waited for
  rcases (Sys.step_record hsys).1 with hsame | ⟨sqe, rs, rfl, hpush⟩
  · exact noNewSource_of_same hsame _ _
  · simp only [careful, Bool.and_eq_true, Bool.or_eq_true, Bool.not_eq_true'] at hc
    refine noNewSource_of_push hpush ?_ ?_
    · intro hid
      exact absurd hid (ne_of_not_awaits hc.1 ht hopen)
    · intro hmsg
      rcases hc.2 with hno | hoff
      · rw [hmsg] at hno
        exact absurd hno (by simp)
      · exact ne_of_not_awaits hoff ht hopen

theorem Inv.splitOwned (h : s.Inv) {ring : RingId} {rs : List KRound}
    (hs : s.splitOwned ring rs = some s') (hclosed : s'.Closed) : s'.Inv := by
  obtain ⟨hsys, ht, hr⟩ := splitOwned_eq hs
  refine h.advance hsys ht hr hclosed ?_
  intro t _ _
  rcases (Sys.step_record hsys).1 with hsame | ⟨sqe, rs', heq, -⟩
  · exact noNewSource_of_same hsame _ _
  · cases heq

/-- What a careful owned push is: its id is new, and its message, if it is one to this ring,
does not bring the id of a waiting ticket. -/
theorem careful_push {request : OwnedRequest B R N} {rs : List KRound} {ring : RingId}
    {ids : RequestIdSource} (hc : s.careful (.push request rs) = true)
    (howner : s.owner = some (ring, ids)) :
    s.sys.circulates ids.next.1.raw = false ∧
      (∀ receipt ∈ s.receipts, receipt.id.raw ≠ ids.next.1.raw) ∧
      (s.sys.world.isMessage (request.intoPending ring ids.next.1).1 = true →
        (request.intoPending ring ids.next.1).1.off ≠ ids.next.1.raw ∧
        s.awaits (request.intoPending ring ids.next.1).1.off = false) := by
  simp only [careful, howner, Bool.and_eq_true, Bool.or_eq_true, Bool.not_eq_true',
    bne_iff_ne] at hc
  obtain ⟨hcirc, hmsg⟩ := hc
  unfold circulates at hcirc
  rw [Bool.or_eq_false_iff] at hcirc
  refine ⟨hcirc.1, ?_, ?_⟩
  · intro receipt hr hid
    have := List.any_eq_false.mp hcirc.2 receipt hr
    simp [hid] at this
  · intro hm
    rcases hmsg with hno | hoff
    · rw [hm] at hno
      exact absurd hno (by simp)
    · exact hoff

theorem Inv.push (h : s.Inv) {request : OwnedRequest B R N} {rs : List KRound}
    (hc : s.careful (.push request rs) = true) (hs : s.push request rs = some s')
    (hclosed : s'.Closed) : s'.Inv := by
  obtain ⟨ring, ids, sqe, ticket, howner, hpend, hsys, hr, hcase⟩ := push_eq hs
  obtain ⟨hcirc, hheld, hmsg⟩ := careful_push hc howner
  obtain ⟨hstamp, hticket⟩ := request.intoPending_id ring ids.next.1
  rw [hpend] at hmsg hstamp hticket
  simp only at hmsg hstamp hticket
  have hsole := Sys.Sole.of_not_circulates hcirc
  have hadv := Sys.step_advance hsys
  have hsound := h.sound.step hsys
  -- A waiting ticket is not pushed over: its own SQE keeps its id in circulation.
  have hold : ∀ t ∈ s.tickets, s.sys.world.finished t.slot = false →
      s.sys.NoNewSource s'.sys t.ticket.id.raw t.slot := by
    intro t ht hopen
    rcases hcase with ⟨hsame, -⟩ | ⟨hpush, -⟩
    · exact noNewSource_of_same hsame _ _
    · refine noNewSource_of_push hpush ?_ ?_
      · intro hid
        obtain ⟨own, hown, hu⟩ := (h.waits t ht hopen).own
        have := hsole.requests t.slot own hown hopen (hu.trans (hid.symm.trans hstamp))
        exact this.symm
      · intro hm
        exact ne_of_not_awaits (hmsg hm).2 ht hopen
  rcases hcase with ⟨hsame, ht⟩ | ⟨hpush, ht⟩
  · exact h.advance hsys ht hr hclosed hold
  · have hrest : OwnedSys.Inv { s' with tickets := s.tickets } :=
      h.advance hsys rfl hr hclosed hold
    refine ⟨hsound, ?_⟩
    intro t hmem hopen
    rw [ht] at hmem
    rcases List.mem_append.mp hmem with hmem | hmem
    · exact hrest.waits t hmem hopen
    -- The new ticket: its own SQE is the only one with the minted id.
    · rw [List.mem_singleton.mp hmem] at hopen ⊢
      refine ⟨⟨sqe, ?_, ?_⟩, ?_, ?_⟩
      · rw [hpush, List.getElem?_concat_length]
      · rw [hticket]
        exact hstamp
      · rw [hticket]
        refine hsole.advance hadv h.sound hsound hclosed ?_ hopen
        exact noNewSource_of_push hpush (fun _ => rfl) fun hm => (hmsg hm).1
      · rw [hr, hticket]
        exact hheld

/-- The receipt of an event stands for a terminal CQE that was posted and not reaped. -/
theorem reapEvent_receipt (h : s.sys.Sound) {rs : List KRound} {event : Option Event}
    (he : s.reapEvent rs = some (event, s')) {receipt : Receipt}
    (hr : event.bind Event.intoReceipt = some receipt) :
    ∃ p ∈ s'.sys.world.posted.drop s.sys.reaped.length,
      World.isTerminal p.2 = true ∧ p.2.userData = receipt.id.raw := by
  obtain ⟨hsys, -, -, -, ring, cqe, rfl, hreaped⟩ := reapEvent_eq he
  obtain ⟨v, hv⟩ := (h.step hsys).inv
  cases cqe with
  | none => cases hr
  | some c =>
      -- The completion is the next entry of the history.
      obtain ⟨t, ht⟩ := hv.reaped_prefix
      have hget : (s'.sys.world.posted.map fun p => Completion.ofCqe p.2)[s.sys.reaped.length]?
          = some c := by
        rw [← ht, hreaped, List.append_assoc, List.getElem?_append_right (Nat.le_refl _),
          Nat.sub_self]
        rfl
      rw [List.getElem?_map] at hget
      obtain ⟨p, hp, rfl⟩ := Option.map_eq_some_iff.mp hget
      refine ⟨p, ?_, ?_⟩
      · refine List.mem_iff_getElem?.mpr ⟨0, ?_⟩
        rw [List.getElem?_drop]
        exact hp
      · obtain ⟨hmore, hid⟩ := Event.intoReceipt_ofCompletion hr
        refine ⟨?_, hid.symm⟩
        unfold World.isTerminal
        rw [Bool.not_eq_true']
        exact hmore

theorem Inv.reapEvent (h : s.Inv) {rs : List KRound} {event : Option Event}
    (he : s.reapEvent rs = some (event, s')) (hclosed : s'.Closed) :
    (s'.keep (event.bind Event.intoReceipt)).Inv := by
  obtain ⟨hsys, ht, hr, -, -⟩ := reapEvent_eq he
  have hnew : ∀ (id : UInt64) (slot : Nat), s.sys.NoNewSource s'.sys id slot := by
    intro id slot
    rcases (Sys.step_record hsys).1 with hsame | ⟨sqe, rs', heq, -⟩
    · exact noNewSource_of_same hsame _ _
    · cases heq
  have hinv := h.advance hsys ht hr hclosed fun t _ _ => hnew _ _
  refine ⟨hinv.sound, ?_⟩
  intro t hmem hopen
  have hwaits := hinv.waits t hmem hopen
  refine ⟨hwaits.own, hwaits.sole, ?_⟩
  intro receipt hrec
  rcases List.mem_append.mp hrec with hrec | hrec
  · exact hwaits.unheld receipt hrec
  -- The receipt just made: a waiting ticket's id was on no CQE left to reap.
  · obtain ⟨p, hp, hterm, hid⟩ :=
      reapEvent_receipt h.sound he (Option.mem_toList.mp hrec)
    have hadv := Sys.step_advance hsys
    have hbefore := h.waits t (ht ▸ hmem) (hadv.unfinished hopen)
    rw [← hid]
    exact hbefore.sole.unread_after hadv h.sound (h.sound.step hsys) hclosed (hnew _ _) hopen
      p hp hterm

theorem Inv.reap (h : s.Inv) {rss : List (List KRound)} {receipt : Option Receipt}
    (hr : reap rss s = some (receipt, s')) (hclosed : s'.Closed) : (s'.keep receipt).Inv := by
  induction rss generalizing s with
  | nil => cases hr
  | cons rs rss ih =>
      obtain ⟨event, s1, he, hcase⟩ := reap_cons hr
      rcases hcase with ⟨rfl, rfl⟩ | ⟨hpart, hrest⟩
      · exact h.reapEvent he hclosed
      · have hinv := h.reapEvent he (hclosed.of_grows (reap_grows hrest))
        rw [hpart] at hinv
        -- To keep no receipt is to change nothing.
        have hinv' : s1.Inv :=
          hinv.fewer rfl (fun _ hm => hm) fun _ hm => List.mem_append_left _ hm
        exact ih hinv' hrest

/-- The step lemma. -/
theorem Inv.step (h : s.Inv) {a : OwnedAction B R N} (hc : s.careful a = true)
    (hs : s.step a = some s') (hclosed : s'.Closed) : s'.Inv := by
  cases a with
  | inner a => exact h.inner hc hs hclosed
  | splitOwned ring rs => exact h.splitOwned hs hclosed
  | push request rs => exact h.push hc hs hclosed
  | reapEvent rs =>
      obtain ⟨⟨event, s1⟩, he, rfl⟩ := Option.map_eq_some_iff.mp hs
      exact h.reapEvent he hclosed
  | reap rss =>
      obtain ⟨⟨receipt, s1⟩, hr, rfl⟩ := Option.map_eq_some_iff.mp hs
      exact h.reap hr hclosed
  | redeem ticket receipt =>
      -- a ticket and a receipt that match are used up, others stay
      simp only [OwnedSys.step, redeem] at hs
      split at hs
      · split at hs
        · cases hs
          exact h.fewer rfl (List.eraseIdx_subset) (List.eraseIdx_subset)
        · cases hs
          exact h
      · cases hs
  | dropTicket ticket =>
      cases hs
      exact h.fewer rfl (List.eraseIdx_subset) (fun _ hm => hm)
  | dropReceipt receipt =>
      cases hs
      exact h.fewer rfl (fun _ hm => hm) (List.eraseIdx_subset)

/-- The run lemma. -/
theorem Inv.run (h : s.Inv) {as : List (OwnedAction B R N)} (hc : carefulRun as s = true)
    (hr : s.run as = some s') (hclosed : s'.Closed) : s'.Inv := by
  induction as generalizing s with
  | nil =>
      cases hr
      exact h
  | cons a as ih =>
      obtain ⟨s1, h1, h2⟩ := Option.bind_eq_some_iff.mp hr
      simp only [carefulRun, h1, Bool.and_eq_true] at hc
      exact ih (h.step hc.1 h1 (hclosed.of_grows (run_grows h2))) hc.2 h2

end OwnedSys

/-! ### The law -/

/-- In every careful run, a receipt opens a ticket only when the request of the ticket is over. -/
theorem receipts_authentic {B R : Type} {N : Nat} (params : RingParams)
    (resources : RingResources) (sqStart cqStart : UInt32) (sqArray : Nat → UInt32)
    (sqes : Nat → Sqe) (cqes : Nat → Cqe) (as : List (OwnedAction B R N)) (s : OwnedSys B R N)
    (hr : (OwnedSys.ofSys (Sys.init params resources sqStart cqStart sqArray sqes cqes)).run as
      = some s)
    (hclosed : s.Closed)
    (hc : OwnedSys.carefulRun as
      (OwnedSys.ofSys (Sys.init params resources sqStart cqStart sqArray sqes cqes)) = true) :
    s.ReceiptsAuthentic := by
  have hinit : OwnedSys.Inv (B := B) (R := R) (N := N)
      (OwnedSys.ofSys (Sys.init params resources sqStart cqStart sqArray sqes cqes)) := by
    refine ⟨Sys.Sound.init params resources sqStart cqStart sqArray sqes cqes, ?_⟩
    intro h hmem
    cases hmem
  exact (hinit.run hc hr hclosed).authentic

/-- A `nop` with another `user_data` is left from before the split. It and the owned read
complete, in this order, and both are reaped. -/
def servedRequest : List (OwnedAction MmapBuffer MmapBuffer 0) :=
  [.inner (.call (.push (Sqe.nop.withUserData 99)) [.quiet, .quiet]),
    .splitOwned ⟨7⟩ [.quiet],
    .push (.owned (.single (Prepared.read ⟨4⟩ onePage 0))) [.quiet, .quiet],
    .inner (.call .submit [.quiet, .entered ⟨.ok 2, [.post (.request 0) ⟨99, 0, 0⟩]⟩]),
    .reap [[.quiet, .quiet]],
    .inner (.kernel (.post (.request 1) ⟨1, 64, 0⟩)),
    .reapEvent [.quiet, .quiet]]

theorem receipts_authentic_served :
    ∃ s, (OwnedSys.ofSys Sys.wrapping).run servedRequest = some s ∧
      (s.tickets.any fun h => s.receipts.any h.ticket.accepts) = true ∧
      s.ReceiptsAuthentic := by
  have heval : ((OwnedSys.ofSys Sys.wrapping).run servedRequest).map
      (fun s => (decide s.Closed, s.tickets.any fun h => s.receipts.any h.ticket.accepts))
      = some (true, true) := by decide +kernel
  have hcareful : OwnedSys.carefulRun servedRequest (OwnedSys.ofSys Sys.wrapping) = true := by
    decide +kernel
  obtain ⟨s, hrun, heval⟩ := Option.map_eq_some_iff.mp heval
  obtain ⟨hclosed, hacc⟩ := Prod.mk.inj heval
  exact ⟨s, hrun, hacc, receipts_authentic _ _ _ _ _ _ _ servedRequest s hrun
    (of_decide_eq_true hclosed) hcareful⟩

/-- The `nop` left from before the split carries 1, which is the id of the first owned
request. Only the `nop` completes, and its CQE is reaped. -/
def forgedReceipt : List (OwnedAction MmapBuffer MmapBuffer 0) :=
  [.inner (.call (.push (Sqe.nop.withUserData 1)) [.quiet, .quiet]),
    .splitOwned ⟨7⟩ [.quiet],
    .push (.owned (.single (Prepared.read ⟨4⟩ onePage 0))) [.quiet, .quiet],
    .inner (.call .submit [.quiet, .entered ⟨.ok 2, [.post (.request 0) ⟨1, 0, 0⟩]⟩]),
    .reap [[.quiet, .quiet]]]

/-- The receipt of the `nop` opens the ticket of a read that is in flight. -/
theorem receipts_forged :
    ∃ s, (OwnedSys.ofSys Sys.wrapping).run forgedReceipt = some s ∧ s.Closed ∧
      ¬s.ReceiptsAuthentic := by
  have heval : ((OwnedSys.ofSys Sys.wrapping).run forgedReceipt).map
      (fun s => (decide s.Closed, decide s.ReceiptsAuthentic)) = some (true, false) := by
    decide +kernel
  obtain ⟨s, hrun, heval⟩ := Option.map_eq_some_iff.mp heval
  obtain ⟨hclosed, hforged⟩ := Prod.mk.inj heval
  exact ⟨s, hrun, of_decide_eq_true hclosed, of_decide_eq_false hforged⟩

end Ququmatz
