import Ququmatz.Owned.Rings
import Ququmatz.Proofs.Owned.Custody
import Ququmatz.Proofs.Owned.Receipts

/-!
# `Ququmatz.Proofs.Owned.Rings`: a receipt of one ring opens no ticket of another

In a process with several rings, a ticket that takes a receipt is one of the ring where the receipt
was reaped, and its request is over (`redeem_own_ring`). Three invariants give it. `Stamped` is that
of one ring: what its halves made has the identity of the halves. `Numbered` is that of the counter:
two rings got different identities, as long as there were no more than 2^32 calls. The third is
`OwnedSys.Inv`, which each ring keeps for itself.
-/

set_option autoImplicit false

namespace Ququmatz

open Lib

variable {B R : Type} {N : Nat}

namespace OwnedSys

variable {s s' : OwnedSys B R N}

/-- The tickets and the receipts of a ring have the identity of its halves. -/
structure Stamped (s : OwnedSys B R N) : Prop where
  minted : ∃ k, s.Minted k
  tickets : ∀ t ∈ s.tickets, ∃ ids, s.owner = some (t.ticket.ring, ids)
  receipts : ∀ r ∈ s.receipts, ∃ ids, s.owner = some (r.ring, ids)

/-- The ring of a receipt that a completer of `ring` made. -/
theorem receiptOf_ring {ring : RingId} {cqe : Completion} {r : Receipt}
    (h : receiptOf ring cqe = some r) : r.ring = ring := by
  unfold receiptOf Event.ofCompletion at h
  split at h <;> cases h
  rfl

/-- The owner has the same identity, and there may be more receipts of it. -/
theorem Stamped.more (h : s.Stamped) (hminted : ∃ k, s'.Minted k) {ring : RingId}
    {ids ids' : RequestIdSource} (howner : s.owner = some (ring, ids))
    (howner' : s'.owner = some (ring, ids'))
    (ht : ∀ t ∈ s'.tickets, t ∈ s.tickets ∨ t.ticket.ring = ring)
    (hr : ∀ r ∈ s'.receipts, r ∈ s.receipts ∨ r.ring = ring) : s'.Stamped := by
  have hsame : ∀ ring', (∃ ids, s.owner = some (ring', ids)) →
      ∃ ids, s'.owner = some (ring', ids) := by
    rintro ring' ⟨ids1, h1⟩
    cases howner.symm.trans h1
    exact ⟨ids', howner'⟩
  refine ⟨hminted, fun t hmem => ?_, fun r hmem => ?_⟩
  · cases ht t hmem with
    | inl hold => exact hsame _ (h.tickets t hold)
    | inr hnew => exact ⟨ids', by rw [hnew, howner']⟩
  · cases hr r hmem with
    | inl hold => exact hsame _ (h.receipts r hold)
    | inr hnew => exact ⟨ids', by rw [hnew, howner']⟩

/-- To give a ticket or a receipt away does no harm. -/
theorem Stamped.fewer (h : s.Stamped) (hminted : ∃ k, s'.Minted k) (howner : s'.owner = s.owner)
    (ht : s'.tickets ⊆ s.tickets) (hr : s'.receipts ⊆ s.receipts) : s'.Stamped :=
  ⟨hminted, fun t hmem => howner ▸ h.tickets t (ht hmem),
    fun r hmem => howner ▸ h.receipts r (hr hmem)⟩

theorem Minted.next {k : Nat} (h : s.Minted k) {a : OwnedAction B R N} (hs : s.step a = some s') :
    ∃ n, s'.Minted n := by
  rcases h.step hs with ⟨-, hm, -⟩ | ⟨-, hm, -⟩
  · exact ⟨_, hm⟩
  · exact ⟨_, hm⟩

theorem reap_receipts {rss : List (List KRound)} {receipt : Option Receipt}
    (h : reap rss s = some (receipt, s')) : s'.receipts = s.receipts := by
  induction rss generalizing s with
  | nil => cases h
  | cons rs rss ih =>
      obtain ⟨event, s1, he, hcase⟩ := reap_cons h
      have hsame := (reapEvent_eq he).2.2.1
      rcases hcase with ⟨-, rfl⟩ | ⟨-, hrest⟩
      · exact hsame
      · exact (ih hrest).trans hsame

/-- The step lemma of one ring. -/
theorem Stamped.step (h : s.Stamped) {a : OwnedAction B R N} (ha : a.isSplit = false)
    (hs : s.step a = some s') :
    s'.Stamped ∧ ∀ ring ids', s'.owner = some (ring, ids') → ∃ ids, s.owner = some (ring, ids) := by
  obtain ⟨k, hk⟩ := h.minted
  have hnext := hk.next hs
  -- a step that leaves the owner as it is
  have hkeep : s'.owner = s.owner → s'.tickets ⊆ s.tickets → s'.receipts ⊆ s.receipts →
      s'.Stamped ∧ ∀ ring ids', s'.owner = some (ring, ids') →
        ∃ ids, s.owner = some (ring, ids) := by
    intro howner ht hr
    exact ⟨h.fewer hnext howner ht hr, fun ring ids' h' => ⟨ids', howner ▸ h'⟩⟩
  cases a with
  | inner a =>
      obtain ⟨sys, -, rfl⟩ := Option.map_eq_some_iff.mp hs
      exact hkeep rfl (fun _ hm => hm) fun _ hm => hm
  | splitOwned ring rs => cases ha
  | push request rs =>
      obtain ⟨ring, ids, sqe, ticket, howner, hpend, -, hr, hcase⟩ := push_eq hs
      obtain ⟨⟨ring', ids0⟩, howner0, hpush⟩ := Option.bind_eq_some_iff.mp hs
      cases howner.symm.trans howner0
      have howner' : s'.owner = some (ring, ids.next.2) := by
        obtain ⟨⟨res, sys⟩, -, rfl⟩ := Option.map_eq_some_iff.mp hpush
        cases res <;> rfl
      have hring : ticket.ring = ring := by
        have hgot := request.intoPending_ring ring ids.next.1
        rw [hpend] at hgot
        exact hgot
      refine ⟨h.more hnext howner howner' (fun t hmem => ?_) (fun r hmem => Or.inl (hr ▸ hmem)),
        fun ring' ids' h' => ?_⟩
      · rcases hcase with ⟨-, hsame⟩ | ⟨-, hnew⟩
        · exact Or.inl (hsame ▸ hmem)
        · rw [hnew] at hmem
          cases List.mem_append.mp hmem with
          | inl hold => exact Or.inl hold
          | inr hlast => exact Or.inr (by rw [List.mem_singleton.mp hlast]; exact hring)
      · cases howner'.symm.trans h'
        exact ⟨ids, howner⟩
  | reapEvent rs =>
      obtain ⟨⟨event, s1⟩, he, rfl⟩ := Option.map_eq_some_iff.mp hs
      obtain ⟨⟨ring, ids⟩, howner, -⟩ := Option.bind_eq_some_iff.mp he
      obtain ⟨-, ht, hr, -, -⟩ := reapEvent_eq he
      obtain ⟨cqe, rfl, -, howner1⟩ := reapEvent_reads howner he
      have hlast := toList_receiptOf ring cqe
      refine ⟨h.more hnext howner (howner1.trans howner) (fun t hmem => Or.inl (ht ▸ hmem))
        (fun r hmem => ?_), fun ring' ids' h' => ⟨ids', howner1 ▸ h'⟩⟩
      rcases List.mem_append.mp hmem with hold | hnew
      · exact Or.inl (hr ▸ hold)
      · rw [hlast] at hnew
        obtain ⟨c, -, hc⟩ := List.mem_filterMap.mp hnew
        exact Or.inr (receiptOf_ring hc)
  | reap rss =>
      obtain ⟨⟨receipt, s1⟩, hreap, rfl⟩ := Option.map_eq_some_iff.mp hs
      obtain ⟨ring, ids, howner⟩ : ∃ ring ids, s.owner = some (ring, ids) := by
        cases rss with
        | nil => cases hreap
        | cons rs rss =>
            obtain ⟨event, s2, he, -⟩ := reap_cons hreap
            obtain ⟨⟨ring, ids⟩, howner, -⟩ := Option.bind_eq_some_iff.mp he
            exact ⟨ring, ids, howner⟩
      obtain ⟨read, -, hreceipt, howner1⟩ := reap_reads howner hreap
      have ht := reap_tickets hreap
      have hr := reap_receipts hreap
      refine ⟨h.more hnext howner (howner1.trans howner) (fun t hmem => Or.inl (ht ▸ hmem))
        (fun r hmem => ?_), fun ring' ids' h' => ⟨ids', howner1 ▸ h'⟩⟩
      rcases List.mem_append.mp hmem with hold | hnew
      · exact Or.inl (hr ▸ hold)
      · rw [hreceipt] at hnew
        obtain ⟨c, -, hc⟩ := List.mem_filterMap.mp hnew
        exact Or.inr (receiptOf_ring hc)
  | redeem ticket receipt =>
      simp only [OwnedSys.step, redeem] at hs
      split at hs
      · split at hs <;> cases hs
        · exact hkeep rfl List.eraseIdx_subset List.eraseIdx_subset
        · exact hkeep rfl (fun _ hm => hm) fun _ hm => hm
      · cases hs
  | dropTicket ticket =>
      cases hs
      exact hkeep rfl List.eraseIdx_subset fun _ hm => hm
  | dropReceipt receipt =>
      cases hs
      exact hkeep rfl (fun _ hm => hm) List.eraseIdx_subset

/-- A split gives a ring that had no owner the identity, or changes nothing that is kept here. -/
theorem Stamped.splitOwned (h : s.Stamped) {ring : RingId} {rs : List KRound}
    (hs : s.splitOwned ring rs = some s') :
    s'.Stamped ∧ ∀ ring' ids', s'.owner = some (ring', ids') →
      (∃ ids, s.owner = some (ring', ids)) ∨ ring' = ring := by
  obtain ⟨k, hk⟩ := h.minted
  have hstep : s.step (.splitOwned ring rs) = some s' := hs
  have hnext := hk.next hstep
  obtain ⟨-, ht, hr⟩ := splitOwned_eq hs
  obtain ⟨⟨r, hwhole⟩, hcase⟩ := splitOwned_cases hk.sound hs
  rcases hcase with howner | ⟨howner, -⟩
  · exact ⟨h.fewer hnext howner (fun _ hm => ht ▸ hm) (fun _ hm => hr ▸ hm),
      fun ring' ids' h' => Or.inl ⟨ids', howner ▸ h'⟩⟩
  · -- a ring that is whole has made no ticket and no receipt
    have hnone : ∀ o, s.owner ≠ some o := fun o ho => hk.split o ho r hwhole
    refine ⟨⟨hnext, fun t hmem => ?_, fun r' hmem => ?_⟩, fun ring' ids' h' => Or.inr ?_⟩
    · obtain ⟨ids, hold⟩ := h.tickets t (ht ▸ hmem)
      exact absurd hold (hnone _)
    · obtain ⟨ids, hold⟩ := h.receipts r' (hr ▸ hmem)
      exact absurd hold (hnone _)
    · cases howner.symm.trans h'
      rfl

end OwnedSys

/-! ### The rings together -/

namespace Rings

variable {s s' : Rings B R N}

/-- Ring `i` has halves with the identity. -/
def Names (s : Rings B R N) (i : Nat) (ring : RingId) : Prop :=
  ∃ x ids, s.rings[i]? = some x ∧ x.owner = some (ring, ids)

/-- What a step makes of ring `j`. Most rings stay as they are. -/
inductive Evolves (s : Rings B R N) (a : RingsAction B R N) (j : Nat) : OwnedSys B R N → Prop
  | built {params : RingParams} {resources : RingResources} {sqStart cqStart : UInt32}
      {sqArray : Nat → UInt32} {sqes : Nat → Sqe} {cqes : Nat → Cqe}
      (hnew : s.rings[j]? = none) :
      Evolves s a j
        (OwnedSys.ofSys (Sys.init params resources sqStart cqStart sqArray sqes cqes))
  | splitOwned {x y : OwnedSys B R N} {rs : List KRound} (hx : s.rings[j]? = some x)
      (ha : a = .splitOwned j rs) (hs : x.splitOwned ⟨s.counter⟩ rs = some y) : Evolves s a j y
  | on {x y : OwnedSys B R N} {b : OwnedAction B R N} (hx : s.rings[j]? = some x)
      (ha : a = .on j b) (hb : b.isSplit = false) (hs : x.step b = some y) : Evolves s a j y
  | fewer {x y : OwnedSys B R N} (hx : s.rings[j]? = some x) (hsys : y.sys = x.sys)
      (howner : y.owner = x.owner) (ht : y.tickets ⊆ x.tickets) (hr : y.receipts ⊆ x.receipts) :
      Evolves s a j y

theorem Evolves.same {a : RingsAction B R N} {j : Nat} {x : OwnedSys B R N}
    (hx : s.rings[j]? = some x) : Evolves s a j x :=
  .fewer hx rfl rfl (fun _ hm => hm) fun _ hm => hm

/-- The step lemma for the list of rings: none goes away, and each evolves. -/
theorem evolves_of_step {a : RingsAction B R N} (h : s.step a = some s') :
    (∀ j : Nat, s.rings[j]?.isSome = true → s'.rings[j]?.isSome = true) ∧
      ∀ (j : Nat) y, s'.rings[j]? = some y → Evolves s a j y := by
  -- one ring is replaced, and the others stay
  have hset : ∀ {i : Nat} {x' : OwnedSys B R N}, s'.rings = s.rings.set i x' →
      Evolves s a i x' →
      (∀ j : Nat, s.rings[j]?.isSome = true → s'.rings[j]?.isSome = true) ∧
        ∀ (j : Nat) y, s'.rings[j]? = some y → Evolves s a j y := by
    intro i x' hrings hx'
    rw [hrings]
    refine ⟨fun j hj => ?_, fun j y hy => ?_⟩
    · simpa using hj
    · rw [List.getElem?_set] at hy
      split at hy
      · next heq =>
          subst heq
          split at hy
          · cases hy
            exact hx'
          · cases hy
      · exact .same hy
  cases a with
  | build params resources sqStart cqStart sqArray sqes cqes =>
      cases h
      refine ⟨fun j hj => ?_, fun j y hy => ?_⟩
      · obtain ⟨x, hx⟩ := Option.isSome_iff_exists.mp hj
        rw [List.getElem?_append_left (List.getElem?_eq_some_iff.mp hx).1]
        exact hj
      · rw [List.getElem?_append] at hy
        split at hy
        · exact .same hy
        · next hge =>
            have hlast := List.mem_singleton.mp (List.mem_of_getElem? hy)
            subst hlast
            exact .built (List.getElem?_eq_none (Nat.le_of_not_lt hge))
  | splitOwned i rs =>
      obtain ⟨x, hx, h⟩ := Option.bind_eq_some_iff.mp h
      obtain ⟨x', hs, rfl⟩ := Option.map_eq_some_iff.mp h
      exact hset rfl (.splitOwned hx rfl hs)
  | on i b =>
      simp only [step] at h
      split at h
      · cases h
      · next hb =>
          obtain ⟨x, hx, h⟩ := Option.bind_eq_some_iff.mp h
          obtain ⟨x', hs, rfl⟩ := Option.map_eq_some_iff.mp h
          exact hset rfl (.on hx rfl (Bool.eq_false_iff.mpr hb) hs)
  | redeem i ticket j receipt =>
      obtain ⟨x, hx, h⟩ := Option.bind_eq_some_iff.mp h
      obtain ⟨y, hy, h⟩ := Option.bind_eq_some_iff.mp h
      obtain ⟨t, ht, h⟩ := Option.bind_eq_some_iff.mp h
      obtain ⟨r, hr, rfl⟩ := Option.map_eq_some_iff.mp h
      split
      · refine ⟨fun k hk => by simpa using hk, fun k z hz => ?_⟩
        simp only [List.getElem?_modify] at hz
        obtain ⟨u, hu, rfl⟩ := Option.map_eq_some_iff.mp hz
        obtain ⟨v, hv, rfl⟩ := Option.map_eq_some_iff.mp hu
        -- a ring may have lost a ticket, or a receipt, or both
        refine .fewer hv ?_ ?_ ?_ ?_ <;> split <;> split
        all_goals first | rfl | exact List.eraseIdx_subset | exact fun _ hm => hm
      · exact ⟨fun _ hk => hk, fun _ _ hz => .same hz⟩

/-- A ring that was there grows. -/
theorem Evolves.grows {a : RingsAction B R N} {j : Nat} {x y : OwnedSys B R N}
    (h : Evolves s a j y) (hx : s.rings[j]? = some x) : x.sys.world.Grows y.sys.world := by
  cases h with
  | built hnew => cases hx.symm.trans hnew
  | splitOwned hx' _ hs =>
      cases hx.symm.trans hx'
      exact (Sys.step_advance (OwnedSys.splitOwned_eq hs).1).grows
  | on hx' _ _ hs =>
      cases hx.symm.trans hx'
      exact OwnedSys.step_grows hs
  | fewer hx' hsys _ _ _ =>
      cases hx.symm.trans hx'
      rw [hsys]
      exact World.Grows.refl _

/-- Every posted CQE of every ring comes from a request of that ring. -/
def Closed (s : Rings B R N) : Prop := ∀ (j : Nat) x, s.rings[j]? = some x → x.Closed

theorem Closed.before {a : RingsAction B R N} (h : s'.Closed) (hs : s.step a = some s') :
    s.Closed := by
  intro j x hx
  obtain ⟨hstay, hevolve⟩ := evolves_of_step hs
  obtain ⟨y, hy⟩ := Option.isSome_iff_exists.mp (hstay j (by rw [hx]; rfl))
  exact (h j y hy).of_grows ((hevolve j y hy).grows hx)

theorem Closed.run {as : List (RingsAction B R N)} (h : s'.Closed) (hr : s.run as = some s') :
    s.Closed := by
  induction as generalizing s with
  | nil =>
      cases hr
      exact h
  | cons a as ih =>
      obtain ⟨s1, h1, h2⟩ := Option.bind_eq_some_iff.mp hr
      exact (ih h2).before h1

/-- The state after `k` calls of `RingId::next`. -/
structure Inv (s : Rings B R N) (k : Nat) : Prop where
  counter : s.counter = UInt32.ofNat (1 + k)
  each : ∀ (j : Nat) x, s.rings[j]? = some x → x.Stamped ∧ x.Inv
  numbered : ∀ j ring, s.Names j ring → ∃ c < k, ring = ⟨UInt32.ofNat (1 + c)⟩
  distinct : ∀ i j ring, s.Names i ring → s.Names j ring → i = j

/-- Identities of calls that are less than 2^32 apart differ. -/
theorem ofNat_ne {c k : Nat} (hc : c < k) (hk : k < 2 ^ 32) :
    UInt32.ofNat (1 + c) ≠ UInt32.ofNat (1 + k) := by
  intro heq
  have hval := congrArg UInt32.toNat heq
  rw [UInt32.toNat_ofNat', UInt32.toNat_ofNat'] at hval
  omega

/-- What a step does to the identities: a split may give the next one to a ring. -/
theorem Evolves.names {a : RingsAction B R N} {j : Nat} {y : OwnedSys B R N} {ring : RingId}
    {ids : RequestIdSource} (h : Evolves s a j y) (hs : ∀ x, s.rings[j]? = some x → x.Stamped)
    (hy : y.owner = some (ring, ids)) :
    s.Names j ring ∨ (∃ rs, a = .splitOwned j rs) ∧ ring = ⟨s.counter⟩ := by
  cases h with
  | built _ => cases hy
  | @splitOwned x _ rs hx ha hsplit =>
      rcases ((hs x hx).splitOwned hsplit).2 ring ids hy with ⟨ids', hold⟩ | hnew
      · exact Or.inl ⟨x, ids', hx, hold⟩
      · exact Or.inr ⟨⟨rs, ha⟩, hnew⟩
  | @on x _ b hx _ hb hstep =>
      obtain ⟨ids', hold⟩ := ((hs x hx).step hb hstep).2 ring ids hy
      exact Or.inl ⟨x, ids', hx, hold⟩
  | @fewer x _ hx _ howner _ _ => exact Or.inl ⟨x, ids, hx, howner ▸ hy⟩

/-- What a step does to the counter. -/
theorem step_counter {a : RingsAction B R N} (h : s.step a = some s') :
    s'.counter = if a.isSplit then s.counter + 1 else s.counter := by
  cases a with
  | build params resources sqStart cqStart sqArray sqes cqes =>
      cases h
      rfl
  | splitOwned i rs =>
      obtain ⟨x, hx, h⟩ := Option.bind_eq_some_iff.mp h
      obtain ⟨x', hs, rfl⟩ := Option.map_eq_some_iff.mp h
      rfl
  | on i b =>
      simp only [step] at h
      split at h
      · cases h
      · obtain ⟨x, hx, h⟩ := Option.bind_eq_some_iff.mp h
        obtain ⟨x', hs, rfl⟩ := Option.map_eq_some_iff.mp h
        rfl
  | redeem i ticket j receipt =>
      obtain ⟨x, hx, h⟩ := Option.bind_eq_some_iff.mp h
      obtain ⟨y, hy, h⟩ := Option.bind_eq_some_iff.mp h
      obtain ⟨t, ht, h⟩ := Option.bind_eq_some_iff.mp h
      obtain ⟨r, hr, rfl⟩ := Option.map_eq_some_iff.mp h
      split <;> rfl

/-- The step lemma. -/
theorem Inv.step {k : Nat} (h : s.Inv k) {a : RingsAction B R N}
    (hk : a.isSplit = true → k < 2 ^ 32) (hc : s.careful a = true)
    (hs : s.step a = some s') (hclosed : s'.Closed) :
    s'.Inv (if a.isSplit then k + 1 else k) := by
  obtain ⟨-, hevolve⟩ := evolves_of_step hs
  have hstamped := fun (j : Nat) x (hx : s.rings[j]? = some x) => (h.each j x hx).1
  have hnames : ∀ j ring, s'.Names j ring →
      s.Names j ring ∨ (∃ rs, a = .splitOwned j rs) ∧ ring = ⟨s.counter⟩ := by
    rintro j ring ⟨y, ids, hy, howner⟩
    exact (hevolve j y hy).names (hstamped j) howner
  -- no ring has the identity that comes next
  have hfresh : a.isSplit = true → ∀ j, ¬ s.Names j ⟨s.counter⟩ := by
    intro ha j hj
    obtain ⟨c, hlt, heq⟩ := h.numbered j _ hj
    rw [h.counter] at heq
    exact ofNat_ne hlt (hk ha) (congrArg RingId.raw heq).symm
  refine ⟨?_, fun j y hy => ?_, fun j ring hj => ?_, fun i j ring hi hj => ?_⟩
  · rw [step_counter hs, h.counter]
    split
    · rw [← Nat.add_assoc, UInt32.ofNat_add (1 + k) 1]
      rfl
    · rfl
  · cases hevolve j y hy with
    | @built params resources sqStart cqStart sqArray sqes cqes _ =>
        refine ⟨⟨⟨0, OwnedSys.ofSys_minted params resources sqStart cqStart sqArray sqes cqes⟩,
          fun t ht => ?_, fun r hr => ?_⟩,
          ⟨Sys.Sound.init params resources sqStart cqStart sqArray sqes cqes, fun t ht => ?_⟩⟩
        · cases ht
        · cases hr
        · cases ht
    | @splitOwned x _ rs hx ha hsplit =>
        exact ⟨((h.each j x hx).1.splitOwned hsplit).1,
          (h.each j x hx).2.splitOwned hsplit (hclosed j y hy)⟩
    | @on x _ b hx ha hb hstep =>
        subst ha
        simp only [careful, hx, Option.all_some] at hc
        exact ⟨((h.each j x hx).1.step hb hstep).1,
          (h.each j x hx).2.step hc hstep (hclosed j y hy)⟩
    | @fewer x _ hx hsys howner ht hr =>
        refine ⟨(h.each j x hx).1.fewer ?_ howner ht hr, (h.each j x hx).2.fewer hsys ht hr⟩
        obtain ⟨n, hn⟩ := (h.each j x hx).1.minted
        exact ⟨n, hn.same howner (hsys ▸ hn.sound) fun o ho => hsys ▸ hn.split o (howner ▸ ho)⟩
  · rcases hnames j ring hj with hold | ⟨⟨rs, rfl⟩, rfl⟩
    · obtain ⟨c, hlt, heq⟩ := h.numbered j ring hold
      exact ⟨c, by split <;> omega, heq⟩
    · exact ⟨k, by simp [RingsAction.isSplit], by rw [h.counter]⟩
  · rcases hnames i ring hi with hi | ⟨⟨rs, ha⟩, rfl⟩
    · rcases hnames j ring hj with hj | ⟨⟨rs, rfl⟩, rfl⟩
      · exact h.distinct i j ring hi hj
      · exact absurd hi (hfresh rfl i)
    · rcases hnames j _ hj with hj | ⟨⟨rs', ha'⟩, -⟩
      · exact absurd hj (hfresh (ha ▸ rfl) j)
      · cases ha.symm.trans ha'
        rfl

/-- The run lemma. -/
theorem Inv.run {k : Nat} (h : s.Inv k) {as : List (RingsAction B R N)}
    (hk : k + as.countP RingsAction.isSplit ≤ 2 ^ 32) (hc : carefulRun as s = true)
    (hr : s.run as = some s') (hclosed : s'.Closed) : ∃ n, s'.Inv n := by
  induction as generalizing s k with
  | nil =>
      cases hr
      exact ⟨k, h⟩
  | cons a as ih =>
      obtain ⟨s1, h1, h2⟩ := Option.bind_eq_some_iff.mp hr
      simp only [carefulRun, h1, Bool.and_eq_true] at hc
      rw [List.countP_cons] at hk
      have hstep := h.step (fun ha => by rw [ha] at hk; simp at hk; omega) hc.1 h1
        (hclosed.run h2)
      refine ih hstep ?_ hc.2 h2
      split
      · simp_all
        omega
      · simp_all

theorem init_inv : (init : Rings B R N).Inv 0 := by
  refine ⟨rfl, fun j x hx => ?_, ?_, ?_⟩
  · cases hx
  · rintro j ring ⟨x, ids, hx, -⟩
    cases hx
  · rintro i j ring ⟨x, ids, hx, -⟩
    cases hx

end Rings

/-! ### The law -/

/-- In a process whose rings do not send each other messages, and with at most 2^32 calls of
`split_owned`, a ticket takes a receipt only if both are of the same ring and its request is
over. -/
theorem redeem_own_ring {B R : Type} {N : Nat} (as : List (RingsAction B R N)) (s : Rings B R N)
    (hr : Rings.init.run as = some s) (hclosed : s.Closed)
    (hc : Rings.carefulRun as Rings.init = true)
    (hcalls : as.countP RingsAction.isSplit ≤ 2 ^ 32)
    (i j : Nat) (x y : OwnedSys B R N) (hx : s.rings[i]? = some x) (hy : s.rings[j]? = some y)
    (t : Held B R N) (ht : t ∈ x.tickets) (r : Receipt) (hmem : r ∈ y.receipts)
    (hacc : t.ticket.accepts r = true) :
    i = j ∧ x.sys.world.finished t.slot = true := by
  obtain ⟨n, hinv⟩ := Rings.init_inv.run (by omega) hc hr hclosed
  obtain ⟨idsx, hxname⟩ := (hinv.each i x hx).1.tickets t ht
  obtain ⟨idsy, hyname⟩ := (hinv.each j y hy).1.receipts r hmem
  -- the ticket compares the rings
  have hring : r.ring = t.ticket.ring := by
    rw [t.ticket.accepts_eq] at hacc
    unfold Receipt.belongsTo at hacc
    simp only [Bool.and_eq_true, beq_iff_eq] at hacc
    exact congrArg RingId.mk hacc.2
  have hij : i = j :=
    hinv.distinct i j t.ticket.ring ⟨x, idsx, hx, hxname⟩ ⟨y, idsy, hy, hring ▸ hyname⟩
  subst hij
  cases hx.symm.trans hy
  exact ⟨rfl, (hinv.each i x hx).2.authentic t ht r hmem hacc⟩

/-- A ring of two entries, with its counters about to wrap. -/
def buildWrapping : RingsAction MmapBuffer MmapBuffer 0 :=
  .build
    { sq := twoEntries
      cq := twoEntries
      flags := .empty
      features := 0 }
    { refcount := 1
      fd := ⟨3⟩
      sqRing := ⟨0, 0⟩
      cqRing := ⟨0, 0⟩
      sqesRegion := ⟨0, 0⟩
      selfPage := ⟨0, 0⟩ }
    0xFFFFFFFF 0xFFFFFFFF (fun _ => 0) (fun _ => Sqe.ZEROED) (fun _ => ⟨0, 0, 0⟩)

/-- The owner of ring `i` reads, and reaps the receipt. -/
def readOn (i : Nat) : List (RingsAction MmapBuffer MmapBuffer 0) :=
  [.on i (.push (.owned (.single (Prepared.read ⟨4⟩ onePage 0))) [.quiet, .quiet]),
    .on i (.inner (.call .submit [.quiet, .entered ⟨.ok 1, [.post (.request 0) ⟨1, 64, 0⟩]⟩])),
    .on i (.reap [[.quiet, .quiet]])]

/-- Two rings read, both under the id 1. The receipt of the second is offered to the first. -/
def twoReads : List (RingsAction MmapBuffer MmapBuffer 0) :=
  [buildWrapping, buildWrapping, .splitOwned 0 [.quiet], .splitOwned 1 [.quiet]] ++
    readOn 0 ++ readOn 1 ++ [.redeem 0 0 1 0]

/-- The second ring has one ticket and one receipt that opens it, and none of the first does. -/
def secondOpens (s : Rings MmapBuffer MmapBuffer 0) : Bool :=
  match s.rings with
  | [x, y] =>
      match y.tickets, y.receipts with
      | [t], [r] => decide x.Closed && decide y.Closed && t.ticket.accepts r &&
          x.receipts.all fun r => !t.ticket.accepts r
      | _, _ => false
  | _ => false

theorem redeem_own_ring_twoReads :
    ∃ s x y t r, Rings.init.run twoReads = some s ∧ s.rings = [x, y] ∧ y.tickets = [t] ∧
      y.receipts = [r] ∧ (x.receipts.all fun r => !t.ticket.accepts r) = true ∧
      y.sys.world.finished t.slot = true := by
  have heval : (Rings.init.run twoReads).map secondOpens = some true := by decide +kernel
  have hcareful : Rings.carefulRun twoReads Rings.init = true := by decide +kernel
  obtain ⟨s, hrun, hopens⟩ := Option.map_eq_some_iff.mp heval
  unfold secondOpens at hopens
  split at hopens
  · next x y hrings =>
      split at hopens
      · next t r ht hr =>
          simp only [Bool.and_eq_true, decide_eq_true_eq] at hopens
          obtain ⟨⟨⟨hx, hy⟩, hacc⟩, hother⟩ := hopens
          have hclosed : s.Closed := by
            intro j z hz
            rw [hrings] at hz
            have hmem := List.mem_of_getElem? hz
            simp only [List.mem_cons, List.not_mem_nil, or_false] at hmem
            rcases hmem with rfl | rfl
            · exact hx
            · exact hy
          have hlast : s.rings[1]? = some y := by rw [hrings]; rfl
          have hlaw := redeem_own_ring twoReads s hrun hclosed hcareful (by decide) 1 1 y y hlast
            hlast t (ht ▸ List.mem_singleton_self t) r (hr ▸ List.mem_singleton_self r) hacc
          exact ⟨s, x, y, t, r, hrun, hrings, ht, hr, hother, hlaw.2⟩
      · cases hopens
  · cases hopens

end Ququmatz
