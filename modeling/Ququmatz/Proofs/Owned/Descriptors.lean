import Ququmatz.Owned.Descriptors
import Ququmatz.Proofs.Owned.Results

/-!
# `Ququmatz.Proofs.Owned.Descriptors`: every descriptor is closed once, or has one owner

`Custody.Filed` is what a plain program keeps of its requests: each ticket is that of a request at a
place of its own. Since the receipt that opens a ticket is that of the ticket's own request
(`OwnedSys.Traced`), the file that a redemption adopts is the descriptor that the kernel installed
for that request, and it was not adopted before. `Descriptors.Does` says once what a step does, and
`Accounted` is kept by each: the descriptors that the program has (`Descriptors.held`) are what a
`Ledger` calls owned. `descriptors_owned` is the law of the runs.
-/

set_option autoImplicit false

namespace Ququmatz

open Lib

variable {ι : Type} {K : ι → RequestKind}

theorem receiptOf_result {ring : RingId} {cqe : Completion} {r : Receipt}
    (h : receiptOf ring cqe = some r) : r.result = cqe.result := by
  unfold receiptOf Event.ofCompletion at h
  split at h
  · cases h
  · cases h
    rfl

/-- A receipt that opens a ticket is that of a request that is over. -/
theorem OwnedSys.Traced.authentic {B R : Type} {N : Nat} {s : OwnedSys B R N} {k : Nat}
    (h : s.Traced k) : s.ReceiptsAuthentic := by
  intro t ht r hr hacc
  obtain ⟨cqe, hmem, hterm, -⟩ := (h.reports ht hr hacc).cqe
  exact World.finished_iff.mpr ⟨_, hmem, rfl, hterm⟩

/-! ### The requests of a plain program -/

namespace Custody

variable {s s' : Custody K}

/-- The tickets are those of requests that were accepted, each at a place of its own, and the
ticket of a request in flight is held or leaked. -/
structure Filed (s : Custody K) (k : Nat) : Prop where
  tracked : s.Tracked
  traced : s.own.Traced k
  tickets : ∀ t ∈ s.tickets, t ∈ s.taken
  places : (s.taken.map Taken.slot).Nodup
  kept : ∀ t, s.InFlight t → t ∈ s.tickets ∨ t ∈ s.leaked

theorem Filed.slot_lt {k : Nat} (h : s.Filed k) {t : Taken K} (ht : t ∈ s.taken) :
    t.slot < s.own.sys.accepted.length :=
  (List.getElem?_eq_some_iff.mp (h.tracked.accepted t ht)).1

/-- Two requests at the same place are the same. -/
theorem Filed.same {k : Nat} (h : s.Filed k) {t u : Taken K} (ht : t ∈ s.taken)
    (hu : u ∈ s.taken) (heq : t.slot = u.slot) : t = u :=
  List.inj_on_of_nodup_map h.places ht hu heq

/-- The tickets have places of their own. -/
theorem Filed.slots {k : Nat} (h : s.Filed k) : (s.tickets.map Taken.slot).Nodup := by
  have hslots := h.traced.slots
  rw [h.tracked.tickets, List.map_map] at hslots
  exact hslots

/-- The step lemma. -/
theorem Filed.step {k : Nat} (h : s.Filed k) {a : CustodyAction K}
    (hk : a.isPush = true → k < 2 ^ 64) (ha : s.plain a = true) (hs : s.step a = some s')
    (hclosed : s'.own.Closed) : s'.Filed (if a.isPush then k + 1 else k) := by
  have hdoes := does_of_step h.tracked.tickets hs
  refine ⟨h.tracked.step hs, ?_, hdoes.filed h.tickets, ?_,
    hdoes.keeps h.tracked.tickets h.traced.authentic h.kept⟩
  · rcases hdoes.own with ⟨hnone, hsame⟩ | ⟨b, hb, hstep⟩
    · rw [hsame]
      -- what is no step of the owned ring is no push
      cases hdoes <;> first | exact h.traced | (simp_all [ownAction])
    · rw [← isPush_own hs hb] at hk ⊢
      unfold plain at ha
      rw [hb] at ha
      exact h.traced.step hk ha hstep hclosed
  · cases hdoes with
    | push ht _ _ _ =>
        rw [List.map_append, List.map_singleton]
        refine List.nodup_append.mpr ⟨h.places, List.nodup_singleton _, ?_⟩
        intro i hi j hj
        obtain ⟨u, hu, rfl⟩ := List.mem_map.mp hi
        rw [List.mem_singleton.mp hj, (attempt_eq ht).2.1]
        exact Nat.ne_of_lt (h.slot_lt hu)
    | _ => exact h.places

end Custody

/-! ### What a step does -/

namespace Descriptors

variable {Y : ∀ k, (K k).Yields} {s s' : Descriptors K}

@[simp] theorem adopt_custody (c : Custody K) (x : Option (Nat × File)) :
    (s.adopt c x).custody = c := by
  cases x <;> rfl

/-- What a receipt gives the ticket of a request. -/
def gain (Y : ∀ k, (K k).Yields) (t : Taken K) (r : Receipt) : Option (Nat × File) :=
  (if (Y t.kind).opens then PendingOpenat2.claim r.result else none).map fun file => (t.slot, file)

/-- The effects of a step, each with its guard. -/
inductive Does (Y : ∀ k, (K k).Yields) (s : Descriptors K) :
    DescriptorAction K → Descriptors K → Prop
  /-- No ticket is used up. -/
  | custody {a : CustodyAction K} {c : Custody K} (hstep : s.custody.step a = some c)
      (hkeep : s.custody.tickets ++ s.custody.leaked ⊆ c.tickets ++ c.leaked) :
      Does Y s (.custody a) (s.adopt c none)
  | redeem {i j : Nat} {t : Taken K} {r : Receipt} {c : Custody K}
      (hstep : s.custody.step (.redeem i j) = some c) (ht : s.custody.tickets[i]? = some t)
      (hr : r ∈ s.custody.own.receipts) (hown : r.belongsTo t.ring t.id = true)
      (htickets : c.tickets = s.custody.tickets.eraseIdx i)
      (hleaked : c.leaked = s.custody.leaked) :
      Does Y s (.custody (.redeem i j)) (s.adopt c (gain Y t r))
  | install {slot : Nat} {fd : RawFd} (hmay : s.mayInstall Y slot fd) :
      Does Y s (.install slot fd)
        { s with table := s.table.acquire fd, installs := s.installs ++ [(slot, fd)] }
  | opened {call : OpenCall} {fd : RawFd} {o : Owner} (hfd : fd ∉ s.table.live)
      (ho : o.fd = fd) :
      Does Y s (.openCall call (.ok fd))
        { s with table := s.table.acquire fd, owners := s.owners ++ [o] }
  | unopened {call : OpenCall} {errno : Errno} : Does Y s (.openCall call (.error errno)) s
  | close {i : Nat} {o : Owner} {answer : Except Errno Unit} (ho : s.owners[i]? = some o) :
      Does Y s (.close i answer)
        { s with table := s.table.release o.fd, owners := s.owners.eraseIdx i }
  | drop {i : Nat} {o : Owner} {answer : Except Errno Unit} (ho : s.owners[i]? = some o) :
      Does Y s (.drop i answer)
        { s with table := s.table.release o.fd, owners := s.owners.eraseIdx i }
  | intoFd {i : Nat} {o : Owner} (ho : s.owners[i]? = some o) :
      Does Y s (.intoFd i) { s with owners := s.owners.eraseIdx i, raws := s.raws ++ [o.fd] }
  | fromFd {adopter : Adopter} {i : Nat} {fd : RawFd} {o : Owner} (hfd : s.raws[i]? = some fd)
      (ho : o.fd = fd) :
      Does Y s (.fromFd adopter i) { s with owners := s.owners ++ [o], raws := s.raws.eraseIdx i }
  | closeRaw {i : Nat} {fd : RawFd} {answer : Except Errno Unit} (hfd : s.raws[i]? = some fd) :
      Does Y s (.closeRaw i answer)
        { s with table := s.table.release fd, raws := s.raws.eraseIdx i }

/-- A redemption uses its ticket up and adopts what the receipt gives, or nothing happens. -/
theorem does_redeem {i j : Nat} {c : Custody K} (h : s.custody.step (.redeem i j) = some c) :
    Does Y s (.custody (.redeem i j)) (s.adopt c (s.adopted Y (.redeem i j))) := by
  have hstep := h
  change s.custody.redeem i j = some c at h
  unfold Custody.redeem at h
  unfold adopted
  split at h
  · next t r ht hr =>
      obtain ⟨own, hown, h⟩ := Option.map_eq_some_iff.mp h
      unfold Taken.pending at h ⊢
      rcases (K t.kind).redeem_cases t.request t.ring t.id r with
        ⟨hbelongs, done, hredeem, -⟩ | ⟨hbelongs, hredeem⟩
      · have hfile := (Y t.kind).file_redeem t.request t.ring t.id r done hredeem
        rw [hredeem] at h
        simp only [ht, hr, hredeem, hfile]
        subst h
        exact .redeem hstep ht (List.mem_of_getElem? hr) hbelongs rfl rfl
      · rw [hredeem] at h
        simp only [ht, hr, hredeem]
        subst h
        exact .custody hstep (List.Subset.refl _)
  · cases h

/-- What does not redeem uses no ticket up. -/
theorem keeps_tickets {c c' : Custody K} {a : CustodyAction K} (h : Custody.Does c a c')
    (ha : ∀ i j, a ≠ .redeem i j) : c.tickets ++ c.leaked ⊆ c'.tickets ++ c'.leaked := by
  intro t ht
  cases h with
  | push _ _ _ _ =>
      rcases List.mem_append.mp ht with ht | ht
      · exact List.mem_append_left _ (List.mem_append_left _ ht)
      · exact List.mem_append_right _ ht
  | redeem _ _ _ _ _ _ => exact absurd rfl (ha _ _)
  | @dropTicket i u own hu hstep =>
      rcases List.mem_append.mp ht with ht | ht
      · obtain ⟨hlt, rfl⟩ := List.getElem?_eq_some_iff.mp hu
        rw [← (List.getElem_cons_eraseIdx_perm hlt).mem_iff, List.mem_cons] at ht
        rcases ht with rfl | ht
        · exact List.mem_append_right _ (List.mem_append_right _ (List.mem_singleton_self _))
        · exact List.mem_append_left _ ht
      · exact List.mem_append_right _ (List.mem_append_left _ ht)
  | _ => exact ht

theorem does_of_effect (htickets : s.custody.own.tickets = s.custody.tickets.map Taken.held)
    {a : DescriptorAction K} (h : s.effect Y a = some s') : Does Y s a s' := by
  cases a with
  | custody a =>
      obtain ⟨c, hstep, rfl⟩ := Option.map_eq_some_iff.mp h
      have hdoes := Custody.does_of_step htickets hstep
      cases a with
      | redeem i j => exact does_redeem hstep
      | _ => exact .custody hstep (keeps_tickets hdoes fun i j heq => by cases heq)
  | install slot fd =>
      simp only [effect, Option.ite_none_right_eq_some] at h
      obtain ⟨hmay, h⟩ := h
      cases h
      exact .install hmay
  | openCall call answer =>
      cases answer with
      | error errno =>
          cases h
          exact .unopened
      | ok fd =>
          obtain ⟨o, howner, hfd⟩ := call.owner_ok fd
          simp only [effect, howner, Option.ite_none_left_eq_some] at h
          obtain ⟨hlive, h⟩ := h
          cases h
          exact .opened hlive hfd
  | close i answer =>
      obtain ⟨o, ho, h⟩ := Option.bind_eq_some_iff.mp h
      obtain ⟨⟨res, table⟩, hclose, rfl⟩ := Option.map_eq_some_iff.mp h
      rw [Owner.close_eq hclose]
      exact .close ho
  | drop i answer =>
      obtain ⟨o, ho, rfl⟩ := Option.map_eq_some_iff.mp h
      rw [Owner.drop_eq]
      exact .drop ho
  | intoFd i =>
      obtain ⟨o, ho, rfl⟩ := Option.map_eq_some_iff.mp h
      rw [Owner.intoFd_eq]
      exact .intoFd ho
  | fromFd adopter i =>
      obtain ⟨fd, hfd, rfl⟩ := Option.map_eq_some_iff.mp h
      exact .fromFd hfd (adopter.fd_fromFd fd)
  | closeRaw i answer =>
      obtain ⟨fd, hfd, rfl⟩ := Option.map_eq_some_iff.mp h
      exact .closeRaw hfd

/-! ### What every step keeps -/

/-- To adopt a descriptor takes one off those that were not claimed. -/
theorem claim_perm {installs : List (Nat × RawFd)} {claimed : List Nat} {slot : Nat} {fd : RawFd}
    (hnodup : (installs.map Prod.fst).Nodup) (hmem : (slot, fd) ∈ installs)
    (hslot : slot ∉ claimed) :
    ((installs.filter fun x => decide (x.1 ∉ claimed)).map Prod.snd).Perm
      (fd :: (installs.filter fun x => decide (x.1 ∉ slot :: claimed)).map Prod.snd) := by
  induction installs with
  | nil => cases hmem
  | cons x xs ih =>
      rw [List.map_cons, List.nodup_cons] at hnodup
      rcases List.mem_cons.mp hmem with rfl | hmem
      · -- the others have other places
        have hrest : xs.filter (fun x => decide (x.1 ∉ slot :: claimed))
            = xs.filter fun x => decide (x.1 ∉ claimed) := by
          refine List.filter_congr fun y hy => ?_
          have hne : y.1 ≠ slot := by
            intro heq
            have hmem : y.1 ∈ xs.map Prod.fst := List.mem_map_of_mem hy
            rw [heq] at hmem
            exact hnodup.1 hmem
          simp [hne]
        rw [List.filter_cons_of_pos (by simpa using hslot), List.filter_cons_of_neg (by simp),
          hrest]
        exact List.Perm.refl _
      · have hne : x.1 ≠ slot := by
          intro heq
          exact hnodup.1 (heq ▸ List.mem_map_of_mem (f := Prod.fst) hmem)
        have hperm := ih hnodup.2 hmem
        by_cases hx : x.1 ∈ claimed
        · rw [List.filter_cons_of_neg (by simpa using hx),
            List.filter_cons_of_neg (by simp [hx])]
          exact hperm
        · rw [List.filter_cons_of_pos (by simpa using hx),
            List.filter_cons_of_pos (by simp [hx, hne])]
          exact (hperm.cons _).trans (List.Perm.swap _ _ _)

/-- Every descriptor that was opened since the start was closed once or has one owner, and one that
was not adopted waits for a ticket. -/
structure Accounted (Y : ∀ k, (K k).Yields) (start : FdTable) (s : Descriptors K) (k : Nat) :
    Prop where
  filed : s.custody.Filed k
  honest : s.Honest Y
  installed : ∀ x ∈ s.installs, ∃ t ∈ s.custody.taken, t.slot = x.1 ∧ (Y t.kind).opens = true
  once : (s.installs.map Prod.fst).Nodup
  claims : ∀ slot ∈ s.claimed, slot ∈ s.installs.map Prod.fst
  unused : ∀ t ∈ s.custody.tickets, t.slot ∉ s.claimed
  waiting : ∀ x ∈ s.installs, x.1 ∈ s.claimed ∨
    ∃ t ∈ s.custody.tickets ++ s.custody.leaked, t.slot = x.1
  since : ∃ closed, Ledger.Since start closed s.held s.table

variable {start : FdTable} {k : Nat}

/-- A descriptor was claimed only at the place of a request that was accepted. -/
theorem Accounted.claimed_lt (h : s.Accounted Y start k) {slot : Nat} (hslot : slot ∈ s.claimed) :
    slot < s.custody.own.sys.accepted.length := by
  obtain ⟨x, hx, rfl⟩ := List.mem_map.mp (h.claims slot hslot)
  obtain ⟨t, ht, heq, -⟩ := h.installed x hx
  exact heq ▸ h.filed.slot_lt ht

/-- What a receipt gives the ticket that it opens is what was installed for its request. -/
theorem Accounted.gain_eq (h : s.Accounted Y start k) {t : Taken K} {r : Receipt}
    (ht : t ∈ s.custody.tickets) (hr : r ∈ s.custody.own.receipts)
    (hown : r.belongsTo t.ring t.id = true) :
    s.installs.lookup t.slot = (gain Y t r).map fun x => x.2.fd := by
  have htaken := h.filed.tickets t ht
  cases hopens : (Y t.kind).opens with
  | true =>
      have hheld : t.held ∈ s.custody.own.tickets := by
        rw [h.filed.tracked.tickets]
        exact List.mem_map_of_mem ht
      obtain ⟨cqe, hcqe, hterm, hreceipt⟩ := (h.filed.traced.reports hheld hr hown).cqe
      rw [h.honest _ hcqe t htaken rfl hterm hopens, ← receiptOf_result hreceipt]
      simp only [gain, hopens, if_true, Option.map_map]
      rfl
  | false =>
      simp only [gain, hopens, Bool.false_eq_true, if_false, Option.map_none]
      refine List.lookup_eq_none_iff.mpr fun x hx => ?_
      -- nothing is installed for a request that opens nothing
      obtain ⟨u, hu, hslot, hu'⟩ := h.installed x hx
      refine bne_iff_ne.mpr fun heq => ?_
      rw [h.filed.same hu htaken (hslot.trans heq.symm), hopens] at hu'
      cases hu'

theorem gain_slot {t : Taken K} {r : Receipt} {x : Nat × File} (h : gain Y t r = some x) :
    x.1 = t.slot := by
  obtain ⟨file, -, rfl⟩ := Option.map_eq_some_iff.mp h
  rfl

/-- Nothing was claimed with a ticket that is left or new. -/
theorem Accounted.unused_after (h : s.Accounted Y start k) {a : CustodyAction K} {c : Custody K}
    (hdoes : Custody.Does s.custody a c) {t : Taken K} (ht : t ∈ c.tickets) :
    t.slot ∉ s.claimed := by
  intro hslot
  exact h.unused t (hdoes.ticket_before ht (h.claimed_lt hslot)) hslot

theorem Accounted.custody (h : s.Accounted Y start k) {a : CustodyAction K} {c : Custody K}
    (hdoes : Custody.Does s.custody a c) {n : Nat} (hfiled : c.Filed n)
    (hhonest : (s.adopt c none).Honest Y)
    (hkeep : s.custody.tickets ++ s.custody.leaked ⊆ c.tickets ++ c.leaked) :
    (s.adopt c none).Accounted Y start n where
  filed := hfiled
  honest := hhonest
  installed := fun x hx => by
    obtain ⟨t, ht, hkind⟩ := h.installed x hx
    exact ⟨t, hdoes.taken ht, hkind⟩
  once := h.once
  claims := h.claims
  unused := fun _ ht => h.unused_after hdoes ht
  waiting := fun x hx => (h.waiting x hx).imp id fun ⟨t, ht, hslot⟩ => ⟨t, hkeep ht, hslot⟩
  since := h.since

/-- The ticket that is used up is that of no other request. -/
theorem Accounted.others (h : s.Accounted Y start k) {i : Nat} {t u : Taken K}
    (ht : s.custody.tickets[i]? = some t) (hu : u ∈ s.custody.tickets.eraseIdx i) :
    u.slot ≠ t.slot := by
  obtain ⟨hlt, rfl⟩ := List.getElem?_eq_some_iff.mp ht
  have hslots := ((List.getElem_cons_eraseIdx_perm hlt).map Taken.slot).nodup_iff.mpr h.filed.slots
  rw [List.map_cons, List.nodup_cons] at hslots
  intro heq
  exact hslots.1 (heq ▸ List.mem_map_of_mem hu)

/-- What is installed for another request waits for a ticket that is left. -/
theorem Accounted.still_waiting (h : s.Accounted Y start k) {i : Nat} {t : Taken K} {c : Custody K}
    (ht : s.custody.tickets[i]? = some t) (htickets : c.tickets = s.custody.tickets.eraseIdx i)
    (hleaked : c.leaked = s.custody.leaked) {x : Nat × RawFd} (hx : x ∈ s.installs)
    (hne : x.1 ≠ t.slot) :
    x.1 ∈ s.claimed ∨ ∃ u ∈ c.tickets ++ c.leaked, u.slot = x.1 := by
  refine (h.waiting x hx).imp id fun ⟨u, hu, hslot⟩ => ⟨u, ?_, hslot⟩
  rw [htickets, hleaked]
  rcases List.mem_append.mp hu with hu | hu
  · obtain ⟨hlt, rfl⟩ := List.getElem?_eq_some_iff.mp ht
    rw [← (List.getElem_cons_eraseIdx_perm hlt).mem_iff, List.mem_cons] at hu
    rcases hu with rfl | hu
    · exact absurd hslot.symm hne
    · exact List.mem_append_left _ hu
  · exact List.mem_append_right _ hu

theorem Accounted.redeem (h : s.Accounted Y start k) {i j n : Nat} {t : Taken K} {r : Receipt}
    {c : Custody K} (hdoes : Custody.Does s.custody (.redeem i j) c)
    (ht : s.custody.tickets[i]? = some t) (hr : r ∈ s.custody.own.receipts)
    (hown : r.belongsTo t.ring t.id = true)
    (htickets : c.tickets = s.custody.tickets.eraseIdx i) (hleaked : c.leaked = s.custody.leaked)
    (hfiled : c.Filed n) (hhonest : (s.adopt c (gain Y t r)).Honest Y) :
    (s.adopt c (gain Y t r)).Accounted Y start n := by
  have hmem := List.mem_of_getElem? ht
  have hgain := h.gain_eq hmem hr hown
  have hinstalled : ∀ x ∈ s.installs, ∃ u ∈ c.taken, u.slot = x.1 ∧ (Y u.kind).opens = true := by
    intro x hx
    obtain ⟨u, hu, hkind⟩ := h.installed x hx
    exact ⟨u, hdoes.taken hu, hkind⟩
  cases heq : gain Y t r with
  | none =>
      rw [heq] at hgain hhonest
      -- nothing was installed for this request
      have hnone := List.lookup_eq_none_iff.mp hgain
      exact {
        filed := hfiled
        honest := hhonest
        installed := hinstalled
        once := h.once
        claims := h.claims
        unused := fun _ hu => h.unused_after hdoes hu
        waiting := fun x hx => h.still_waiting ht htickets hleaked hx
          (bne_iff_ne.mp (hnone x hx)).symm
        since := h.since }
  | some x =>
      obtain ⟨slot, file⟩ := x
      obtain rfl : slot = t.slot := gain_slot heq
      rw [heq] at hgain hhonest
      obtain ⟨l₁, l₂, hinstalls, -⟩ := List.lookup_eq_some_iff.mp hgain
      have hentry : (t.slot, file.fd) ∈ s.installs := by
        rw [hinstalls]
        exact List.mem_append_right _ List.mem_cons_self
      have hclaim := claim_perm h.once hentry (h.unused t hmem)
      obtain ⟨closed, hsince⟩ := h.since
      exact {
        filed := hfiled
        honest := hhonest
        installed := hinstalled
        once := h.once
        claims := List.forall_mem_cons.mpr ⟨List.mem_map_of_mem (f := Prod.fst) hentry, h.claims⟩
        unused := fun u hu hslot => by
          rcases List.mem_cons.mp hslot with hslot | hslot
          · exact h.others ht (htickets ▸ hu) hslot
          · exact h.unused_after hdoes hu hslot
        waiting := fun x hx => by
          by_cases hx' : x.1 = t.slot
          · exact Or.inl (List.mem_cons.mpr (Or.inl hx'))
          · exact (h.still_waiting ht htickets hleaked hx hx').imp (List.mem_cons_of_mem _) id
        since := by
          refine ⟨closed, hsince.perm ?_⟩
          show (s.owners.map Owner.fd ++ s.raws ++ _).Perm
            ((s.owners ++ [Owner.file file]).map Owner.fd ++ s.raws ++ _)
          rw [List.map_append, List.append_assoc, List.append_assoc, List.append_assoc]
          refine List.Perm.append_left _ ?_
          exact (hclaim.append_left s.raws).trans List.perm_middle }

/-- What the program does with descriptors is no step of its requests. -/
theorem Accounted.holds (h : s.Accounted Y start k) {table : FdTable} {owners : List Owner}
    {raws closed : List RawFd}
    (hsince : Ledger.Since start closed (owners.map Owner.fd ++ raws ++ s.unclaimed) table) :
    { s with table := table, owners := owners, raws := raws }.Accounted Y start k where
  filed := h.filed
  honest := h.honest
  installed := h.installed
  once := h.once
  claims := h.claims
  unused := h.unused
  waiting := h.waiting
  since := ⟨closed, hsince⟩

/-- The kernel opens a descriptor for a request in flight, whose ticket is held or leaked. -/
theorem Accounted.install (h : s.Accounted Y start k) {slot : Nat} {fd : RawFd}
    (hmay : s.mayInstall Y slot fd)
    (hhonest : { s with
      table := s.table.acquire fd
      installs := s.installs ++ [(slot, fd)] }.Honest Y) :
    { s with
      table := s.table.acquire fd
      installs := s.installs ++ [(slot, fd)] }.Accounted Y start k := by
  obtain ⟨⟨t, ht, hslot, hopens⟩, hflight, hnew, hfd⟩ := hmay
  have hclaimed : slot ∉ s.claimed := fun hmem => hnew (h.claims slot hmem)
  exact {
    filed := h.filed
    honest := hhonest
    installed := fun x hx => by
      rcases List.mem_append.mp hx with hx | hx
      · exact h.installed x hx
      · rw [List.mem_singleton.mp hx]
        exact ⟨t, ht, hslot, hopens⟩
    once := by
      rw [List.map_append, List.map_singleton]
      refine List.nodup_append.mpr ⟨h.once, List.nodup_singleton _, ?_⟩
      intro i hi j hj heq
      rw [List.mem_singleton.mp hj] at heq
      rw [heq] at hi
      exact hnew hi
    claims := fun i hi => by
      rw [List.map_append]
      exact List.mem_append_left _ (h.claims i hi)
    unused := h.unused
    waiting := fun x hx => by
      rcases List.mem_append.mp hx with hx | hx
      · exact h.waiting x hx
      · rw [List.mem_singleton.mp hx]
        have hkept := h.filed.kept t ⟨ht, hslot ▸ hflight⟩
        exact Or.inr ⟨t, List.mem_append.mpr hkept, hslot⟩
    since := by
      obtain ⟨closed, hsince⟩ := h.since
      refine ⟨closed, (hsince.acquire hfd).perm ?_⟩
      show (fd :: (s.owners.map Owner.fd ++ s.raws ++ _)).Perm (s.owners.map Owner.fd ++ s.raws ++
        ((s.installs ++ [(slot, fd)]).filter _).map Prod.snd)
      rw [List.filter_append, List.filter_cons_of_pos (by simpa using hclaimed), List.filter_nil,
        List.map_append, List.map_singleton, ← List.append_assoc]
      exact (List.perm_append_singleton _ _).symm }

/-- The owners without the one that is used up. -/
theorem owners_perm {owners : List Owner} {i : Nat} {o : Owner} (ho : owners[i]? = some o) :
    (owners.map Owner.fd).Perm (o.fd :: (owners.eraseIdx i).map Owner.fd) := by
  obtain ⟨hlt, rfl⟩ := List.getElem?_eq_some_iff.mp ho
  exact ((List.getElem_cons_eraseIdx_perm hlt).map Owner.fd).symm

theorem concat_perm (owners : List Owner) {o : Owner} {fd : RawFd} (ho : o.fd = fd) :
    (fd :: owners.map Owner.fd).Perm ((owners ++ [o]).map Owner.fd) := by
  rw [List.map_append, List.map_singleton, ho]
  exact (List.perm_append_singleton _ _).symm

theorem raws_perm {raws : List RawFd} {i : Nat} {fd : RawFd} (hfd : raws[i]? = some fd) :
    raws.Perm (fd :: raws.eraseIdx i) := by
  obtain ⟨hlt, rfl⟩ := List.getElem?_eq_some_iff.mp hfd
  exact (List.getElem_cons_eraseIdx_perm hlt).symm

/-- The action is a call of a push method. -/
def isPush : DescriptorAction K → Bool
  | .custody a => a.isPush
  | _ => false

/-- The action is a plain one of the owned ring, or none of it. -/
def plain (s : Descriptors K) : DescriptorAction K → Bool
  | .custody a => s.custody.plain a
  | _ => true

/-- A descriptor of the program is closed. -/
theorem since_release {own rest : List RawFd} {table : FdTable} {closed : List RawFd} {fd : RawFd}
    (h : Ledger.Since start closed own table) (hperm : own.Perm (fd :: rest)) :
    Ledger.Since start (closed ++ [fd]) rest (table.release fd) := by
  have hreleased := (h.perm hperm).release (r := fd) List.mem_cons_self
  rw [List.erase_cons_head] at hreleased
  exact hreleased

/-- The step lemma. -/
theorem Accounted.step (h : s.Accounted Y start k) {a : DescriptorAction K}
    (hk : isPush a = true → k < 2 ^ 64) (ha : s.plain a = true) (hs : s.step Y a = some s')
    (hclosed : s'.custody.own.Closed) : s'.Accounted Y start (if isPush a then k + 1 else k) := by
  obtain ⟨heffect, hhonest⟩ := Option.filter_eq_some_iff.mp hs
  have hhonest : s'.Honest Y := of_decide_eq_true hhonest
  obtain ⟨closed, hsince⟩ := h.since
  have htickets := h.filed.tracked.tickets
  cases does_of_effect htickets heffect with
  | @custody a c hstep hkeep =>
      have hdoes := Custody.does_of_step htickets hstep
      exact h.custody hdoes (h.filed.step hk ha hstep hclosed) hhonest hkeep
  | @redeem i j t r c hstep ht hr hown hleft hleaked =>
      rw [adopt_custody] at hclosed
      have hfiled := h.filed.step (a := .redeem i j) hk ha hstep hclosed
      exact h.redeem (Custody.does_of_step htickets hstep) ht hr hown hleft hleaked hfiled hhonest
  | install hmay => exact h.install hmay hhonest
  | @opened call fd o hfd ho =>
      exact h.holds ((hsince.acquire hfd).perm
        (((concat_perm s.owners ho).append_right _).append_right _))
  | unopened => exact h
  | @close i o answer ho =>
      exact h.holds (since_release hsince (((owners_perm ho).append_right _).append_right _))
  | @drop i o answer ho =>
      exact h.holds (since_release hsince (((owners_perm ho).append_right _).append_right _))
  | @intoFd i o ho =>
      have hmoved := ((owners_perm ho).append_right s.raws).trans List.perm_middle.symm
      have hlast := (List.perm_append_singleton o.fd s.raws).symm
      exact h.holds (hsince.perm ((hmoved.trans (hlast.append_left _)).append_right _))
  | @fromFd adopter i fd o hfd ho =>
      have hmoved := ((raws_perm hfd).append_left (s.owners.map Owner.fd)).trans List.perm_middle
      have hlast := concat_perm s.owners ho
      exact h.holds (hsince.perm ((hmoved.trans (hlast.append_right _)).append_right _))
  | @closeRaw i fd answer hfd =>
      have hfirst := ((raws_perm hfd).append_left (s.owners.map Owner.fd)).trans List.perm_middle
      exact h.holds (since_release hsince (hfirst.append_right _))

/-- The custody makes its own step, or none. -/
theorem step_custody (h : s.custody.Tracked) {a : DescriptorAction K} (hs : s.step Y a = some s') :
    s'.custody.Tracked ∧ s.custody.own.sys.world.Grows s'.custody.own.sys.world := by
  have heffect := (Option.filter_eq_some_iff.mp hs).1
  have hmoves : ∀ {b : CustodyAction K} {c : Custody K}, s.custody.step b = some c →
      c.Tracked ∧ s.custody.own.sys.world.Grows c.own.sys.world :=
    fun hstep => ⟨h.step hstep, (Custody.does_of_step h.tickets hstep).grows⟩
  cases does_of_effect h.tickets heffect with
  | custody hstep _ => exact hmoves hstep
  | redeem hstep _ _ _ _ _ =>
      rw [adopt_custody]
      exact hmoves hstep
  | _ => exact ⟨h, World.Grows.refl _⟩

theorem isRun : IsRun (Descriptors.step Y) (Descriptors.run Y) := ⟨fun _ => rfl, fun _ _ _ => rfl⟩

theorem run_grows (h : s.custody.Tracked) {as : List (DescriptorAction K)}
    (hr : s.run Y as = some s') : s.custody.own.sys.world.Grows s'.custody.own.sys.world := by
  have hkeeps := isRun.keeps
    (P := fun t : Descriptors K =>
      t.custody.Tracked ∧ s.custody.own.sys.world.Grows t.custody.own.sys.world)
    (fun t _ t' h hs =>
      have hnext := step_custody h.1 hs
      ⟨hnext.1, h.2.trans hnext.2⟩)
    ⟨h, World.Grows.refl _⟩ hr
  exact hkeeps.2

/-- Every step of the run is plain in the state it starts from. -/
def plainRun (Y : ∀ k, (K k).Yields) : List (DescriptorAction K) → Descriptors K → Bool
  | [], _ => true
  | a :: as, s =>
      s.plain a &&
        match s.step Y a with
        | none => false
        | some s' => plainRun Y as s'

/-- The run lemma. -/
theorem Accounted.run (h : s.Accounted Y start k) {as : List (DescriptorAction K)}
    (hc : plainRun Y as s = true) (hcount : k + as.countP isPush ≤ 2 ^ 64)
    (hr : s.run Y as = some s') (hclosed : s'.custody.own.Closed) :
    ∃ n, s'.Accounted Y start n := by
  induction as generalizing s k with
  | nil =>
      cases hr
      exact ⟨k, h⟩
  | cons a as ih =>
      obtain ⟨s1, h1, h2⟩ := Option.bind_eq_some_iff.mp hr
      simp only [plainRun, h1, Bool.and_eq_true] at hc
      rw [List.countP_cons] at hcount
      have hk : isPush a = true → k < 2 ^ 64 := by
        intro hpush
        rw [if_pos hpush] at hcount
        omega
      have hclosed1 := hclosed.of_grows (run_grows (step_custody h.filed.tracked h1).1 h2)
      exact ih (h.step hk hc.1 h1 hclosed1) hc.2 (count_next hcount) h2

/-- Every descriptor that was opened was closed once or is one of those that the program has, none
of them twice, and nothing else was closed. One that was not adopted is that of a ticket that is
held or leaked, and a receipt that opens the ticket gives that descriptor, or none if none was
installed. -/
structure Owned (Y : ∀ k, (K k).Yields) (start : FdTable) (s : Descriptors K) : Prop where
  since : ∃ closed, Ledger.Since start closed s.held s.table
  waiting : ∀ x ∈ s.installs, x.1 ∈ s.claimed ∨
    ∃ t ∈ s.custody.tickets ++ s.custody.leaked, t.slot = x.1
  gains : ∀ t ∈ s.custody.tickets, ∀ r ∈ s.custody.own.receipts, r.belongsTo t.ring t.id = true →
    s.installs.lookup t.slot = (gain Y t r).map fun x => x.2.fd

end Descriptors

/-! ### The law of descriptors -/

section Methods

variable [Native] {B R : Type} [StableBuffer B] [StableBuffer R] {w : Width} {packed : Bool}

end Methods

section Run

local instance descriptorEndian : Native := ⟨.little⟩

end Run

end Ququmatz
