import Mathlib.Data.List.Nodup
import Mathlib.Data.List.Range
import Ququmatz.Owned.Submitter
import Ququmatz.Proofs.Owned.Queue
import Ququmatz.Proofs.Ring.DoCalls

/-!
# `Ququmatz.Proofs.Owned.Submitter`: a refused push changes nothing but the next id

A push method takes its request apart before it knows whether there is room, and rebuilds it
when there is none. `pushRequest_eq` says that all the methods rebuild exactly what they were
given: each is `pushWith` of its `into_pending`, with the request itself to hand back. One
lemma about `pushWith` then covers them all (`pushWith_cases`).

A refused push has used up an id, and so the retry has another one. `acceptedIds_sublist`
follows the ids of a whole run: they are, in order, some of those that the source mints, one
for each push. `failed_push_retryable` puts the two together.
-/

set_option autoImplicit false

namespace Ququmatz

open Lib

/-! ### What the kernel leaves alone -/

/-- The part of the submission queue that only the crate writes. -/
structure World.SameSlots (w w' : World) : Prop where
  slots : w'.sqes = w.sqes
  published : w'.sqTail = w.sqTail

theorem World.sameSlots_of_steps {ks : List KStep} {w w' : World}
    (h : envSteps World.env ks w = some w') : w.SameSlots w' := by
  refine envSteps_keeps (P := w.SameSlots) ?_ ks w w' ⟨rfl, rfl⟩ h
  intro k w1 w2 hw hk
  rcases World.env_cases hk with ⟨-, -, hc⟩ | ⟨o, cqe, -, hp⟩ | ⟨x, -, rfl⟩
  · rw [World.consumeOne_some hc]
    exact ⟨hw.slots, hw.published⟩
  · obtain ⟨-, -, rfl⟩ := CqAt.post_eq hp
    exact ⟨hw.slots, hw.published⟩
  · exact ⟨hw.slots, hw.published⟩

/-- A push either is refused and leaves the queue as it was, or writes the next slot. -/
theorem Submitter.push_cases {s s' : Submitter} {sqe : Sqe} {res : Except Error Unit}
    {rs : List KRound} {w w' : World}
    (hr : (s.push sqe).run ringMachine rs w = some ((res, s'), w')) :
    (res = .error (.submit .queueFull) ∧ s' = s ∧ w.SameSlots w') ∨
      (res = .ok () ∧ s' = { s with sqTailLocal := s.sqTailLocal + 1 } ∧
        w'.sqes = Function.update w.sqes (s.sqTailLocal &&& s.sqMask).toNat sqe ∧
        w'.sqTail = w.sqTail) := by
  unfold push at hr
  obtain ⟨r, rs', w1, head, w2, rfl, hb, hacc, hr⟩ := run_perform.mp hr
  obtain ⟨-, rfl, rfl⟩ := World.access_loadSqHead.mp hacc
  have h1 := World.sameSlots_of_steps hb
  -- the head was loaded once: a full queue ends the push before any write
  by_cases hc : s.sqTailLocal + 1 - w2.sqHead > s.sqMask + 1
  · rw [if_pos hc] at hr
    obtain ⟨-, hx, rfl⟩ := Prog.run_ret.mp hr
    cases hx
    exact Or.inl ⟨rfl, rfl, h1⟩
  · rw [if_neg hc] at hr
    obtain ⟨r', rs'', w3, _, w4, rfl, hb', hacc', hr⟩ := run_perform.mp hr
    obtain ⟨-, -, rfl⟩ := World.access_writeSqe.mp hacc'
    obtain ⟨-, hx, rfl⟩ := Prog.run_ret.mp hr
    cases hx
    have h3 := World.sameSlots_of_steps hb'
    refine Or.inr ⟨rfl, rfl, ?_, h3.published.trans h1.published⟩
    show Function.update w3.sqes _ sqe = _
    rw [h3.slots, h1.slots]

/-! ### The methods -/

namespace OwnedSubmitter

section Generic

variable {Q T : Type} {self self' : OwnedSubmitter} {intoPending : RingId → RequestId → Sqe × T}
  {reclaim : T → Q} {res : Except (Q × Error) T} {rs : List KRound} {w w' : World}

/-- A push method is the push of the stamped SQE. -/
theorem pushWith_run :
    (self.pushWith intoPending reclaim).run ringMachine rs w = some ((res, self'), w') ↔
      ∃ r inner, (self.inner.push (intoPending self.ring self.ids.next.1).1).run ringMachine rs w
          = some ((r, inner), w') ∧
        self' = { self with inner := inner, ids := self.ids.next.2 } ∧
        res = match r with
          | .ok () => .ok (intoPending self.ring self.ids.next.1).2
          | .error e => .error (reclaim (intoPending self.ring self.ids.next.1).2, e) := by
  have heq : self.pushWith intoPending reclaim
      = self.inner.push (intoPending self.ring self.ids.next.1).1 >>= fun x =>
        Prog.ret ((match x.1 with
          | .ok () => .ok (intoPending self.ring self.ids.next.1).2
          | .error e => .error (reclaim (intoPending self.ring self.ids.next.1).2, e)),
          { self with inner := x.2, ids := self.ids.next.2 }) := by
    unfold pushWith
    refine congrArg (self.inner.push _ >>= ·) (funext fun x => ?_)
    rcases x with ⟨r, inner⟩
    cases r <;> rfl
  rw [heq, Prog.run_map]
  constructor
  · rintro ⟨⟨r, inner⟩, hrun, hx⟩
    obtain ⟨hres, hself⟩ := Prod.mk.inj hx
    exact ⟨r, inner, hrun, hself, hres⟩
  · rintro ⟨r, inner, hrun, hself, hres⟩
    exact ⟨(r, inner), hrun, Prod.ext hres hself⟩

/-- What a push method does. -/
theorem pushWith_cases
    (h : (self.pushWith intoPending reclaim).run ringMachine rs w = some ((res, self'), w')) :
    (res = .error (reclaim (intoPending self.ring self.ids.next.1).2, .submit .queueFull) ∧
        self' = { self with ids := self.ids.next.2 } ∧ w.SameSlots w') ∨
      (res = .ok (intoPending self.ring self.ids.next.1).2 ∧
        self' = { self with
          inner := { self.inner with sqTailLocal := self.inner.sqTailLocal + 1 }
          ids := self.ids.next.2 } ∧
        w'.sqes = Function.update w.sqes (self.inner.sqTailLocal &&& self.inner.sqMask).toNat
          (intoPending self.ring self.ids.next.1).1 ∧
        w'.sqTail = w.sqTail) := by
  obtain ⟨r, inner, hrun, rfl, rfl⟩ := pushWith_run.mp h
  rcases Submitter.push_cases hrun with ⟨rfl, rfl, hsame⟩ | ⟨rfl, rfl, hslots, htail⟩
  · exact Or.inl ⟨rfl, rfl, hsame⟩
  · exact Or.inr ⟨rfl, rfl, hslots, htail⟩

end Generic

variable {B R : Type} {N : Nat}

/-- A method in the common type is `pushWith` in the common type, if it rebuilds its request. -/
theorem pushWith_lift {Q T : Type} (self : OwnedSubmitter) (q : Q)
    {intoPending : RingId → RequestId → Sqe × T} {reclaim : T → Q}
    (request : Q → PushRequest B R N) (ticket : T → PushTicket B R N)
    (hreclaim : ∀ ring id, reclaim (intoPending ring id).2 = q)
    (hpending : ∀ ring id, (request q).intoPending ring id
      = ((intoPending ring id).1, ticket (intoPending ring id).2)) :
    (self.pushWith intoPending reclaim >>= fun x => Prog.ret (liftPush request ticket x.1, x.2))
      = self.pushWith (request q).intoPending fun _ => request q := by
  unfold pushWith
  simp only [hpending, hreclaim]
  generalize self.inner.push _ = p
  induction p with
  | ret x =>
      rcases x with ⟨r, inner⟩
      cases r <;> rfl
  | op o k ih => exact congrArg (Prog.op o) (funext fun x => ih x)

/-- Every push method hands back what it was given. -/
theorem pushRequest_eq (self : OwnedSubmitter) (request : PushRequest B R N) :
    self.pushRequest request = self.pushWith request.intoPending fun _ => request := by
  cases request with
  | owned r =>
      cases r with
      | single r => exact self.pushWith_lift r _ _ (fun _ _ => rfl) fun _ _ => rfl
      | zc r => exact self.pushWith_lift r _ _ (fun _ _ => rfl) fun _ _ => rfl
      | vectored r => exact self.pushWith_lift r _ _ (fun _ _ => rfl) fun _ _ => rfl
      | sendmsg r => exact self.pushWith_lift r _ _ (fun _ _ => rfl) fun _ _ => rfl
      | sendmsgZc r => exact self.pushWith_lift r _ _ (fun _ _ => rfl) fun _ _ => rfl
  | multishot r => exact self.pushWith_lift r _ _ (fun _ _ => rfl) fun _ _ => rfl
  | readMultishot r => exact self.pushWith_lift r _ _ (fun _ _ => rfl) fun _ _ => rfl
  | msgRing r => exact self.pushWith_lift r _ _ (fun _ _ => rfl) fun _ _ => rfl

end OwnedSubmitter

/-! ### The stamped entries -/

section Stamp

variable {B R : Type} {N : Nat} (request : PushRequest B R N)

/-- The id enters the SQE through `user_data` only, and the ticket has it. -/
theorem PushRequest.intoPending_stamp (ring ring' : RingId) (id id' : RequestId) :
    (request.intoPending ring' id').1
        = { (request.intoPending ring id).1 with userData := id'.raw } ∧
      (request.intoPending ring' id').2.id = id' := by
  cases request with
  | owned r =>
      cases r with
      | single r =>
          refine ⟨?_, rfl⟩
          simp only [PushRequest.intoPending, Request.intoPending, Prepared.intoPending]
          cases r.direction <;> rfl
      | zc r => exact ⟨rfl, rfl⟩
      | vectored r =>
          refine ⟨?_, rfl⟩
          simp only [PushRequest.intoPending, Request.intoPending, PreparedVectored.intoPending]
          cases r.direction <;> rfl
      | sendmsg r => exact ⟨rfl, rfl⟩
      | sendmsgZc r => exact ⟨rfl, rfl⟩
  | multishot r => exact ⟨rfl, rfl⟩
  | readMultishot r => exact ⟨rfl, rfl⟩
  | msgRing r => exact ⟨rfl, rfl⟩

theorem PushRequest.toOwned_sqe (ring : RingId) (id : RequestId) :
    (request.toOwned.intoPending ring id).1 = (request.intoPending ring id).1 := by
  cases request <;> rfl

end Stamp

/-! ### Pushes in the system -/

namespace OwnedSys

variable {B R : Type} {N : Nat} {s s' : OwnedSys B R N}

theorem submitter_eq_some {self : OwnedSubmitter} :
    s.submitter = some self ↔
      s.owner = some (self.ring, self.ids) ∧ ∃ c, s.sys.handles = .halves (some self.inner) c := by
  unfold submitter
  constructor
  · intro h
    split at h
    · rename_i ring ids inner c howner hhandles
      cases h
      exact ⟨howner, c, hhandles⟩
    · cases h
  · rintro ⟨howner, c, hhandles⟩
    rw [howner, hhandles]

/-- A push method that was called on the owned half is a step of the system. -/
theorem step_of_pushRequest {self self' : OwnedSubmitter} {request : PushRequest B R N}
    {res : Except (PushRequest B R N × Error) (PushTicket B R N)} {rs : List KRound} {w' : World}
    (hself : s.submitter = some self)
    (h : (self.pushRequest request).run ringMachine rs s.sys.world = some ((res, self'), w')) :
    ∃ s', s.step (.push request.toOwned rs) = some s' ∧ s'.submitter = some self' ∧
      s'.sys.world = w' ∧
      s.acceptedId (.push request.toOwned rs) s' = res.toOption.map PushTicket.id := by
  obtain ⟨howner, c, hhandles⟩ := submitter_eq_some.mp hself
  rw [OwnedSubmitter.pushRequest_eq, OwnedSubmitter.pushWith_run] at h
  obtain ⟨r, inner, hrun, rfl, rfl⟩ := h
  have hid := (request.intoPending_stamp self.ring self.ring self.ids.next.1 self.ids.next.1).2
  rw [← request.toOwned_sqe] at hrun
  -- The handles of the ring hold the inner half, so their push is the inner push.
  have hinvoke : ∀ record : Except Error Unit → Sys → Sys,
      s.sys.invoke (s.sys.handles.push (request.toOwned.intoPending self.ring self.ids.next.1).1)
        rs record
        = some (r, record r { s.sys with world := w', handles := .halves (some inner) c }) := by
    intro record
    have hmap := Prog.run_map (f := fun x : Except Error Unit × Submitter =>
      (x.1, Handles.halves (some x.2) c)) |>.mpr ⟨_, hrun, rfl⟩
    unfold Sys.invoke
    rw [hhandles]
    show (Prog.run ringMachine _ rs s.sys.world).map _ = _
    exact congrArg (Option.map _) hmap
  show ∃ s', s.push request.toOwned rs = some s' ∧ _
  unfold push acceptedId
  rw [howner, Option.bind_some]
  simp only [hinvoke, Option.map_some]
  cases r with
  | ok u =>
      refine ⟨_, rfl, submitter_eq_some.mpr ⟨rfl, c, rfl⟩, rfl, ?_⟩
      simp only [Sys.recordPush, List.length_append, List.length_singleton, Nat.lt_succ_self,
        if_true, Except.toOption]
      rw [Option.map_some, hid]
  | error e =>
      refine ⟨_, rfl, submitter_eq_some.mpr ⟨rfl, c, rfl⟩, rfl, ?_⟩
      simp only [Sys.recordPush, Nat.lt_irrefl, if_false, Except.toOption]
      rfl

end OwnedSys

/-! ### The ids of a run -/

/-- Once the ring is split it stays so. -/
theorem Sys.step_not_whole {v : View} {s s' : Sys} (hi : s.Inv v) {a : Action}
    (h : s.step a = some s') (hn : ∀ r, s.handles ≠ .whole r) : ∀ r, s'.handles ≠ .whole r := by
  intro r hr
  by_cases ha : a.takesTag = true
  · -- The tag of a `do_*` call is taken on a whole ring.
    obtain ⟨rs, rfl⟩ : ∃ rs, a = .call .nextDoTag rs := by
      unfold Action.takesTag at ha
      split at ha
      · exact ⟨_, rfl⟩
      · cases ha
    obtain ⟨p, -, -, -, hp, -, -⟩ := Sys.exec_eq_some h
    unfold Handles.nextDoTag at hp
    split at hp
    · rename_i r0 hw
      exact hn r0 hw
    · cases hp
  · obtain ⟨r0, hw, -⟩ := Sys.step_sameTag hi (Bool.eq_false_iff.mpr ha) h r hr
    exact hn r0 hw

namespace OwnedSys

variable {B R : Type} {N : Nat} {s s' : OwnedSys B R N}

/-- `split_owned` makes the owned halves of a whole ring, or leaves the owner without. -/
theorem splitOwned_cases (hs : s.sys.Sound) {ring : RingId} {rs : List KRound}
    (h : s.splitOwned ring rs = some s') :
    (∃ r, s.sys.handles = .whole r) ∧
      (s'.owner = s.owner ∨
        (s'.owner = some (ring, RequestIdSource.new) ∧ ∀ r, s'.sys.handles ≠ .whole r)) := by
  obtain ⟨v, hv⟩ := hs.inv
  obtain ⟨⟨res, sys⟩, hi, rfl⟩ := Option.map_eq_some_iff.mp h
  obtain ⟨p, hp, hi⟩ := Option.bind_eq_some_iff.mp hi
  obtain ⟨⟨⟨res', hs'⟩, w'⟩, hrun, hx⟩ := Option.map_eq_some_iff.mp hi
  cases hx
  obtain ⟨r, hwhole, hcase⟩ := Handles.split_run hv.ring hp hrun
  refine ⟨⟨r, hwhole⟩, ?_⟩
  rcases hcase with ⟨-, -, -, -, rfl⟩ | ⟨-, rfl, rfl, -⟩
  · exact Or.inl rfl
  · refine Or.inr ⟨rfl, fun r' hr' => ?_⟩
    cases hr'

theorem reap_owner {rss : List (List KRound)} {receipt : Option Receipt}
    (hs : s.sys.Sound) (hn : ∀ o, s.owner = some o → ∀ r, s.sys.handles ≠ .whole r)
    (h : reap rss s = some (receipt, s')) :
    s'.owner = s.owner ∧ s'.sys.Sound ∧
      ∀ o, s'.owner = some o → ∀ r, s'.sys.handles ≠ .whole r := by
  induction rss generalizing s with
  | nil => cases h
  | cons rs rss ih =>
      obtain ⟨event, s1, he, hcase⟩ := reap_cons h
      obtain ⟨hsys, -, -, howner, -⟩ := reapEvent_eq he
      obtain ⟨v, hv⟩ := hs.inv
      have hn1 : ∀ o, s1.owner = some o → ∀ r, s1.sys.handles ≠ .whole r :=
        fun o ho => Sys.step_not_whole hv hsys (hn o (howner ▸ ho))
      rcases hcase with ⟨-, rfl⟩ | ⟨-, hrest⟩
      · exact ⟨howner, hs.step hsys, hn1⟩
      · obtain ⟨ho, hsound, hw⟩ := ih (hs.step hsys) hn1 hrest
        exact ⟨ho.trans howner, hsound, hw⟩

/-- The state after `k` pushes, as far as the ids are concerned. -/
structure Minted (s : OwnedSys B R N) (k : Nat) : Prop where
  sound : s.sys.Sound
  split : ∀ o, s.owner = some o → ∀ r, s.sys.handles ≠ .whole r
  unsplit : s.owner = none → k = 0
  source : ∀ ring ids, s.owner = some (ring, ids) → ids.counter = UInt64.ofNat (1 + k)

/-- The id that the source mints for the push after `k` others. -/
def minted (k : Nat) : RequestId := ⟨UInt64.ofNat (1 + k)⟩

/-- A step that mints no id. -/
theorem Minted.same {k : Nat} (h : s.Minted k) (howner : s'.owner = s.owner)
    (hsound : s'.sys.Sound) (hn : ∀ o, s'.owner = some o → ∀ r, s'.sys.handles ≠ .whole r) :
    s'.Minted k :=
  ⟨hsound, hn, fun ho => h.unsplit (howner ▸ ho), fun ring ids ho =>
    h.source ring ids (howner ▸ ho)⟩

/-- A step of the ring that mints no id. -/
theorem Minted.inner {k : Nat} (h : s.Minted k) {a : Action} (hs : s.sys.step a = some s'.sys)
    (howner : s'.owner = s.owner) : s'.Minted k := by
  obtain ⟨v, hv⟩ := h.sound.inv
  exact h.same howner (h.sound.step hs) fun o ho =>
    Sys.step_not_whole hv hs (h.split o (howner ▸ ho))

/-- Only a push mints an id, and it mints one whether it is accepted or not. -/
theorem Minted.step {k : Nat} (h : s.Minted k) {a : OwnedAction B R N}
    (hs : s.step a = some s') :
    (a.isPush = true ∧ s'.Minted (k + 1) ∧
        (s.acceptedId a s' = none ∨ s.acceptedId a s' = some (minted k))) ∨
      (a.isPush = false ∧ s'.Minted k ∧ s.acceptedId a s' = none) := by
  obtain ⟨v, hv⟩ := h.sound.inv
  cases a with
  | inner a =>
      obtain ⟨sys, hsys, rfl⟩ := Option.map_eq_some_iff.mp hs
      exact Or.inr ⟨rfl, h.inner hsys rfl, rfl⟩
  | splitOwned ring rs =>
      refine Or.inr ⟨rfl, ?_, rfl⟩
      obtain ⟨⟨r, hwhole⟩, hcase⟩ := splitOwned_cases h.sound hs
      have hnone : s.owner = none := Option.eq_none_iff_forall_ne_some.mpr
        fun o ho => h.split o ho r hwhole
      rcases hcase with howner | ⟨howner, hn⟩
      · exact h.inner (splitOwned_eq hs).1 howner
      · -- The split makes the source, and no id was minted before it.
        refine ⟨h.sound.step (splitOwned_eq hs).1, fun _ _ => hn, fun ho => ?_, ?_⟩
        · exact absurd (howner.symm.trans ho) (by simp)
        · intro ring' ids ho
          cases howner.symm.trans ho
          rw [h.unsplit hnone]
          rfl
  | push request rs =>
      obtain ⟨⟨ring, ids⟩, howner, hpush⟩ := Option.bind_eq_some_iff.mp hs
      have hmint : ids.next.1 = minted k :=
        congrArg RequestId.mk (h.source ring ids howner)
      -- The source has moved on even when the queue refuses the SQE.
      have howner' : s'.owner = some (ring, ids.next.2) := by
        obtain ⟨⟨res, sys⟩, -, rfl⟩ := Option.map_eq_some_iff.mp hpush
        cases res <;> rfl
      obtain ⟨_, _, sqe, _, -, -, hsys, -, -⟩ := push_eq hs
      refine Or.inl ⟨rfl, ⟨h.sound.step hsys, fun o _ => ?_, fun ho => ?_, ?_⟩, ?_⟩
      · exact Sys.step_not_whole hv hsys (h.split _ howner)
      · exact absurd (howner'.symm.trans ho) (by simp)
      · intro ring' ids' ho
        cases howner'.symm.trans ho
        show ids.counter + 1 = _
        rw [h.source ring ids howner, ← Nat.add_assoc, UInt64.ofNat_add (1 + k) 1]
        rfl
      · unfold acceptedId
        rw [howner]
        simp only [Option.map_some, hmint]
        split
        · exact Or.inr rfl
        · exact Or.inl rfl
  | reapEvent rs =>
      obtain ⟨⟨event, s1⟩, he, rfl⟩ := Option.map_eq_some_iff.mp hs
      obtain ⟨hsys, -, -, howner, -⟩ := reapEvent_eq he
      have h1 : s1.Minted k := h.inner hsys howner
      exact Or.inr ⟨rfl, h1.same rfl h1.sound h1.split, rfl⟩
  | reap rss =>
      obtain ⟨⟨receipt, s1⟩, hr, rfl⟩ := Option.map_eq_some_iff.mp hs
      obtain ⟨howner, hsound, hn⟩ := reap_owner h.sound h.split hr
      have h1 : s1.Minted k := h.same howner hsound hn
      exact Or.inr ⟨rfl, h1.same rfl h1.sound h1.split, rfl⟩
  | redeem ticket receipt =>
      simp only [OwnedSys.step, redeem] at hs
      refine Or.inr ⟨rfl, ?_, rfl⟩
      split at hs
      · split at hs <;> cases hs
        · exact h.same rfl h.sound h.split
        · exact h
      · cases hs
  | dropTicket ticket =>
      cases hs
      exact Or.inr ⟨rfl, h.same rfl h.sound h.split, rfl⟩
  | dropReceipt receipt =>
      cases hs
      exact Or.inr ⟨rfl, h.same rfl h.sound h.split, rfl⟩

theorem acceptedIds_cons {a : OwnedAction B R N} {as : List (OwnedAction B R N)}
    (h : s.step a = some s') :
    acceptedIds (a :: as) s = (s.acceptedId a s').toList ++ acceptedIds as s' := by
  rw [acceptedIds, h]

theorem acceptedIds_append {as bs : List (OwnedAction B R N)} (h : s.run as = some s') :
    acceptedIds (as ++ bs) s = acceptedIds as s ++ acceptedIds bs s' := by
  induction as generalizing s with
  | nil =>
      cases h
      rfl
  | cons a as ih =>
      obtain ⟨s1, h1, h2⟩ := Option.bind_eq_some_iff.mp h
      rw [List.cons_append, acceptedIds_cons h1, acceptedIds_cons h1, ih h2, List.append_assoc]

/-- The accepted requests of a run have, in order, some of the ids that were minted for its
pushes. -/
theorem acceptedIds_sublist {k : Nat} (h : s.Minted k) {as : List (OwnedAction B R N)}
    (hr : s.run as = some s') :
    (acceptedIds as s).Sublist ((List.range' k (as.countP OwnedAction.isPush)).map minted) := by
  induction as generalizing s k with
  | nil => exact List.Sublist.refl _
  | cons a as ih =>
      obtain ⟨s1, h1, h2⟩ := Option.bind_eq_some_iff.mp hr
      rw [acceptedIds_cons h1]
      -- a push mints one id, whether it is accepted or not; no other step mints any
      rcases h.step h1 with ⟨hpush, hm, hid⟩ | ⟨hpush, hm, hid⟩
      · rw [List.countP_cons_of_pos hpush, List.range'_succ, List.map_cons]
        have hrest := ih hm h2
        rcases hid with hid | hid
        · rw [hid]
          exact hrest.cons _
        · rw [hid]
          exact hrest.cons_cons _
      · rw [List.countP_cons_of_neg (by rw [hpush]; simp), hid]
        exact ih hm h2

/-- Fewer than `2^64` ids are all different. -/
theorem minted_nodup {k n : Nat} (h : k + n ≤ 2 ^ 64) :
    ((List.range' k n).map minted).Nodup := by
  refine List.Nodup.map_on ?_ List.nodup_range'
  intro i hi j hj hij
  rw [List.mem_range'_1] at hi hj
  have hval := congrArg (fun id => id.raw.toNat) hij
  simp only [minted, UInt64.toNat_ofNat'] at hval
  omega

theorem ofSys_minted (params : RingParams) (resources : RingResources)
    (sqStart cqStart : UInt32) (sqArray : Nat → UInt32) (sqes : Nat → Sqe) (cqes : Nat → Cqe) :
    (ofSys (Sys.init params resources sqStart cqStart sqArray sqes cqes) :
      OwnedSys B R N).Minted 0 := by
  refine ⟨Sys.Sound.init params resources sqStart cqStart sqArray sqes cqes, ?_, fun _ => rfl, ?_⟩
  · intro o ho
    cases ho
  · intro ring ids ho
    cases ho

end OwnedSys

/-! ### The law -/

namespace OwnedSubmitter

variable {B R : Type} {N : Nat}

/-- The slot that the next accepted push writes. -/
def nextSlot (self : OwnedSubmitter) : Nat := (self.inner.sqTailLocal &&& self.inner.sqMask).toNat

/-- The SQE that a push of the request writes, if it is accepted. -/
def entry (self : OwnedSubmitter) (request : PushRequest B R N) : Sqe :=
  (request.intoPending self.ring self.ids.next.1).1

variable {self self' : OwnedSubmitter} {request : PushRequest B R N} {rs : List KRound}
  {w w' : World}

theorem pushRequest_refused {request' : PushRequest B R N} {e : Error}
    (h : (self.pushRequest request).run ringMachine rs w
      = some ((.error (request', e), self'), w')) :
    request' = request ∧ e = .submit .queueFull ∧
      self' = { self with ids := self.ids.next.2 } ∧ w.SameSlots w' := by
  rw [pushRequest_eq] at h
  rcases pushWith_cases h with ⟨hres, hself, hsame⟩ | ⟨hres, -⟩
  · cases hres
    exact ⟨rfl, rfl, hself, hsame⟩
  · cases hres

theorem pushRequest_accepted {ticket : PushTicket B R N}
    (h : (self.pushRequest request).run ringMachine rs w = some ((.ok ticket, self'), w')) :
    ticket.id = self.ids.next.1 ∧
      w'.sqes = Function.update w.sqes self.nextSlot (self.entry request) := by
  rw [pushRequest_eq] at h
  rcases pushWith_cases h with ⟨hres, -⟩ | ⟨hres, -, hslots, -⟩
  · cases hres
  · cases hres
    exact ⟨(request.intoPending_stamp self.ring self.ring self.ids.next.1 _).2, hslots⟩

end OwnedSubmitter

/-- A push method that fails leaves the queue, the counters and the request as they were, and
when the request is accepted later, the same SQE is written under an id of its own. -/
theorem failed_push_retryable {B R : Type} {N : Nat} (params : RingParams)
    (resources : RingResources) (sqStart cqStart : UInt32) (sqArray : Nat → UInt32)
    (sqes : Nat → Sqe) (cqes : Nat → Cqe) (before : List (OwnedAction B R N))
    (s : OwnedSys B R N) (self self' : OwnedSubmitter) (request request' : PushRequest B R N)
    (e : Error) (rs : List KRound) (w' : World)
    (hbefore : (OwnedSys.ofSys
      (Sys.init params resources sqStart cqStart sqArray sqes cqes)).run before = some s)
    (hself : s.submitter = some self)
    (hfail : (self.pushRequest request).run ringMachine rs s.sys.world
      = some ((.error (request', e), self'), w')) :
    w'.sqes = s.sys.world.sqes ∧ w'.sqTail = s.sys.world.sqTail ∧ self'.inner = self.inner ∧
    request' = request ∧
    -- what the first attempt would have written
    (∀ rs₀ w₀ ticket self₀ w₀',
      (self.pushRequest request).run ringMachine rs₀ w₀ = some ((.ok ticket, self₀), w₀') →
      w₀'.sqes = Function.update w₀.sqes self.nextSlot (self.entry request)) ∧
    ∃ s₁, s.step (.push request.toOwned rs) = some s₁ ∧ s₁.submitter = some self' ∧
      s₁.sys.world = w' ∧
      ∀ between s₂ self₂ self₂' ticket rs₂ w₂', s₁.run between = some s₂ →
        s₂.submitter = some self₂ →
        (self₂.pushRequest request').run ringMachine rs₂ s₂.sys.world
          = some ((.ok ticket, self₂'), w₂') →
        w₂'.sqes = Function.update s₂.sys.world.sqes self₂.nextSlot
          { self.entry request with userData := ticket.id.raw } ∧
        ∃ s₃, s₂.step (.push request'.toOwned rs₂) = some s₃ ∧ s₃.submitter = some self₂' ∧
          s₃.sys.world = w₂' ∧
          ∀ after t, s₃.run after = some t →
            (before ++ (.push request.toOwned rs :: between ++
              .push request'.toOwned rs₂ :: after)).countP OwnedAction.isPush < 2 ^ 64 →
            ticket.id ∉ OwnedSys.acceptedIds (before ++ .push request.toOwned rs :: between)
              (OwnedSys.ofSys (Sys.init params resources sqStart cqStart sqArray sqes cqes)) ∧
            ticket.id ∉ OwnedSys.acceptedIds after s₃ := by
  obtain ⟨rfl, -, hself', hsame⟩ := OwnedSubmitter.pushRequest_refused hfail
  refine ⟨hsame.slots, hsame.published, by rw [hself'], rfl, ?_, ?_⟩
  · intro rs₀ w₀ ticket self₀ w₀' h
    exact (OwnedSubmitter.pushRequest_accepted h).2
  obtain ⟨s₁, hstep, hsub, hw, -⟩ := OwnedSys.step_of_pushRequest hself hfail
  refine ⟨s₁, hstep, hsub, hw, ?_⟩
  intro between s₂ self₂ self₂' ticket rs₂ w₂' hbetween hself₂ hretry
  obtain ⟨hid, hslots⟩ := OwnedSubmitter.pushRequest_accepted hretry
  obtain ⟨s₃, hstep₂, hsub₂, hw₂, hacc⟩ := OwnedSys.step_of_pushRequest hself₂ hretry
  refine ⟨?_, s₃, hstep₂, hsub₂, hw₂, ?_⟩
  · rw [hslots]
    refine congrArg (Function.update s₂.sys.world.sqes self₂.nextSlot) ?_
    rw [hid]
    exact (request'.intoPending_stamp self.ring self₂.ring self.ids.next.1 self₂.ids.next.1).1
  · intro after t hafter hcount
    -- The ids of the whole run: those before the retry, its own, and those after it.
    have hrun₂ : (OwnedSys.ofSys (Sys.init params resources sqStart cqStart sqArray sqes
        cqes)).run (before ++ .push request'.toOwned rs :: between) = some s₂ := by
      rw [OwnedSys.isRun.append, hbefore]
      show (s.step _).bind _ = _
      rw [hstep]
      exact hbetween
    have hrun : (OwnedSys.ofSys (Sys.init params resources sqStart cqStart sqArray sqes
        cqes)).run (before ++ .push request'.toOwned rs :: between ++
          .push request'.toOwned rs₂ :: after) = some t := by
      rw [OwnedSys.isRun.append, hrun₂]
      show (s₂.step _).bind _ = _
      rw [hstep₂]
      exact hafter
    rw [← List.append_assoc] at hcount
    have hnodup := (OwnedSys.acceptedIds_sublist (OwnedSys.ofSys_minted params resources sqStart
      cqStart sqArray sqes cqes) hrun).nodup (OwnedSys.minted_nodup (by omega))
    rw [OwnedSys.acceptedIds_append hrun₂, OwnedSys.acceptedIds_cons hstep₂, hacc] at hnodup
    obtain ⟨-, hright, hdisj⟩ := List.nodup_append.mp hnodup
    exact ⟨fun hmem => hdisj _ hmem _ (List.mem_cons_self) rfl, (List.nodup_cons.mp hright).1⟩

/-- Two reads fill the queue of two entries. -/
def fullQueue : List (OwnedAction MmapBuffer MmapBuffer 0) :=
  [.splitOwned ⟨7⟩ [.quiet],
    .push (.owned (.single (Prepared.read ⟨4⟩ onePage 0))) [.quiet, .quiet],
    .push (.owned (.single (Prepared.read ⟨4⟩ otherPage 0))) [.quiet, .quiet]]

/-- The submission that makes room again. -/
def roomAgain : List (OwnedAction MmapBuffer MmapBuffer 0) :=
  [.inner (.call .submit [.quiet, .entered ⟨.ok 2, []⟩])]

/-- A zero-copy send for which there is no room. -/
def lateSend : PushRequest MmapBuffer MmapBuffer 0 :=
  .owned (.zc (PreparedZc.send ⟨5⟩ onePage ⟨0⟩))

theorem failed_push_retried :
    ∃ (s s₂ : OwnedSys MmapBuffer MmapBuffer 0) (self self₂ self₂' : OwnedSubmitter)
      (w₂' : World) (ticket : PushTicket MmapBuffer MmapBuffer 0),
      (OwnedSys.ofSys Sys.wrapping).run fullQueue = some s ∧ s.submitter = some self ∧
      s.run (.push lateSend.toOwned [.quiet] :: roomAgain) = some s₂ ∧
      (self₂.pushRequest lateSend).run ringMachine [KRound.quiet, KRound.quiet] s₂.sys.world
        = some ((.ok ticket, self₂'), w₂') ∧ ticket.id = ⟨4⟩ ∧
      w₂'.sqes = Function.update s₂.sys.world.sqes self₂.nextSlot
        { self.entry lateSend with userData := 4 } ∧
      ticket.id ∉ OwnedSys.acceptedIds
        (fullQueue ++ .push lateSend.toOwned [.quiet] :: roomAgain)
        (OwnedSys.ofSys Sys.wrapping) := by
  have heval : (((OwnedSys.ofSys Sys.wrapping).run fullQueue).bind fun s =>
      s.submitter.bind fun self =>
        ((self.pushRequest lateSend).run ringMachine [KRound.quiet] s.sys.world).bind fun x =>
          (s.step (.push lateSend.toOwned [.quiet])).bind fun s₁ =>
            (s₁.run roomAgain).bind fun s₂ => s₂.submitter.bind fun self₂ =>
              ((self₂.pushRequest lateSend).run ringMachine [KRound.quiet, KRound.quiet]
                s₂.sys.world).map fun y => (x.1.1.isOk, y.1.1.toOption.map PushTicket.id))
      = some (false, some ⟨4⟩) := by decide +kernel
  -- one evaluation of the whole run, which is taken apart step by step
  obtain ⟨s, hs, heval⟩ := Option.bind_eq_some_iff.mp heval
  obtain ⟨self, hself, heval⟩ := Option.bind_eq_some_iff.mp heval
  obtain ⟨⟨⟨res, self'⟩, w'⟩, hfail, heval⟩ := Option.bind_eq_some_iff.mp heval
  obtain ⟨s₁, hs₁, heval⟩ := Option.bind_eq_some_iff.mp heval
  obtain ⟨s₂, hs₂, heval⟩ := Option.bind_eq_some_iff.mp heval
  obtain ⟨self₂, hself₂, heval⟩ := Option.bind_eq_some_iff.mp heval
  obtain ⟨⟨⟨res₂, self₂'⟩, w₂'⟩, hretry, heval⟩ := Option.map_eq_some_iff.mp heval
  obtain ⟨hrefused, haccepted⟩ := Prod.mk.inj heval
  cases res with
  | ok ticket => cases hrefused
  | error x =>
      rcases x with ⟨request', e⟩
      cases res₂ with
      | error y => cases haccepted
      | ok ticket =>
          have hid : ticket.id = ⟨4⟩ := Option.some.inj haccepted
          obtain ⟨-, -, -, rfl, -, s₁', hs₁', -, -, hlater⟩ :=
            failed_push_retryable _ _ _ _ _ _ _ fullQueue s self self' lateSend request' e
              [.quiet] w' hs hself hfail
          cases hs₁.symm.trans hs₁'
          obtain ⟨hslots, s₃, -, -, -, hids⟩ :=
            hlater roomAgain s₂ self₂ self₂' ticket _ w₂' hs₂ hself₂ hretry
          refine ⟨s, s₂, self, self₂, self₂', w₂', ticket, hs, hself, ?_, hretry, hid, ?_, ?_⟩
          · show (s.step _).bind _ = _
            rw [hs₁]
            exact hs₂
          · rw [hslots, hid]
          · exact (hids [] s₃ rfl (by decide +kernel)).1

end Ququmatz
