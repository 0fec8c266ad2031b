import Ququmatz.Proofs.Owned.Custody
import Ququmatz.Proofs.Owned.Kinds
import Ququmatz.Proofs.Owned.Submitter

/-!
# `Ququmatz.Proofs.Owned.Plain`: programs over the push methods alone

`OwnedSys.careful` asks of a push that its identity is nowhere in circulation. A program that uses
no raw push and sends no message to its own ring need not see to it: the identities come from a
counter, and every identity in circulation was minted before (`Fresh`). So each of its first `2^64`
pushes is careful (`Fresh.careful`), and the laws of receipts and of memory hold for it as they are.
-/

set_option autoImplicit false

namespace Ququmatz

open Lib

/-- The pushes so far and those to come, after one more action. -/
theorem count_next {k n m : Nat} {b : Bool} (h : k + (n + if b = true then 1 else 0) ≤ m) :
    (if b = true then k + 1 else k) + n ≤ m := by
  cases b with
  | true =>
      rw [if_pos rfl] at h ⊢
      omega
  | false =>
      rw [if_neg (by simp)] at h ⊢
      omega

/-! ### Identities in circulation -/

namespace OwnedSys

variable {B R : Type} {N : Nat} {s s' : OwnedSys B R N}

/-- The step is no raw push, and pushes no message to this ring. -/
def plain (s : OwnedSys B R N) : OwnedAction B R N → Bool
  | .inner (.call (.push _) _) => false
  | .push request _ =>
      match s.owner with
      | none => true
      | some (ring, ids) => !s.sys.world.isMessage (request.intoPending ring ids.next.1).1
  | _ => true

/-- One of the first `k` identities of the counter. -/
def MintedBefore (k : Nat) (u : UInt64) : Prop := ∃ i < k, u = (minted i).raw

theorem MintedBefore.mono {k n : Nat} {u : UInt64} (h : MintedBefore k u) (hkn : k ≤ n) :
    MintedBefore n u := by
  obtain ⟨i, hi, hu⟩ := h
  exact ⟨i, Nat.lt_of_lt_of_le hi hkn, hu⟩

/-- Of the first `2^64` identities, the next is none of those before. -/
theorem MintedBefore.ne_next {k : Nat} {u : UInt64} (h : MintedBefore k u) (hk : k < 2 ^ 64) :
    u ≠ (minted k).raw := by
  obtain ⟨i, hi, rfl⟩ := h
  intro heq
  have hval := congrArg UInt64.toNat heq
  simp only [minted, UInt64.toNat_ofNat'] at hval
  omega

/-- The state after `k` pushes, none of them a message: every identity that an SQE or a receipt
carries was minted for one of them. -/
structure Fresh (s : OwnedSys B R N) (k : Nat) : Prop where
  minted : s.Minted k
  accepted : ∀ sqe ∈ s.sys.accepted, MintedBefore k sqe.userData
  quiet : ∀ sqe ∈ s.sys.accepted, s.sys.world.isMessage sqe = false
  receipts : ∀ receipt ∈ s.receipts, MintedBefore k receipt.id.raw

/-- So was every identity that a CQE carries. -/
theorem Fresh.posted {k : Nat} (h : s.Fresh k) (hclosed : s.Closed) :
    ∀ p ∈ s.sys.world.posted, MintedBefore k p.2.userData := by
  intro p hp
  obtain ⟨v, hv⟩ := h.minted.sound.inv
  have hread : ∀ {i : Nat} {sqe : Sqe}, s.sys.world.consumed[i]? = some sqe →
      sqe ∈ s.sys.accepted := fun hi => hv.consumed_prefix.subset (List.mem_of_getElem? hi)
  have hexp := h.minted.sound.authentic p hp
  rcases p with ⟨o, cqe⟩
  cases o with
  | request i =>
      obtain ⟨sqe, hi, hu⟩ := hexp
      show MintedBefore k cqe.userData
      rw [hu]
      exact h.accepted sqe (hread hi)
  | message i =>
      obtain ⟨sqe, hi, hmsg, -⟩ := hexp
      rw [h.quiet sqe (hread hi)] at hmsg
      cases hmsg
  | foreign => exact absurd rfl (hclosed _ hp)

/-- The identity of the next push is not in circulation. -/
theorem Fresh.careful {k : Nat} (h : s.Fresh k) (hclosed : s.Closed) {a : OwnedAction B R N}
    (hk : a.isPush = true → k < 2 ^ 64) (ha : s.plain a = true) : s.careful a = true := by
  cases a with
  | inner a =>
      cases a with
      | call c rs => cases c <;> first | rfl | cases ha
      | kernel ks => rfl
  | push request rs =>
      replace hk := hk rfl
      unfold OwnedSys.careful
      cases howner : s.owner with
      | none => rfl
      | some o =>
          obtain ⟨ring, ids⟩ := o
          have hid : ids.next.1 = OwnedSys.minted k :=
            congrArg RequestId.mk (h.minted.source ring ids howner)
          have hquiet : s.sys.world.isMessage (request.intoPending ring ids.next.1).1 = false := by
            simpa [plain, howner] using ha
          have hrequests : (s.sys.accepted.zipIdx.any fun x =>
              s.sys.world.brings (OwnedSys.minted k).raw x.1 x.2) = false := by
            rw [List.any_eq_false]
            intro x hx
            have hmem := List.fst_mem_of_mem_zipIdx hx
            have hne := (h.accepted x.1 hmem).ne_next hk
            simp [World.brings, hne, h.quiet x.1 hmem]
          have hunread : ((s.sys.world.posted.drop s.sys.reaped.length).any fun p =>
              World.isTerminal p.2 && p.2.userData == (OwnedSys.minted k).raw) = false := by
            rw [List.any_eq_false]
            intro p hp
            have hne := (h.posted hclosed p (List.mem_of_mem_drop hp)).ne_next hk
            simp [hne]
          have hheld : (s.receipts.any fun receipt =>
              receipt.id.raw == (OwnedSys.minted k).raw) = false := by
            rw [List.any_eq_false]
            intro receipt hr
            simp [(h.receipts receipt hr).ne_next hk]
          simp [hid ▸ hquiet, hid, circulates, Sys.circulates, hrequests, hunread, hheld]
  | _ => rfl

/-! ### Steps -/

/-- A step of the ring that accepts nothing, and gives no receipt. -/
theorem Fresh.inner {k : Nat} (h : s.Fresh k) {a : Action} (hs : s.sys.step a = some s'.sys)
    (howner : s'.owner = s.owner) (hacc : s'.sys.accepted = s.sys.accepted)
    (hr : s'.receipts ⊆ s.receipts) : s'.Fresh k where
  minted := h.minted.inner hs howner
  accepted := fun sqe hmem => h.accepted sqe (hacc ▸ hmem)
  quiet := fun sqe hmem => by
    rw [(Sys.step_advance hs).isMessage_eq]
    exact h.quiet sqe (hacc ▸ hmem)
  receipts := fun receipt hmem => h.receipts receipt (hr hmem)

/-- A `reap_event` accepts nothing, and its receipt carries what a CQE carried. -/
theorem Fresh.reapEvent {k : Nat} (h : s.Fresh k) {rs : List KRound} {event : Option Event}
    (he : s.reapEvent rs = some (event, s')) (hclosed : s'.Closed) :
    s'.Fresh k ∧ (s'.keep (event.bind Event.intoReceipt)).Fresh k := by
  obtain ⟨hsys, -, hr, howner, -⟩ := reapEvent_eq he
  have hacc : s'.sys.accepted = s.sys.accepted := by
    rcases (Sys.step_record hsys).1 with hsame | ⟨sqe, rs', heq, -⟩
    · exact hsame
    · cases heq
  have hfresh := h.inner hsys howner hacc (by rw [hr]; exact List.Subset.refl _)
  refine ⟨hfresh, ⟨hfresh.minted.same rfl hfresh.minted.sound hfresh.minted.split,
    hfresh.accepted, hfresh.quiet, ?_⟩⟩
  intro receipt hmem
  rcases List.mem_append.mp hmem with hmem | hmem
  · exact hfresh.receipts receipt hmem
  · obtain ⟨p, hp, -, hid⟩ := reapEvent_receipt h.minted.sound he (Option.mem_toList.mp hmem)
    rw [← hid]
    exact hfresh.posted hclosed p (List.mem_of_mem_drop hp)

theorem Fresh.reap {k : Nat} (h : s.Fresh k) {rss : List (List KRound)}
    {receipt : Option Receipt} (hr : OwnedSys.reap rss s = some (receipt, s'))
    (hclosed : s'.Closed) : (s'.keep receipt).Fresh k := by
  induction rss generalizing s with
  | nil => cases hr
  | cons rs rss ih =>
      obtain ⟨event, s1, he, hcase⟩ := reap_cons hr
      rcases hcase with ⟨rfl, rfl⟩ | ⟨-, hrest⟩
      · exact (h.reapEvent he hclosed).2
      · have hclosed1 := hclosed.of_grows (reap_grows hrest)
        exact ih (h.reapEvent he hclosed1).1 hrest

/-- To hold fewer receipts and other tickets does no harm. -/
theorem Fresh.fewer {k : Nat} (h : s.Fresh k) (hsys : s'.sys = s.sys) (howner : s'.owner = s.owner)
    (hr : s'.receipts ⊆ s.receipts) : s'.Fresh k := by
  have hminted : s'.Minted k := by
    refine h.minted.same howner (hsys ▸ h.minted.sound) fun o ho => ?_
    rw [hsys]
    exact h.minted.split o (howner ▸ ho)
  refine ⟨hminted, ?_, ?_, fun receipt hmem => h.receipts receipt (hr hmem)⟩
  · rw [hsys]
    exact h.accepted
  · rw [hsys]
    exact h.quiet

/-- A plain push mints the next identity, and its SQE carries that one. -/
theorem Fresh.push {k : Nat} (h : s.Fresh k) {request : OwnedRequest B R N} {rs : List KRound}
    (ha : s.plain (.push request rs) = true) (hs : s.push request rs = some s')
    (hminted : s'.Minted (k + 1)) : s'.Fresh (k + 1) := by
  obtain ⟨ring, ids, sqe, ticket, howner, hpend, hsys, hr, hcase⟩ := push_eq hs
  have hstamp : sqe.userData = (OwnedSys.minted k).raw := by
    have hid := (request.intoPending_id ring ids.next.1).1
    rw [hpend] at hid
    exact hid.trans (h.minted.source ring ids howner)
  have hquiet : s.sys.world.isMessage sqe = false := by
    simpa [plain, howner, hpend] using ha
  have hadv := Sys.step_advance hsys
  refine ⟨hminted, ?_, ?_, fun receipt hmem => ?_⟩
  · intro x hx
    rcases hcase with ⟨hsame, -⟩ | ⟨hpush, -⟩
    · exact (h.accepted x (hsame ▸ hx)).mono (Nat.le_succ _)
    · rw [hpush] at hx
      rcases List.mem_append.mp hx with hx | hx
      · exact (h.accepted x hx).mono (Nat.le_succ _)
      · rw [List.mem_singleton.mp hx]
        exact ⟨k, Nat.lt_succ_self _, hstamp⟩
  · intro x hx
    rw [hadv.isMessage_eq]
    rcases hcase with ⟨hsame, -⟩ | ⟨hpush, -⟩
    · exact h.quiet x (hsame ▸ hx)
    · rw [hpush] at hx
      rcases List.mem_append.mp hx with hx | hx
      · exact h.quiet x hx
      · rw [List.mem_singleton.mp hx]
        exact hquiet
  · rw [hr] at hmem
    exact (h.receipts receipt hmem).mono (Nat.le_succ _)

/-- The step lemma: a push mints one identity, and no other plain step brings one. -/
theorem Fresh.step {k : Nat} (h : s.Fresh k) {a : OwnedAction B R N} (ha : s.plain a = true)
    (hs : s.step a = some s') (hclosed : s'.Closed) :
    s'.Fresh (if a.isPush then k + 1 else k) := by
  cases a with
  | inner a =>
      obtain ⟨sys, hsys, rfl⟩ := Option.map_eq_some_iff.mp hs
      refine h.inner hsys rfl ?_ (List.Subset.refl _)
      -- the only step of the ring that accepts an SQE is a raw push
      rcases (Sys.step_record hsys).1 with hsame | ⟨sqe, rs, rfl, -⟩
      · exact hsame
      · cases ha
  | splitOwned ring rs =>
      obtain ⟨hsys, -, hr⟩ := splitOwned_eq hs
      have hacc : s'.sys.accepted = s.sys.accepted := by
        rcases (Sys.step_record hsys).1 with hsame | ⟨sqe, rs', heq, -⟩
        · exact hsame
        · cases heq
      have hadv := Sys.step_advance hsys
      refine ⟨?_, hacc ▸ h.accepted, fun sqe hmem => ?_, hr ▸ h.receipts⟩
      · rcases h.minted.step hs with ⟨hpush, -⟩ | ⟨-, hm, -⟩
        · cases hpush
        · exact hm
      · rw [hadv.isMessage_eq]
        exact h.quiet sqe (hacc ▸ hmem)
  | push request rs =>
      rcases h.minted.step hs with ⟨-, hm, -⟩ | ⟨hpush, -⟩
      · exact h.push ha hs hm
      · cases hpush
  | reapEvent rs =>
      obtain ⟨⟨event, s1⟩, he, rfl⟩ := Option.map_eq_some_iff.mp hs
      exact (h.reapEvent he hclosed).2
  | reap rss =>
      obtain ⟨⟨receipt, s1⟩, hr, rfl⟩ := Option.map_eq_some_iff.mp hs
      exact h.reap hr hclosed
  | redeem ticket receipt =>
      simp only [OwnedSys.step, redeem] at hs
      split at hs
      · split at hs <;> cases hs
        · exact h.fewer rfl rfl List.eraseIdx_subset
        · exact h
      · cases hs
  | dropTicket ticket =>
      cases hs
      exact h.fewer rfl rfl (List.Subset.refl _)
  | dropReceipt receipt =>
      cases hs
      exact h.fewer rfl rfl List.eraseIdx_subset

theorem ofSys_fresh (params : RingParams) (resources : RingResources)
    (sqStart cqStart : UInt32) (sqArray : Nat → UInt32) (sqes : Nat → Sqe) (cqes : Nat → Cqe) :
    (ofSys (Sys.init params resources sqStart cqStart sqArray sqes cqes) :
      OwnedSys B R N).Fresh 0 where
  minted := ofSys_minted params resources sqStart cqStart sqArray sqes cqes
  accepted := fun sqe hmem => by cases hmem
  quiet := fun sqe hmem => by cases hmem
  receipts := fun receipt hmem => by cases hmem

end OwnedSys

/-! ### Programs with memory -/

section Programs

variable {ι : Type} {K : ι → RequestKind}

/-- The action is a call of a push method. -/
def CustodyAction.isPush : CustodyAction K → Bool
  | .push _ _ => true
  | _ => false

/-- The request that the action makes is sound. -/
def CustodyAction.MakesSound : CustodyAction K → Prop
  | .prepare k q => (K k).Sound q
  | _ => True

namespace Custody

variable {s s' : Custody K}

/-- The step is a plain one of the owned ring, or none of it. -/
def plain (s : Custody K) (a : CustodyAction K) : Bool := (s.ownAction a).all s.own.plain

/-- Every step of the run is plain in the state it starts from. -/
def plainRun : List (CustodyAction K) → Custody K → Bool
  | [], _ => true
  | a :: as, s =>
      s.plain a &&
        match s.step a with
        | none => false
        | some s' => plainRun as s'

/-- After `k` pushes the identities are fresh, and the requests that are not queued are sound. -/
structure Regular (s : Custody K) (k : Nat) : Prop where
  fresh : s.own.Fresh k
  sound : ∀ x ∈ s.requests, (K x.1).Sound x.2

/-- The owned ring pushes when the program does. -/
theorem isPush_own {a : CustodyAction K} {b : OwnedAction Empty Empty 0}
    (hs : s.step a = some s') (hb : s.ownAction a = some b) : b.isPush = a.isPush := by
  cases a with
  | push i rs =>
      obtain ⟨t, -, rfl⟩ := Option.map_eq_some_iff.mp hb
      rfl
  | other a =>
      cases hb
      simp only [step, Option.ite_none_right_eq_some] at hs
      cases b <;> first | rfl | cases hs.1
  | redeem i j =>
      cases hb
      rfl
  | dropTicket i =>
      cases hb
      rfl
  | _ => cases hb

theorem Regular.careful {k : Nat} (h : s.Regular k) (hclosed : s.own.Closed)
    {a : CustodyAction K} (hk : a.isPush = true → k < 2 ^ 64) (ha : s.plain a = true)
    (hs : s.step a = some s') : s.careful a = true := by
  unfold Custody.careful
  rw [Bool.and_eq_true]
  constructor
  · cases a with
    | push i rs =>
        show (s.attempt i).all (fun t => decide ((K t.kind).Sound t.request)) = true
        cases ht : s.attempt i with
        | none => rfl
        | some t =>
            have hsound := h.sound _ (List.mem_of_getElem? (attempt_eq ht).1)
            simpa using hsound
    | _ => rfl
  · cases hb : s.ownAction a with
    | none => rfl
    | some b =>
        unfold plain at ha
        rw [hb] at ha
        exact h.fresh.careful hclosed (isPush_own hs hb ▸ hk) ha

theorem Regular.step {k : Nat} (h : s.Regular k) (htracked : s.Tracked) {a : CustodyAction K}
    (ha : s.plain a = true) (hmakes : a.MakesSound) (hs : s.step a = some s')
    (hclosed : s'.own.Closed) : s'.Regular (if a.isPush then k + 1 else k) := by
  have hdoes := does_of_step htracked.tickets hs
  constructor
  · rcases hdoes.own with ⟨hnone, hsame⟩ | ⟨b, hb, hstep⟩
    · rw [hsame]
      -- what is no step of the owned ring is no push
      cases hdoes <;> first | exact h.fresh | (simp_all [ownAction])
    · rw [← isPush_own hs hb]
      unfold plain at ha
      rw [hb] at ha
      exact h.fresh.step ha hstep hclosed
  · cases hdoes with
    | prepare _ =>
        intro x hx
        rcases List.mem_append.mp hx with hx | hx
        · exact h.sound x hx
        · rw [List.mem_singleton.mp hx]
          exact hmakes
    | takeApart _ => exact fun x hx => h.sound x (List.mem_of_mem_eraseIdx hx)
    | push _ _ _ _ => exact fun x hx => h.sound x (List.mem_of_mem_eraseIdx hx)
    | _ => exact h.sound

/-- The run lemma: a plain run is careful for its first `2^64` pushes. -/
theorem Regular.carefulRun {k : Nat} (h : s.Regular k) (htracked : s.Tracked)
    {as : List (CustodyAction K)} (hplain : plainRun as s = true)
    (hmakes : ∀ a ∈ as, a.MakesSound) (hcount : k + as.countP CustodyAction.isPush ≤ 2 ^ 64)
    (hr : s.run as = some s') (hclosed : s'.own.Closed) : Custody.carefulRun as s = true := by
  induction as generalizing s k with
  | nil => rfl
  | cons a as ih =>
      obtain ⟨s1, h1, h2⟩ := Option.bind_eq_some_iff.mp hr
      simp only [plainRun, h1, Bool.and_eq_true] at hplain
      rw [List.forall_mem_cons] at hmakes
      rw [List.countP_cons] at hcount
      have htracked1 := htracked.step h1
      have hclosed1 := hclosed.of_grows (htracked1.run_grows h2)
      have hclosed0 := hclosed1.of_grows (does_of_step htracked.tickets h1).grows
      have hk : a.isPush = true → k < 2 ^ 64 := by
        intro hpush
        rw [if_pos hpush] at hcount
        omega
      have hrest := ih (h.step htracked hplain.1 hmakes.1 h1 hclosed1) htracked1 hplain.2 hmakes.2
        (count_next hcount) h2
      simp only [Custody.carefulRun, h1, Bool.and_eq_true]
      exact ⟨h.careful hclosed0 hk hplain.1 h1, hrest⟩

end Custody

end Programs

/-! ### The law for plain programs -/

section Methods

variable [Native] {B R : Type} [StableBufferMut B] [StableBufferMut R] {w : Width} {packed : Bool}

/-- The request that the action makes is one that its constructors can make. -/
def CustodyAction.Constructed : CustodyAction (PushMethod.kind B R w packed) → Prop
  | .prepare k q => k.Constructed q
  | _ => True

theorem CustodyAction.Constructed.makesSound {a : CustodyAction (PushMethod.kind B R w packed)}
    (h : a.Constructed) : a.MakesSound := by
  cases a with
  | prepare k q => exact constructed_sound k q h
  | _ => exact trivial

/-- A program that makes its requests with the constructors and uses the push methods alone has
memory custody and authentic receipts, for as long as the counter has not come round. -/
theorem plain_custody (params : RingParams) (resources : RingResources) (sqStart cqStart : UInt32)
    (sqArray : Nat → UInt32) (sqes : Nat → Sqe) (cqes : Nat → Cqe)
    (as : List (CustodyAction (PushMethod.kind B R w packed)))
    (s : Custody (PushMethod.kind B R w packed))
    (hr : (Custody.start B R w packed
      (Sys.init params resources sqStart cqStart sqArray sqes cqes)).run as = some s)
    (hclosed : s.own.Closed) (hmade : ∀ a ∈ as, a.Constructed)
    (hplain : Custody.plainRun as (Custody.start B R w packed
      (Sys.init params resources sqStart cqStart sqArray sqes cqes)) = true)
    (hcount : as.countP CustodyAction.isPush ≤ 2 ^ 64) :
    s.Safe ∧ s.own.ReceiptsAuthentic := by
  have htracked : (Custody.start B R w packed
      (Sys.init params resources sqStart cqStart sqArray sqes cqes)).Tracked :=
    Custody.ofSys_tracked _
  have hregular : (Custody.start B R w packed
      (Sys.init params resources sqStart cqStart sqArray sqes cqes)).Regular 0 :=
    ⟨OwnedSys.ofSys_fresh params resources sqStart cqStart sqArray sqes cqes,
      fun x hx => by cases hx⟩
  have hcareful := hregular.carefulRun htracked hplain (fun a ha => (hmade a ha).makesSound)
    (by omega) hr hclosed
  have hkept : (Custody.start B R w packed
      (Sys.init params resources sqStart cqStart sqArray sqes cqes)).Kept :=
    Custody.ofSys_kept params resources sqStart cqStart sqArray sqes cqes
  have hend := hkept.run htracked hcareful hr hclosed
  exact ⟨hend.safe (htracked.run hr), hend.inv.authentic⟩

end Methods

section Run

local instance littleNative : Native := ⟨.little⟩

theorem readAndOpen_constructed : ∀ a ∈ readAndOpen, a.Constructed := by
  have hpath : tmpPath.Made := by
    have hcopy : (OwnedPath.copyInto tmpPath.storage [1, 2, 3, 4] (Memory.of fun _ => 0)).1
        = .ok tmpPath := rfl
    exact .copyInto (Prod.ext hcopy rfl)
  simp only [readAndOpen, List.forall_mem_cons]
  refine ⟨trivial, trivial, trivial, trivial, ?_, ?_, trivial, trivial, trivial, trivial, trivial,
    trivial, fun a ha => by cases ha⟩
  · exact ⟨.read ⟨4⟩ onePage 0, .single (Prepared.read ⟨4⟩ onePage 0), [], rfl,
      (fun op hop => by cases hop), rfl⟩
  · exact ⟨.cwd, tmpPath, ∅, ∅, hpath, rfl⟩

/-- The receipt of the read came, and the open is in flight. -/
theorem plain_custody_readAndOpen :
    ∃ s, twoEntryStart.run readAndOpen = some s ∧
      (s.taken.any fun t => !s.own.sys.world.finished t.slot) = true ∧
      s.hand = [memoryOf onePage] ∧ s.Safe ∧ s.own.ReceiptsAuthentic := by
  have heval : (twoEntryStart.run readAndOpen).map
      (fun s => (decide s.own.Closed,
        s.taken.any fun t => !s.own.sys.world.finished t.slot, s.hand))
      = some (true, true, [memoryOf onePage]) := by decide +kernel
  have hplain : Custody.plainRun readAndOpen twoEntryStart = true := by decide +kernel
  obtain ⟨s, hrun, heval⟩ := Option.map_eq_some_iff.mp heval
  obtain ⟨hclosed, hopen, hhand⟩ := by simpa only [Prod.mk.injEq] using heval
  exact ⟨s, hrun, hopen, hhand, plain_custody _ _ _ _ _ _ _ readAndOpen s hrun
    (of_decide_eq_true hclosed) readAndOpen_constructed hplain (by decide)⟩

end Run

end Ququmatz
