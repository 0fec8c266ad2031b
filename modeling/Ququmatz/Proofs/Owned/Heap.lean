import Ququmatz.Owned.Heap
import Ququmatz.Proofs.Owned.Custody

/-!
# `Ququmatz.Proofs.Owned.Heap`: the result of a request is what the kernel left

`SameOn` is the frame condition, and `Lawful.frame` is its step lemma: the memory in a ticket is
apart from all that the program has and from the memory of every other request in flight, so only
the kernel can change it, and only for the request of that ticket. `lent_memory_framed` is the run
lemma, and when the request is over nobody changes it (`Lawful.frame_over`).

`results_delivered` puts the two together with `RequestKind.Reads`: the record that lies in the
memory of a request when the request is over is what its completion reads, whatever the program and
the kernel do until the ticket is redeemed.
-/

set_option autoImplicit false

namespace Ququmatz

open Lib

variable {ι : Type} {K : ι → RequestKind}

theorem SameOn.refl (ranges : List Range) (bytes : Nat → UInt8) : SameOn ranges bytes bytes :=
  fun _ _ _ _ => rfl

theorem SameOn.trans {ranges : List Range} {b1 b2 b3 : Nat → UInt8} (h : SameOn ranges b1 b2)
    (h' : SameOn ranges b2 b3) : SameOn ranges b1 b3 :=
  fun x hx a ha => (h' x hx a ha).trans (h x hx a ha)

/-- A write beside the ranges leaves them as they are. -/
theorem SameOn.store {ranges : List Range} {addr : Nat} {data : List UInt8}
    (h : ∀ x ∈ ranges, Range.Disjoint ⟨addr, data.length⟩ x) (bytes : Nat → UInt8) :
    SameOn ranges bytes (Bytes.store bytes addr data) := by
  intro x hx a ha
  have hout := Range.disjoint_iff.mp (h x hx).symm a ha
  refine Bytes.store_outside ?_
  show a < addr ∨ addr + data.length ≤ a
  have hnot : ¬ (addr ≤ a ∧ a < addr + data.length) := hout
  omega

namespace Heap

variable {s s' : Heap K}

/-! ### What a step does -/

/-- The effects of a step. A write is one of the program or one of the kernel. -/
inductive Does (s : Heap K) : HeapAction K → Heap K → Prop
  | custody {a : CustodyAction K} {custody : Custody K} (hstep : s.custody.step a = some custody) :
      Does s (.custody a) { s with custody := custody }
  | write {addr : Nat} {data : List UInt8} {x : Range} (hx : x ∈ s.custody.loans.held)
      (hin : Range.Inside ⟨addr, data.length⟩ x) :
      Does s (.write addr data) { s with bytes := Bytes.store s.bytes addr data }
  | kernel {addr : Nat} {data : List UInt8} {u : Taken K} {x : Range} (hu : s.custody.InFlight u)
      (hx : x ∈ u.named) (hin : Range.Inside ⟨addr, data.length⟩ x) :
      Does s (.kernel u.slot addr data) { s with bytes := Bytes.store s.bytes addr data }

theorem does_of_step {a : HeapAction K} (h : s.step a = some s') : Does s a s' := by
  cases a with
  | custody a =>
      obtain ⟨custody, hstep, rfl⟩ := Option.map_eq_some_iff.mp h
      exact .custody hstep
  | write addr data =>
      simp only [step, Option.ite_none_right_eq_some] at h
      obtain ⟨⟨x, hx, hin⟩, h⟩ := h
      cases h
      exact .write hx hin
  | kernel slot addr data =>
      simp only [step, Option.ite_none_right_eq_some] at h
      obtain ⟨⟨u, hu, rfl, hflight, x, hx, hin⟩, h⟩ := h
      cases h
      exact .kernel ⟨hu, hflight⟩ hx hin

/-- The custody makes its own step, or none. -/
theorem Does.grows {a : HeapAction K} (h : Does s a s') (ht : s.custody.Tracked) :
    s'.custody.Tracked ∧ s.custody.own.sys.world.Grows s'.custody.own.sys.world := by
  cases h with
  | custody hstep =>
      exact ⟨ht.step hstep, (Custody.does_of_step ht.tickets hstep).grows⟩
  | _ => exact ⟨ht, World.Grows.refl _⟩

theorem isRun : IsRun (Heap.step (K := K)) Heap.run := ⟨fun _ => rfl, fun _ _ _ => rfl⟩

theorem run_grows (ht : s.custody.Tracked) {as : List (HeapAction K)} (hr : s.run as = some s') :
    s.custody.own.sys.world.Grows s'.custody.own.sys.world := by
  have hkeeps := isRun.keeps
    (P := fun t : Heap K =>
      t.custody.Tracked ∧ s.custody.own.sys.world.Grows t.custody.own.sys.world)
    (fun t _ t' h hs =>
      have hnext := (does_of_step hs).grows h.1
      ⟨hnext.1, h.2.trans hnext.2⟩)
    ⟨ht, World.Grows.refl _⟩ hr
  exact hkeeps.2

/-! ### What a careful run keeps -/

/-- What is kept of the custody, and every ticket is that of a request that was accepted. -/
structure Lawful (s : Heap K) : Prop where
  tracked : s.custody.Tracked
  kept : s.custody.Kept
  filed : ∀ t ∈ s.custody.tickets, t ∈ s.custody.taken

theorem Lawful.step (h : s.Lawful) {a : HeapAction K} (hc : s.careful a = true)
    (hs : s.step a = some s') (hclosed : s'.custody.own.Closed) : s'.Lawful := by
  cases does_of_step hs with
  | custody hstep =>
      exact ⟨h.tracked.step hstep, h.kept.step h.tracked hc hstep hclosed,
        (Custody.does_of_step h.tracked.tickets hstep).filed h.filed⟩
  | _ => exact ⟨h.tracked, h.kept, h.filed⟩

theorem Lawful.run (h : s.Lawful) {as : List (HeapAction K)} (hc : carefulRun as s = true)
    (hr : s.run as = some s') (hclosed : s'.custody.own.Closed) : s'.Lawful := by
  induction as generalizing s with
  | nil =>
      cases hr
      exact h
  | cons a as ih =>
      obtain ⟨s1, h1, h2⟩ := Option.bind_eq_some_iff.mp hr
      simp only [carefulRun, h1, Bool.and_eq_true] at hc
      have htracked1 := ((does_of_step h1).grows h.tracked).1
      have hclosed1 := hclosed.of_grows (run_grows htracked1 h2)
      exact ih (h.step hc.1 h1 hclosed1) hc.2 h2

/-! ### The frame -/

theorem Does.ticket_before {a : HeapAction K} (h : Does s a s') (htracked : s.custody.Tracked)
    {t : Taken K} (ht : t ∈ s'.custody.tickets)
    (hold : t.slot < s.custody.own.sys.accepted.length) : t ∈ s.custody.tickets := by
  cases h with
  | custody hstep =>
      exact (Custody.does_of_step htracked.tickets hstep).ticket_before ht hold
  | _ => exact ht

/-- What was accepted stays accepted. -/
theorem Does.accepted {a : HeapAction K} (h : Does s a s') (htracked : s.custody.Tracked) :
    s.custody.own.sys.accepted.length ≤ s'.custody.own.sys.accepted.length := by
  cases h with
  | custody hstep =>
      rcases (Custody.does_of_step htracked.tickets hstep).own with ⟨-, hsame⟩ | ⟨b, -, hown⟩
      · rw [hsame]
      · exact (OwnedSys.step_accepted hown).length_le
  | _ => exact Nat.le_refl _

/-- The place of a ticket's memory among the lots that are not in hand. -/
theorem Lawful.lot {c : Custody K} {t : Taken K} (h : t ∈ c.tickets ∨ t ∈ c.leaked) :
    ∃ i : Nat, c.loans.out[i]? = some t.memory ∧ (c.tickets ++ c.leaked)[i]? = some t := by
  obtain ⟨i, hi⟩ := List.mem_iff_getElem?.mp (List.mem_append.mpr h)
  refine ⟨i, ?_, hi⟩
  show (c.tickets.map Taken.memory ++ c.leaked.map Taken.memory)[i]? = _
  rw [← List.map_append, List.getElem?_map, hi]
  rfl

/-- The step lemma: what is not written for a request leaves the memory of its ticket alone. -/
theorem Lawful.frame (h : s.Lawful) {a : HeapAction K} (hs : s.step a = some s') {t : Taken K}
    (ht : t ∈ s.custody.tickets) (ha : a.writesFor t.slot = false) :
    SameOn t.memory s.bytes s'.bytes := by
  obtain ⟨i, hlot, hplace⟩ := Lawful.lot (Or.inl ht)
  have hsub : ∀ x : Range, x.Inside x := fun x => Or.inr ⟨Nat.le_refl _, Nat.le_refl _⟩
  cases does_of_step hs with
  | custody _ => exact SameOn.refl _ _
  | @write addr data x hx hin =>
      refine SameOn.store (fun y hy => ?_) _
      -- what the program has is apart from what is lent
      have hapart := h.tracked.apart.held_out Range.Disjoint.symm hx
        (List.mem_of_getElem? hlot) hy
      exact (hapart.inside (hsub y) hin).symm
  | @kernel addr data u x hu hx hin =>
      refine SameOn.store (fun y hy => ?_) _
      obtain ⟨j, hlot', hplace'⟩ := Lawful.lot (h.kept.kept u hu)
      -- the request that is written for is another one, so its memory is another lot
      have hne : j ≠ i := by
        rintro rfl
        rw [hplace] at hplace'
        cases hplace'
        simp [HeapAction.writesFor] at ha
      obtain ⟨block, hblock, hxin⟩ := u.named_inside (h.kept.sound u hu.1) x hx
      have hapart := h.tracked.apart.out_out Range.Disjoint.symm hlot' hlot hne hblock hy
      exact hapart.inside (Range.inside_iff.mpr fun a ha =>
        Range.inside_iff.mp hxin a (Range.inside_iff.mp hin a ha)) (hsub y)

/-- The run lemma. -/
theorem Lawful.run_frame (h : s.Lawful) {as : List (HeapAction K)} (hc : carefulRun as s = true)
    (hr : s.run as = some s') (hclosed : s'.custody.own.Closed) {t : Taken K}
    (ht' : t ∈ s'.custody.tickets) (hold : t.slot < s.custody.own.sys.accepted.length)
    (ha : ∀ a ∈ as, a.writesFor t.slot = false) :
    t ∈ s.custody.tickets ∧ SameOn t.memory s.bytes s'.bytes := by
  induction as generalizing s with
  | nil =>
      cases hr
      exact ⟨ht', SameOn.refl _ _⟩
  | cons a as ih =>
      obtain ⟨s1, h1, h2⟩ := Option.bind_eq_some_iff.mp hr
      simp only [carefulRun, h1, Bool.and_eq_true] at hc
      rw [List.forall_mem_cons] at ha
      have hdoes := does_of_step h1
      have htracked1 := (hdoes.grows h.tracked).1
      have hclosed1 := hclosed.of_grows (run_grows htracked1 h2)
      have hold1 := Nat.lt_of_lt_of_le hold (hdoes.accepted h.tracked)
      obtain ⟨ht1, hsame⟩ := ih (h.step hc.1 h1 hclosed1) hc.2 h2 hold1 ha.2
      have ht := hdoes.ticket_before h.tracked ht1 hold
      exact ⟨ht, (h.frame h1 ht ha.1).trans hsame⟩

/-- The kernel does not write for a request that is over. -/
theorem quiet_over {t : Taken K} (hover : s.custody.own.sys.world.finished t.slot = true)
    (ht : s.custody.Tracked) {as : List (HeapAction K)} (hr : s.run as = some s') :
    ∀ a ∈ as, a.writesFor t.slot = false := by
  induction as generalizing s with
  | nil =>
      intro a ha
      cases ha
  | cons a as ih =>
      obtain ⟨s1, h1, h2⟩ := Option.bind_eq_some_iff.mp hr
      have hnext := (does_of_step h1).grows ht
      have hover1 := World.finished_mono hnext.2.posted hover
      refine List.forall_mem_cons.mpr ⟨?_, ih hover1 hnext.1 h2⟩
      cases does_of_step h1 with
      | @kernel addr data u x hu hx hin =>
          -- a request that is written for is in flight
          refine Bool.eq_false_iff.mpr fun heq => ?_
          have hslot : u.slot = t.slot := by simpa [HeapAction.writesFor] using heq
          rw [← hslot, hu.2] at hover
          cases hover
      | _ => rfl

theorem Lawful.slot_lt (h : s.Lawful) {t : Taken K} (ht : t ∈ s.custody.tickets) :
    t.slot < s.custody.own.sys.accepted.length :=
  (List.getElem?_eq_some_iff.mp (h.tracked.accepted t (h.filed t ht))).1

/-! ### Redemption -/

/-- A receipt of its request redeems a ticket, and the memory comes back as it is. -/
theorem Lawful.redeem (h : s.Lawful) {i j : Nat} {t : Taken K} {r : Receipt}
    (ht : s.custody.tickets[i]? = some t) (hr : s.custody.own.receipts[j]? = some r)
    (hown : r.belongsTo t.ring t.id = true) :
    ∃ d s', (K t.kind).redeem t.pending r = .ok d ∧
      s.step (.custody (.redeem i j)) = some s' ∧ s'.bytes = s.bytes ∧
      s'.custody.hand = s.custody.hand ++ (K t.kind).returns d := by
  obtain ⟨d, hd, hback⟩ := (K t.kind).redeem_own t.request t.ring t.id r hown
  have hheld : s.custody.own.tickets[i]? = some t.held := by
    rw [h.tracked.tickets, List.getElem?_map, ht]
    rfl
  have hredeem : (K t.kind).redeem t.pending r = .ok d := hd
  have hstep : ∃ c, s.custody.step (.redeem i j) = some c ∧
      c.hand = s.custody.hand ++ (K t.kind).returns d := by
    show ∃ c, s.custody.redeem i j = some c ∧ _
    unfold Custody.redeem
    simp only [ht, hr]
    rw [OwnedSys.redeem_eq hheld hr, if_pos (show t.held.ticket.accepts r = true from hown)]
    simp only [Option.map_some, hredeem]
    exact ⟨_, rfl, rfl⟩
  obtain ⟨c, hstep, hhand⟩ := hstep
  have hwhole : s.step (.custody (.redeem i j)) = some { s with custody := c } := by
    show (s.custody.step _).map _ = _
    rw [hstep]
    rfl
  exact ⟨d, _, hredeem, hwhole, rfl, hhand⟩

/-- The record that stands in the memory of a request of the kind when the request is over in `s` is
what its completion reads when a receipt of the request redeems the ticket in `s'`. -/
def Delivers (s s' : Heap K) (k : ι) {V : Type} (reads : (K k).Reads V) : Prop :=
  ∀ (q : (K k).Prepared) (ring : RingId) (id : RequestId) (slot : Nat) (r : Receipt) (v : V)
    (i j : Nat),
    (⟨k, q, ring, id, slot⟩ : Taken K) ∈ s.custody.tickets →
    s.custody.own.sys.world.finished slot = true →
    reads.stands ((K k).intoPending q ring id).2 r s.bytes v →
    s'.custody.tickets[i]? = some ⟨k, q, ring, id, slot⟩ →
    s'.custody.own.receipts[j]? = some r → r.belongsTo ring id = true →
    ∃ d s'', s'.step (.custody (.redeem i j)) = some s'' ∧
      s''.custody.hand = s'.custody.hand ++ (K k).returns d ∧ reads.read d s''.bytes = some v

theorem Lawful.delivers (h : s.Lawful) {bs : List (HeapAction K)}
    (hc : carefulRun bs s = true) (hr : s.run bs = some s') (hclosed : s'.custody.own.Closed)
    {k : ι} {V : Type} (reads : (K k).Reads V) : Delivers s s' k reads := by
  intro q ring id slot r v i j ht hover hstands ht' hreceipt hown
  -- nobody writes to the memory of a request that is over
  have hsame := (h.run_frame hc hr hclosed (List.mem_of_getElem? ht') (h.slot_lt ht)
    (quiet_over hover h.tracked hr)).2
  obtain ⟨d, s'', hredeem, hstep, hbytes, hhand⟩ := (h.run hc hr hclosed).redeem ht' hreceipt hown
  refine ⟨d, s'', hstep, hhand, ?_⟩
  rw [hbytes]
  rw [Taken.memory_eq] at hsame
  exact reads.read_redeem q ring id r d s'.bytes v hredeem
    (reads.stands_same q ring id r s.bytes s'.bytes v hsame hstands)

end Heap

/-! ### The laws -/

section Methods

variable [Native] {B R : Type} [StableBuffer B] [StableBuffer R] {w : Width} {packed : Bool}

/-- The memory of a program over the requests of the push methods, before it has any. -/
def Heap.start (B R : Type) [StableBuffer B] [StableBuffer R] (w : Width) (packed : Bool)
    (sys : Sys) (bytes : Nat → UInt8) : Heap (PushMethod.kind B R w packed) :=
  ⟨Custody.start B R w packed sys, bytes⟩

theorem Heap.start_lawful (params : RingParams) (resources : RingResources)
    (sqStart cqStart : UInt32) (sqArray : Nat → UInt32) (sqes : Nat → Sqe) (cqes : Nat → Cqe)
    (bytes : Nat → UInt8) :
    (Heap.start B R w packed (Sys.init params resources sqStart cqStart sqArray sqes cqes)
      bytes).Lawful where
  tracked := Custody.ofSys_tracked _
  kept := Custody.ofSys_kept params resources sqStart cqStart sqArray sqes cqes
  filed := fun t ht => by cases ht

theorem Heap.start_run (params : RingParams) (resources : RingResources)
    (sqStart cqStart : UInt32) (sqArray : Nat → UInt32) (sqes : Nat → Sqe) (cqes : Nat → Cqe)
    (bytes : Nat → UInt8) {as bs : List (HeapAction (PushMethod.kind B R w packed))}
    {s s' : Heap (PushMethod.kind B R w packed)}
    (hr : (Heap.start B R w packed (Sys.init params resources sqStart cqStart sqArray sqes cqes)
      bytes).run as = some s)
    (hc : Heap.carefulRun as (Heap.start B R w packed
      (Sys.init params resources sqStart cqStart sqArray sqes cqes) bytes) = true)
    (hr' : s.run bs = some s') (hclosed : s'.custody.own.Closed) : s.Lawful := by
  have hstart : (Heap.start B R w packed (Sys.init params resources sqStart cqStart sqArray sqes
      cqes) bytes).Lawful :=
    Heap.start_lawful params resources sqStart cqStart sqArray sqes cqes bytes
  have htracked : s.custody.Tracked := Heap.isRun.keeps
    (P := fun t : Heap (PushMethod.kind B R w packed) => t.custody.Tracked)
    (fun _ _ _ ht hs => ((Heap.does_of_step hs).grows ht).1) hstart.tracked hr
  exact hstart.run hc hr (hclosed.of_grows (Heap.run_grows htracked hr'))

/-- While a ticket is there, its memory holds what it held, up to what the kernel writes for that
request. -/
theorem lent_memory_framed (params : RingParams) (resources : RingResources)
    (sqStart cqStart : UInt32) (sqArray : Nat → UInt32) (sqes : Nat → Sqe) (cqes : Nat → Cqe)
    (bytes : Nat → UInt8) (as bs : List (HeapAction (PushMethod.kind B R w packed)))
    (s s' : Heap (PushMethod.kind B R w packed))
    (hr : (Heap.start B R w packed (Sys.init params resources sqStart cqStart sqArray sqes cqes)
      bytes).run as = some s)
    (hc : Heap.carefulRun as (Heap.start B R w packed
      (Sys.init params resources sqStart cqStart sqArray sqes cqes) bytes) = true)
    (hr' : s.run bs = some s') (hc' : Heap.carefulRun bs s = true)
    (hclosed : s'.custody.own.Closed)
    (t : Taken (PushMethod.kind B R w packed)) (ht : t ∈ s.custody.tickets)
    (ht' : t ∈ s'.custody.tickets) (hquiet : ∀ b ∈ bs, b.writesFor t.slot = false) :
    SameOn t.memory s.bytes s'.bytes := by
  have hlawful := Heap.start_run params resources sqStart cqStart sqArray sqes cqes bytes hr hc
    hr' hclosed
  exact (hlawful.run_frame hc' hr' hclosed ht' (hlawful.slot_lt ht) hquiet).2

/-- The record that lies in the memory of a request when the request is over is what the program
reads, whenever it redeems the ticket: for `statx`, `waitid`, `epoll_wait` and `pipe`. -/
theorem results_delivered (params : RingParams) (resources : RingResources)
    (sqStart cqStart : UInt32) (sqArray : Nat → UInt32) (sqes : Nat → Sqe) (cqes : Nat → Cqe)
    (bytes : Nat → UInt8) (as bs : List (HeapAction (PushMethod.kind B R w packed)))
    (s s' : Heap (PushMethod.kind B R w packed))
    (hr : (Heap.start B R w packed (Sys.init params resources sqStart cqStart sqArray sqes cqes)
      bytes).run as = some s)
    (hc : Heap.carefulRun as (Heap.start B R w packed
      (Sys.init params resources sqStart cqStart sqArray sqes cqes) bytes) = true)
    (hr' : s.run bs = some s') (hc' : Heap.carefulRun bs s = true)
    (hclosed : s'.custody.own.Closed) :
    Heap.Delivers s s' .statx (PreparedStatx.reads w) ∧
      Heap.Delivers s s' .waitid (PreparedWaitId.reads w) ∧
      (∀ checked, Heap.Delivers s s' .epollWait (PreparedEpollWait.reads w packed checked)) ∧
      Heap.Delivers s s' .pipe (PreparedPipe.reads w) := by
  have hlawful := Heap.start_run params resources sqStart cqStart sqArray sqes cqes bytes hr hc
    hr' hclosed
  exact ⟨hlawful.delivers hc' hr' hclosed _, hlawful.delivers hc' hr' hclosed _,
    fun _ => hlawful.delivers hc' hr' hclosed _, hlawful.delivers hc' hr' hclosed _⟩

end Methods

section Run

local instance heapEndian : Native := ⟨.little⟩

local instance decidableStands {V : Type} (L : Layout V) (bytes : Nat → UInt8) (addr : Nat)
    (v : V) :
    Decidable (L.Stands bytes addr v) :=
  inferInstanceAs (Decidable (∀ f ∈ L.fields v, _))

/-- A request for a pipe, with the descriptors to come at the address. -/
def pipeAt (addr : Usize .w64) (fits : addr.toNat + 8 ≤ 2 ^ 64)
    (aligned : addr.toNat % 4 = 0) : PreparedPipe .w64 where
  dest :=
    { store := ⟨addr, 8, fits⟩
      addr := addr
      addr_eq := rfl
      room := Nat.le_refl 8
      aligned := aligned }
  flags := ⟨0⟩

abbrev pipeStart : Heap (PushMethod.kind MmapBuffer MmapBuffer .w64 true) :=
  Heap.start MmapBuffer MmapBuffer .w64 true Sys.wrapping fun _ => 0

/-- Two pipes are queued, and the kernel makes the first. -/
def firstPipe : List (HeapAction (PushMethod.kind MmapBuffer MmapBuffer .w64 true)) :=
  [.custody (.other (.splitOwned ⟨7⟩ [.quiet])),
    .custody (.allocate ⟨0x4000, 8⟩), .custody (.allocate ⟨0x5000, 8⟩),
    .custody (.prepare .pipe (pipeAt 0x4000 (by decide) (by decide))),
    .custody (.prepare .pipe (pipeAt 0x5000 (by decide) (by decide))),
    .custody (.push 0 [.quiet, .quiet]), .custody (.push 0 [.quiet, .quiet]),
    .custody (.other (.inner (.call .submit [.quiet, .entered ⟨.ok 2, []⟩]))),
    .kernel 0 0x4000 (i32Bytes 5 ++ i32Bytes 6),
    .custody (.other (.inner (.kernel (.post (.request 0) ⟨1, 0, 0⟩))))]

/-- The program writes to memory of its own, and the kernel writes for the second pipe. -/
def secondPipe : List (HeapAction (PushMethod.kind MmapBuffer MmapBuffer .w64 true)) :=
  [.custody (.allocate ⟨0x6000, 8⟩), .write 0x6000 [1, 2, 3],
    .kernel 1 0x5000 (i32Bytes 7 ++ i32Bytes 8),
    .custody (.other (.reap [[.quiet, .quiet]]))]

/-- The ticket is that of a pipe, and the descriptors 5 and 6 lie in its memory. -/
def pipeStands (bytes : Nat → UInt8) :
    Taken (PushMethod.kind MmapBuffer MmapBuffer .w64 true) → Bool
  | ⟨.pipe, q, ring, id, _⟩ =>
      let t : PendingPipe .w64 := (PreparedPipe.intoPending q ring id).2
      decide (¬ (0 : Int32) < 0 ∧
        (i32Layout.pair i32Layout).Stands bytes (t.kept.dest.addr.toNat + 0) (5, 6))
  | _ => false

theorem firstPipe_careful : Heap.carefulRun firstPipe pipeStart = true := by decide +kernel

/-- The first pipe is over, and its descriptors lie in its memory. Its ticket and its receipt are
the first ones after the second run. -/
theorem pipes_run :
    ∃ s s' t, pipeStart.run firstPipe = some s ∧ s.run secondPipe = some s' ∧
      s'.custody.own.Closed ∧ Heap.carefulRun secondPipe s = true ∧
      s.custody.own.sys.world.finished t.slot = true ∧ pipeStands s.bytes t = true ∧
      (t ∈ s.custody.tickets ∧ s'.custody.tickets[0]? = some t) ∧
      s'.custody.own.receipts[0]? = some ⟨⟨7⟩, ⟨1⟩, 0, ⟨0⟩⟩ ∧ t.slot = 0 ∧ t.ring = ⟨7⟩ ∧
      t.id = ⟨1⟩ := by
  have heval : (pipeStart.run firstPipe).map (fun s =>
      (Heap.carefulRun secondPipe s, s.custody.own.sys.world.finished 0,
        decide (0 < s.custody.own.sys.accepted.length),
        s.custody.tickets.all fun t => t.slot != 0 || pipeStands s.bytes t))
      = some (true, true, true, true) := by decide +kernel
  have hthen : (pipeStart.run (firstPipe ++ secondPipe)).map (fun s =>
      (decide s.custody.own.Closed, s.custody.own.receipts[0]?,
        s.custody.tickets[0]?.map fun t => (t.slot, t.ring, t.id)))
      = some (true, some ⟨⟨7⟩, ⟨1⟩, 0, ⟨0⟩⟩, some (0, ⟨7⟩, ⟨1⟩)) := by
    decide +kernel
  obtain ⟨s, hrun, heval⟩ := Option.map_eq_some_iff.mp heval
  obtain ⟨hcareful, hover, hold, hstands⟩ := by simpa only [Prod.mk.injEq] using heval
  rw [Heap.isRun.append, hrun] at hthen
  obtain ⟨s', hrun', hthen⟩ := Option.map_eq_some_iff.mp hthen
  obtain ⟨hclosed, hreceipt, hfirst⟩ := by simpa only [Prod.mk.injEq] using hthen
  obtain ⟨t, ht, hfirst⟩ := Option.map_eq_some_iff.mp hfirst
  obtain ⟨hslot, hring, hid⟩ := by simpa only [Prod.mk.injEq] using hfirst
  have hlawful := Heap.start_run _ _ _ _ _ _ _ _ hrun firstPipe_careful hrun'
    (of_decide_eq_true hclosed)
  -- the ticket was there before the second run
  have hmem := (hlawful.run_frame hcareful hrun' (of_decide_eq_true hclosed)
    (List.mem_of_getElem? ht) (by rw [hslot]; exact of_decide_eq_true hold)
    (by rw [hslot]; decide)).1
  have hpipe := List.all_eq_true.mp hstands t hmem
  rw [hslot] at hpipe
  exact ⟨s, s', t, hrun, hrun', of_decide_eq_true hclosed, hcareful,
    by rw [hslot]; exact hover, hpipe,
    ⟨hmem, ht⟩, hreceipt, hslot, hring, hid⟩

/-- The second run leaves the memory of the first pipe as it is. -/
theorem lent_memory_framed_pipes :
    ∃ s s' t, pipeStart.run firstPipe = some s ∧ s.run secondPipe = some s' ∧
      t ∈ s'.custody.tickets ∧ pipeStands s.bytes t = true ∧ SameOn t.memory s.bytes s'.bytes := by
  obtain ⟨s, s', t, hrun, hrun', hclosed, hcareful, -, hstands, ⟨hmem, ht⟩, -, hslot, -, -⟩ :=
    pipes_run
  exact ⟨s, s', t, hrun, hrun', List.mem_of_getElem? ht, hstands,
    lent_memory_framed _ _ _ _ _ _ _ _ firstPipe secondPipe s s' hrun firstPipe_careful hrun'
      hcareful hclosed t hmem (List.mem_of_getElem? ht) (by rw [hslot]; decide)⟩

/-- The descriptors of the first pipe are read after the second run. -/
theorem results_delivered_pipes :
    ∃ (s s' s'' : Heap (PushMethod.kind MmapBuffer MmapBuffer .w64 true)) (d : PipeCreated .w64),
      pipeStart.run firstPipe = some s ∧ s.run secondPipe = some s' ∧
        s'.step (.custody (.redeem 0 0)) = some s'' ∧
        (PreparedPipe.reads .w64).read d s''.bytes = some (5, 6) := by
  obtain ⟨s, s', t, hrun, hrun', hclosed, hcareful, hover, hstands, ⟨hmem, ht⟩, hreceipt, -,
    hring, hid⟩ := pipes_run
  obtain ⟨k, q, ring, id, slot⟩ := t
  cases k with
  | pipe =>
      have hrecord : ¬ (0 : Int32) < 0 ∧ (i32Layout.pair i32Layout).Stands s.bytes
          ((PreparedPipe.intoPending q ring id).2.kept.dest.addr.toNat + 0) (5, 6) :=
        of_decide_eq_true hstands
      cases hring
      cases hid
      obtain ⟨-, -, -, hpipe⟩ := results_delivered _ _ _ _ _ _ _ _ firstPipe secondPipe s s' hrun
        firstPipe_careful hrun' hcareful hclosed
      obtain ⟨d, s'', hstep, -, hread⟩ := hpipe q ⟨7⟩ ⟨1⟩ slot ⟨⟨7⟩, ⟨1⟩, 0, ⟨0⟩⟩ (5, 6) 0 0 hmem
        hover hrecord ht hreceipt rfl
      exact ⟨s, s', s'', d, hrun, hrun', hstep, hread⟩
  | _ => cases hstands

end Run

end Ququmatz
