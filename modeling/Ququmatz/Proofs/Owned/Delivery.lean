import Mathlib.Data.List.Forall2
import Ququmatz.Owned.Delivery
import Ququmatz.Proofs.Pool.Ledger

/-!
# `Ququmatz.Proofs.Owned.Delivery`: one resource for each completion that carries one

`multishot_delivers_once` is about whole sequences of reaped completions, those of one
multishot request mixed with any others. Each completion of the request yields exactly the
resource that it carries (a buffer, a descriptor or a table slot), also when it is the
terminal one, and every other event comes back as it was. For buffers it follows the slots
to the end: whatever use the owner makes of `take_last`, the producer ring has grown by the
ids of these completions, in order.

`record` of a buffer ticket takes the pool as a separate argument and compares neither its
group nor its identity with the ticket. `record_routed_iff` says what that means: the slot
goes home exactly when the pool is the right one or there is no slot. `record_misrouted` are
two completions recorded on the wrong pool.
-/

set_option autoImplicit false

namespace Ququmatz

open Lib

/-! ### Events -/

namespace Event

/-- The result of the completion behind the event. -/
def result : Event → Int32
  | .complete receipt => receipt.result
  | .part receipt => receipt.result

/-- The buffer id of the completion behind the event. -/
def bufferId : Event → Option UInt16
  | .complete receipt => receipt.flags.bufferId
  | .part receipt => receipt.flags.bufferId

/-- The buffer id of an event with a non-negative result. -/
def carried (self : Event) : Option UInt16 := if 0 ≤ self.result then self.bufferId else none

end Event

/-- The delivery is the last one of its request. -/
def Delivery.isDone : Delivery → Bool
  | .done _ => true
  | _ => false

def Incoming.isDone : Incoming → Bool
  | .done _ => true
  | _ => false

def DirectIncoming.isDone : DirectIncoming → Bool
  | .done _ => true
  | _ => false

namespace Reaped

variable (r : Reaped)

/-- The `MORE` flag decides which event a completion becomes. -/
theorem event_cases :
    (r.terminal = true ∧
      r.event = .complete ⟨r.ring, ⟨r.cqe.userData⟩, r.cqe.result, r.cqe.flags⟩) ∨
    (r.terminal = false ∧
      r.event = .part ⟨r.ring, ⟨r.cqe.userData⟩, r.cqe.result, r.cqe.flags⟩) := by
  unfold event Event.ofCompletion terminal
  cases r.cqe.flags.contains CqeFlags.MORE with
  | false => exact Or.inl ⟨rfl, rfl⟩
  | true => exact Or.inr ⟨rfl, rfl⟩

theorem belongsTo_event (ring : RingId) (id : RequestId) :
    r.event.belongsTo ring id = r.isOf ring id := by
  rcases r.event_cases with ⟨-, he⟩ | ⟨-, he⟩ <;> rw [he] <;> rfl

theorem result_event : r.event.result = r.cqe.result := by
  rcases r.event_cases with ⟨-, he⟩ | ⟨-, he⟩ <;> rw [he] <;> rfl

theorem carried_event : r.event.carried = r.carried := by
  rcases r.event_cases with ⟨-, he⟩ | ⟨-, he⟩ <;> rw [he] <;> rfl

end Reaped

/-! ### Deliveries -/

theorem BufferTicket.record_eq (ticket : BufferTicket) (event : Event) :
    ticket.record event =
      if event.belongsTo ticket.ring ticket.id then .ok (Delivery.fromEvent event)
      else .error event := by
  cases ticket <;> rfl

theorem Arrival.claim_eq (bufferId : Option UInt16) (result : Int32) :
    Arrival.claim bufferId result
      = (if 0 ≤ result then bufferId else none).map fun b => ⟨b, result.toUInt32⟩ := by
  cases bufferId with
  | none => split <;> rfl
  | some b =>
      show (if 0 ≤ result then _ else _) = _
      split <;> rfl

/-- A delivery carries the arrival that its event carries. -/
theorem Delivery.arrival_fromEvent (event : Event) :
    (Delivery.fromEvent event).arrival
      = event.carried.map fun b => ⟨b, event.result.toUInt32⟩ := by
  cases event with
  | complete receipt => exact Arrival.claim_eq _ _
  | part receipt =>
      refine Eq.trans ?_ (Arrival.claim_eq receipt.flags.bufferId receipt.result)
      simp only [Delivery.fromEvent, PartialReceipt.bufferId]
      cases Arrival.claim receipt.flags.bufferId receipt.result <;> rfl

theorem Delivery.isDone_fromEvent (r : Reaped) :
    (Delivery.fromEvent r.event).isDone = r.terminal := by
  rcases r.event_cases with ⟨ht, he⟩ | ⟨ht, he⟩
  · rw [ht, he]
    rfl
  · rw [ht, he]
    unfold Delivery.fromEvent
    split <;> rename_i heq <;> cases heq
    split <;> rfl

/-- The calls of `take_last` give the last arrival out once, or leave it where it is. -/
theorem Finished.takes_last (f : Finished) (n : Nat) :
    (f.takes n).1 ++ (f.takes n).2.last.toList = f.last.toList := by
  induction n generalizing f with
  | zero => rfl
  | succ n ih =>
      show f.last.toList ++ (takes n { f with last := none }).1
        ++ (takes n { f with last := none }).2.last.toList = _
      rw [List.append_assoc, ih]
      exact List.append_nil _

/-- Whatever the owner does with a delivery, its arrival is dropped once. -/
theorem Delivery.dispose_eq (d : Delivery) (n : Nat) (pool : ProvidedBufferRing) :
    d.dispose n pool = dropArrivals d.arrival.toList pool := by
  cases d with
  | data arrival =>
      show arrival.drop pool = (arrival.drop pool >>= fun pool => Except.ok pool)
      cases arrival.drop pool <;> rfl
  | empty result => rfl
  | done finished =>
      show dropArrivals ((finished.takes n).1 ++ (finished.takes n).2.last.toList) pool = _
      rw [finished.takes_last]
      rfl

/-- The tail that the kernel reads is at the last descriptor that was written. -/
def ProvidedBufferRing.Published (pool : ProvidedBufferRing) : Prop :=
  (pool.ring 0).resv = pool.tailLocal.toUInt16

section Drop

variable {pool : ProvidedBufferRing} {a : Arrival}

theorem ProvidedBufferRing.commit_published : pool.commit.Published := by
  show (Function.update pool.ring 0 { pool.ring 0 with resv := _ } 0).resv = _
  rw [Function.update_self]
  rfl

/-- Dropping an arrival on a pool that has its slot. -/
theorem Arrival.drop_eq (h : pool.HasSlot a.bufId) :
    a.drop pool = .ok (pool.recycled a.bufId).commit := by
  unfold Arrival.drop ProvidedBufferRing.recycleAndCommit
  rw [ProvidedBufferRing.recycle_eq h]
  rfl

/-- What an event puts on the producer ring of a pool that has its slot, and publishes. -/
theorem Delivery.dispose_fromEvent (event : Event) (n : Nat)
    (h : ∀ b, event.carried = some b → pool.HasSlot b) :
    ∃ pool', (Delivery.fromEvent event).dispose n pool = .ok pool' ∧
      pool'.entries = pool.entries ∧
      pool'.produced.map IoUringBuf.bid
        = pool.produced.map IoUringBuf.bid ++ event.carried.toList ∧
      (pool.Published ∨ event.carried ≠ none → pool'.Published) := by
  rw [Delivery.dispose_eq, Delivery.arrival_fromEvent]
  cases hc : event.carried with
  | none => exact ⟨pool, rfl, rfl, (List.append_nil _).symm, fun h => h.resolve_right (· rfl)⟩
  | some b =>
      show ∃ pool', (Arrival.drop _ pool >>= fun pool => Except.ok pool) = _ ∧ _
      rw [Arrival.drop_eq (h b hc)]
      refine ⟨_, rfl, rfl, ?_, fun _ => ProvidedBufferRing.commit_published⟩
      show (pool.produced ++ [_]).map IoUringBuf.bid = _
      rw [List.map_append]
      rfl

end Drop

/-! ### Whole sequences -/

/-- What `record` answers to a reaped completion: for one of its own request the resource
that the completion carries, with the end of the request reported for the terminal one, and
for any other the event as it was. -/
def Answered {D ρ : Type} (mine : Bool) (r : Reaped) (resource : D → Option ρ)
    (isDone : D → Bool) (expected : Option ρ) : Except Event D → Prop
  | .ok d => mine = true ∧ resource d = expected ∧ isDone d = r.terminal
  | .error event => mine = false ∧ event = r.event

theorem BufferTicket.record_answered (ticket : BufferTicket) (r : Reaped) :
    Answered (r.isOf ticket.ring ticket.id) r Delivery.arrival Delivery.isDone
      (r.carried.map fun b => ⟨b, r.cqe.result.toUInt32⟩) (ticket.record r.event) := by
  rw [ticket.record_eq, r.belongsTo_event]
  cases hmine : r.isOf ticket.ring ticket.id with
  | false => exact ⟨rfl, rfl⟩
  | true =>
      refine ⟨rfl, ?_, Delivery.isDone_fromEvent r⟩
      rw [Delivery.arrival_fromEvent, r.carried_event, r.result_event]

/-- The sequence as a whole: one answer for each completion, and one descriptor on the
producer ring, published, for each buffer that the request's completions carried. -/
theorem deliverAll_eq (ticket : BufferTicket) (rs : List Reaped) (pool : ProvidedBufferRing)
    (h : ∀ r ∈ rs, r.isOf ticket.ring ticket.id = true → ∀ b, r.carried = some b →
      pool.HasSlot b) :
    ∃ outs pool', deliverAll ticket rs pool = .ok (outs, pool') ∧
      outs = rs.map (fun r => ticket.record r.event) ∧
      pool'.produced.map IoUringBuf.bid = pool.produced.map IoUringBuf.bid ++
        (rs.filter (·.isOf ticket.ring ticket.id)).filterMap Reaped.carried ∧
      (pool.Published ∨ (rs.filter (·.isOf ticket.ring ticket.id)).filterMap Reaped.carried ≠ [] →
        pool'.Published) := by
  induction rs generalizing pool with
  | nil => exact ⟨[], pool, rfl, rfl, (List.append_nil _).symm, fun h => h.resolve_right (· rfl)⟩
  | cons r rs ih =>
      have hrest := fun r' hr' => h r' (List.mem_cons_of_mem r hr')
      unfold deliverAll
      rw [ticket.record_eq, r.belongsTo_event]
      cases hmine : r.isOf ticket.ring ticket.id with
      | false =>
          -- Another request: the event comes back, and the pool is not touched.
          obtain ⟨outs, pool', hrun, houts, hids, htail⟩ := ih pool hrest
          simp only [Bool.false_eq_true, if_false]
          have hsame : (r :: rs).filter (·.isOf ticket.ring ticket.id)
              = rs.filter (·.isOf ticket.ring ticket.id) :=
            List.filter_cons_of_neg (by simp [hmine])
          refine ⟨.error r.event :: outs, pool', ?_, ?_, hsame ▸ hids, hsame ▸ htail⟩
          · show (deliverAll ticket rs pool >>= _) = _
            rw [hrun]
            rfl
          · rw [List.map_cons, houts, ticket.record_eq, r.belongsTo_event, hmine]
            rfl
      | true =>
          have hslot : ∀ b, r.event.carried = some b → pool.HasSlot b := by
            rw [r.carried_event]
            exact h r List.mem_cons_self hmine
          obtain ⟨pool1, hdrop, hentries, hids1, htail1⟩ :=
            Delivery.dispose_fromEvent r.event r.takes hslot
          have hrest1 : ∀ r' ∈ rs, r'.isOf ticket.ring ticket.id = true →
              ∀ b, r'.carried = some b → pool1.HasSlot b := by
            intro r' hr' hm b hb
            have hold := hrest r' hr' hm b hb
            unfold ProvidedBufferRing.HasSlot at hold ⊢
            rw [hentries]
            exact hold
          obtain ⟨outs, pool', hrun, houts, hids, htail⟩ := ih pool1 hrest1
          simp only [if_true]
          refine ⟨.ok (Delivery.fromEvent r.event) :: outs, pool', ?_, ?_, ?_, ?_⟩
          · show ((Delivery.fromEvent r.event).dispose r.takes pool >>= fun pool =>
              deliverAll ticket rs pool >>= _) = _
            rw [hdrop]
            show (deliverAll ticket rs pool1 >>= _) = _
            rw [hrun]
            rfl
          · rw [List.map_cons, houts, ticket.record_eq, r.belongsTo_event, hmine]
            rfl
          · rw [hids, hids1, r.carried_event, List.append_assoc,
              List.filter_cons_of_pos (by simp [hmine])]
            cases hc : r.carried <;> simp [hc]
          · intro hpub
            refine htail (Classical.or_iff_not_imp_right.mpr fun hrest => htail1 ?_)
            rw [List.filter_cons_of_pos (by simp [hmine])] at hpub
            rw [r.carried_event]
            cases hc : r.carried with
            | none => simpa [hc, hrest] using hpub
            | some b => exact Or.inr (Option.some_ne_none b)

/-! ### Accepted connections -/

theorem MultishotAccept.record_answered (ticket : MultishotAccept) (r : Reaped) :
    Answered (r.isOf ticket.ring ticket.id) r Incoming.intoConnection Incoming.isDone
      (if 0 ≤ r.cqe.result then some ⟨⟨r.cqe.result.toInt.toNat⟩⟩ else none)
      (ticket.record r.event) := by
  -- The cast of a non-negative result keeps its value.
  have hclaim : MultishotAccept.claim r.cqe.result
      = if 0 ≤ r.cqe.result then some ⟨⟨r.cqe.result.toInt.toNat⟩⟩ else none := by
    unfold MultishotAccept.claim
    split
    · rename_i hnonneg
      rw [Int32.toNat_toUInt32_of_le hnonneg, Int32.toNatClampNeg]
    · rfl
  unfold MultishotAccept.record
  rw [r.belongsTo_event, ← hclaim]
  cases hmine : r.isOf ticket.ring ticket.id with
  | false => exact ⟨rfl, rfl⟩
  | true =>
      rcases r.event_cases with ⟨ht, he⟩ | ⟨ht, he⟩
      · rw [he]
        exact ⟨rfl, rfl, ht.symm⟩
      · rw [he]
        simp only [if_true]
        cases MultishotAccept.claim r.cqe.result <;> exact ⟨rfl, rfl, ht.symm⟩

theorem DirectAccept.record_answered (ticket : DirectAccept) (r : Reaped) :
    Answered (r.isOf ticket.ring ticket.id) r DirectIncoming.intoSlot DirectIncoming.isDone
      (if 0 ≤ r.cqe.result then some ⟨⟨r.cqe.result.toUInt32⟩, ticket.ring⟩ else none)
      (ticket.record r.event) := by
  -- A result is an `i32`, so it is never above the largest index.
  have hclaim : ticket.claim r.cqe.result
      = if 0 ≤ r.cqe.result then some ⟨⟨r.cqe.result.toUInt32⟩, ticket.ring⟩ else none := by
    unfold DirectAccept.claim SlotTarget.resolve
    by_cases hneg : r.cqe.result < 0
    · have hnot : ¬0 ≤ r.cqe.result := Int32.not_le.mpr hneg
      simp only [hneg, hnot, if_true, if_false, Option.map_none]
    · have hnonneg : 0 ≤ r.cqe.result := Int32.not_lt.mp hneg
      have hmax : ¬r.cqe.result.toUInt32 > SlotIndex.MAX := by
        rw [gt_iff_lt, UInt32.lt_iff_toNat_lt, Int32.toNat_toUInt32_of_le hnonneg]
        have hlt := r.cqe.result.toInt_lt
        show ¬4294967293 < r.cqe.result.toInt.toNat
        omega
      simp only [hneg, hnonneg, if_true, if_false, SlotIndex.new, hmax, Option.map_some]
  unfold DirectAccept.record
  rw [r.belongsTo_event, ← hclaim]
  cases hmine : r.isOf ticket.ring ticket.id with
  | false => exact ⟨rfl, rfl⟩
  | true =>
      rcases r.event_cases with ⟨ht, he⟩ | ⟨ht, he⟩
      · rw [he]
        exact ⟨rfl, rfl, ht.symm⟩
      · rw [he]
        simp only [if_true]
        cases ticket.claim r.cqe.result <;> exact ⟨rfl, rfl, ht.symm⟩

/-- For every sequence of reaped completions and every multishot ticket, each completion of
the ticket's request yields the one resource that it carries and each other event comes
back unchanged. Of a buffer ticket, used on a pool that has the slots which the kernel
names, nothing panics, the producer ring grows by exactly those slots, and the kernel sees
them. -/
theorem multishot_delivers_once (rs : List Reaped) :
    (∀ (ticket : BufferTicket) (pool : ProvidedBufferRing),
      (∀ r ∈ rs, r.isOf ticket.ring ticket.id = true → ∀ b, r.carried = some b →
        pool.HasSlot b) →
      ∃ outs pool', deliverAll ticket rs pool = .ok (outs, pool') ∧
        List.Forall₂ (fun r out => Answered (r.isOf ticket.ring ticket.id) r Delivery.arrival
          Delivery.isDone (r.carried.map fun b => ⟨b, r.cqe.result.toUInt32⟩) out) rs outs ∧
        pool'.produced.map IoUringBuf.bid = pool.produced.map IoUringBuf.bid ++
          (rs.filter (·.isOf ticket.ring ticket.id)).filterMap Reaped.carried ∧
        (pool.Published ∨
          (rs.filter (·.isOf ticket.ring ticket.id)).filterMap Reaped.carried ≠ [] →
          pool'.Published)) ∧
    (∀ ticket : MultishotAccept, ∀ r ∈ rs,
      Answered (r.isOf ticket.ring ticket.id) r Incoming.intoConnection Incoming.isDone
        (if 0 ≤ r.cqe.result then some ⟨⟨r.cqe.result.toInt.toNat⟩⟩ else none)
        (ticket.record r.event)) ∧
    (∀ ticket : DirectAccept, ∀ r ∈ rs,
      Answered (r.isOf ticket.ring ticket.id) r DirectIncoming.intoSlot DirectIncoming.isDone
        (if 0 ≤ r.cqe.result then some ⟨⟨r.cqe.result.toUInt32⟩, ticket.ring⟩ else none)
        (ticket.record r.event)) := by
  refine ⟨fun ticket pool h => ?_, fun ticket r _ => ticket.record_answered r,
    fun ticket r _ => ticket.record_answered r⟩
  obtain ⟨outs, pool', hrun, rfl, hids, htail⟩ := deliverAll_eq ticket rs pool h
  refine ⟨_, pool', hrun, ?_, hids, htail⟩
  exact List.forall₂_map_right_iff.mpr (List.forall₂_same.mpr fun r _ => ticket.record_answered r)

/-- A completion of request `id`, on ring `1`. -/
def reapedFrom (id : UInt64) (result : Int32) (flags : UInt32) (takes : Nat) : Reaped :=
  ⟨⟨1⟩, ⟨id, result, ⟨flags⟩⟩, takes⟩

/-- Two arrivals of request `7`, the second in its terminal completion and taken out with
`take_last`; between them a completion of another request, which carries a buffer too. -/
def foldedLast : List Reaped :=
  [reapedFrom 7 10 0x10003 0, reapedFrom 8 20 0x10003 0, reapedFrom 7 30 0x1 2]

theorem multishot_folded_last :
    ∃ outs pool', deliverAll (.recv ⟨⟨1⟩, ⟨7⟩, 0, ⟨5⟩⟩) foldedLast twoSlots = .ok (outs, pool') ∧
      pool'.produced.map IoUringBuf.bid = [0, 1, 1, 0] ∧ pool'.Published := by
  have hslots : ∀ r ∈ foldedLast, r.carried.all (fun b => decide (twoSlots.HasSlot b)) = true := by
    decide
  obtain ⟨outs, pool', hrun, -, hids, htail⟩ := (multishot_delivers_once foldedLast).1
    (.recv ⟨⟨1⟩, ⟨7⟩, 0, ⟨5⟩⟩) twoSlots fun r hr _ b hb => by
      have hslot := hslots r hr
      rw [hb] at hslot
      exact of_decide_eq_true hslot
  exact ⟨outs, pool', hrun, hids.trans (by decide), htail (Or.inr (by decide))⟩

/-! ### The pool is not checked -/

/-- The slot of an event that `record` was given with pool `j` is a slot of the pool that
the kernel has under the ticket's group: what the arrival shows lies in that pool, and
disposing of it neither panics nor puts an id on another pool's producer ring. -/
def RoutedHome {ι : Type} [DecidableEq ι] (pools : ι → ProvidedBufferRing)
    (groups : UInt16 → Option ι) (ticket : BufferTicket) (event : Event) (j : ι) (n : Nat) :
    Prop :=
  ∀ d a, ticket.record event = .ok d → d.arrival = some a →
    ∃ i, groups ticket.bgid = some i ∧ (a.exposed (pools j)).Inside (pools i).region ∧
      ∃ pool', d.dispose n (pools j) = .ok pool' ∧
        (∀ k, k ≠ i → (Function.update pools j pool' k).produced = (pools k).produced) ∧
        (Function.update pools j pool' i).produced.map IoUringBuf.bid
          = (pools i).produced.map IoUringBuf.bid ++ [a.bufId]

/-- A slot that goes home was recorded on the right pool: the producer ring of any other
pool than the one passed to `record` stays as it is. -/
theorem RoutedHome.pool_eq {ι : Type} [DecidableEq ι] {pools : ι → ProvidedBufferRing}
    {groups : UInt16 → Option ι} {ticket : BufferTicket} {event : Event} {j : ι} {n : Nat}
    {b : UInt16} (h : RoutedHome pools groups ticket event j n)
    (hown : event.belongsTo ticket.ring ticket.id = true) (hb : event.carried = some b) :
    groups ticket.bgid = some j := by
  obtain ⟨i, hi, -, pool', -, -, hid⟩ := h (Delivery.fromEvent event)
    ⟨b, event.result.toUInt32⟩ (by rw [ticket.record_eq, hown]; rfl)
    (by rw [Delivery.arrival_fromEvent, hb]; rfl)
  by_cases hne : i = j
  · rw [hi, hne]
  · rw [Function.update_of_ne hne] at hid
    exact absurd hid.symm (by simp)

/-- A slot lies in the region of its pool. -/
theorem Arrival.exposed_inside {pool : ProvidedBufferRing} {a : Arrival} :
    (a.exposed pool).Inside pool.region := by
  unfold Arrival.exposed
  split
  · exact Or.inl rfl
  · rename_i hfits
    rw [not_or, ge_iff_le, gt_iff_lt, UInt32.not_le, UInt32.not_lt] at hfits
    obtain ⟨hslot, hlen⟩ := hfits
    rw [UInt32.lt_iff_toNat_lt, UInt16.toNat_toUInt32] at hslot
    rw [UInt32.le_iff_toNat_le] at hlen
    -- The slot after this one still starts inside.
    have hnext : (a.bufId.toNat + 1) * pool.bufSize.toNat
        ≤ pool.entries.toNat * pool.bufSize.toNat := Nat.mul_le_mul_right _ hslot
    rw [Nat.add_mul, Nat.one_mul] at hnext
    refine Or.inr ⟨Nat.le_add_right _ _, ?_⟩
    show pool.bufsAddr + a.bufId.toNat * pool.bufSize.toNat + a.len.toNat
      ≤ pool.bufsAddr + pool.entries.toNat * pool.bufSize.toNat
    omega

/-- Whatever pool a caller passes to `record`: the slot of an event of the ticket's request
goes home exactly when the event carries none, or when the pool is the one that the kernel
has under the ticket's group. -/
theorem record_routed_iff {ι : Type} [DecidableEq ι] (pools : ι → ProvidedBufferRing)
    (groups : UInt16 → Option ι) (ticket : BufferTicket) (event : Event) (j : ι) (n : Nat)
    (hown : event.belongsTo ticket.ring ticket.id = true)
    (hkernel : ∀ b, event.carried = some b →
      ∃ i, groups ticket.bgid = some i ∧ (pools i).HasSlot b) :
    RoutedHome pools groups ticket event j n ↔
      event.carried = none ∨ groups ticket.bgid = some j := by
  constructor
  · intro hhome
    cases hc : event.carried with
    | none => exact Or.inl rfl
    | some b => exact Or.inr (hhome.pool_eq hown hc)
  · intro hcase d a hrun harr
    rw [ticket.record_eq, hown] at hrun
    cases hrun
    rw [Delivery.arrival_fromEvent] at harr
    obtain ⟨b, hb, rfl⟩ := Option.map_eq_some_iff.mp harr
    rcases hcase with hnone | hj
    · rw [hnone] at hb
      cases hb
    · -- The kernel took the slot from the pool that was passed.
      have hslot : ∀ b, event.carried = some b → (pools j).HasSlot b := by
        intro b' hb'
        obtain ⟨i, hi, hslot⟩ := hkernel b' hb'
        rw [hj] at hi
        cases hi
        exact hslot
      obtain ⟨pool', hdrop, -, hids, -⟩ := Delivery.dispose_fromEvent event n hslot
      refine ⟨j, hj, Arrival.exposed_inside, pool', hdrop, ?_, ?_⟩
      · intro k hk
        rw [Function.update_of_ne hk]
      · rw [Function.update_self, hids, hb]
        rfl

/-- The kernel's table: the small pool is group `0`, the large one group `1`. -/
def twoGroups : UInt16 → Option Bool
  | 0 => some false
  | 1 => some true
  | _ => none

/-- A receive that draws from the large pool. -/
def largeRecv : BufferTicket := .recv ⟨⟨1⟩, ⟨7⟩, 1, ⟨5⟩⟩

theorem record_routed_home :
    RoutedHome twoPools twoGroups largeRecv (reapedFrom 7 10 0x30003 0).event true 0 := by
  have hcarried : (reapedFrom 7 10 0x30003 0).event.carried = some 3 := by decide
  exact (record_routed_iff twoPools twoGroups largeRecv (reapedFrom 7 10 0x30003 0).event true 0
    (by decide) fun b hb => ⟨true, rfl, by cases hcarried.symm.trans hb; decide⟩).mpr (Or.inr rfl)

/-- Two completions of a receive on the large pool, recorded on the small one. The first
puts slot `1` on the producer ring of the small pool and shows that pool's bytes, the second
panics. -/
theorem record_misrouted :
    (¬RoutedHome twoPools twoGroups largeRecv (reapedFrom 7 10 0x10003 0).event false 0 ∧
      ((Delivery.fromEvent (reapedFrom 7 10 0x10003 0).event).dispose 0 twoSlots).toOption.map
        (fun pool => pool.produced.map IoUringBuf.bid) = some [0, 1, 1] ∧
      Arrival.exposed ⟨1, 10⟩ twoSlots = ⟨8256, 10⟩) ∧
    ¬RoutedHome twoPools twoGroups largeRecv (reapedFrom 7 10 0x30003 0).event false 0 ∧
      ((Delivery.fromEvent (reapedFrom 7 10 0x30003 0).event).dispose 0 twoSlots).isOk
        = false := by
  refine ⟨⟨fun h => ?_, by decide, by decide⟩, fun h => ?_, by decide⟩
  · exact absurd (h.pool_eq (b := 1) (by decide) (by decide)) (by decide)
  · exact absurd (h.pool_eq (b := 3) (by decide) (by decide)) (by decide)

end Ququmatz
