import Ququmatz.Lib.Spsc
import Ququmatz.Ring.Kernel

/-!
# `Ququmatz.Proofs.Ring.Queues`: the two queues of a ring as ring queues

The submission queue is a single-producer single-consumer queue (`Lib.Spsc`) whose
producer is the crate and whose consumer is the kernel, which publishes its head at once.
The completion queue is one with the roles exchanged: the kernel publishes its tail at
once, the crate publishes its head when it likes. `SqAt` and `CqAt` tie the memory of a
`World` to these queues, and `RingAt` collects what is known of a world in front of a call
of the owner: the two queues and the values that only the owner changes.

One step of the kernel is `World.env_cases`; `RingAt.stable` follows from it, so `RingAt`
holds around every access of a program. The access lemmas at the end say what each access
of the crate does to it.

Some facts need no handle at all: `World.Authentic` says where the posted CQEs come from,
and `run_authentic` that every program keeps it.
-/

set_option autoImplicit false

namespace Ququmatz

open Lib

/-- The submission queue of `w`, with the indices counted from position `b` and the
published tail at `p` entries. -/
structure SqAt (b p : Nat) (w : World) : Prop where
  queue : Spsc w.params.sq b w.sqes w.written w.consumed p w.consumed.length
  head : w.sqHead = UInt32.ofNat (b + w.consumed.length)
  tail : w.sqTail = UInt32.ofNat (b + p)
  array : w.hasSqArray = true → ∀ i < w.params.sq.size, w.sqArray i = UInt32.ofNat i

/-- The completion queue of `w`, with the indices counted from position `b` and the
published head at `q` entries. -/
structure CqAt (b q : Nat) (w : World) : Prop where
  queue : Spsc w.params.cq b w.cqes (w.posted.map Prod.snd) w.read w.posted.length q
  head : w.cqHead = UInt32.ofNat (b + q)
  tail : w.cqTail = UInt32.ofNat (b + w.posted.length)

namespace SqAt

variable {b p : Nat} {w w' : World}

/-- The kernel reads the slot of the next position, through the array or directly. -/
theorem sqIndex_eq (h : SqAt b p w) :
    w.sqIndex = (b + w.consumed.length) % w.params.sq.size := by
  have hslot : (w.sqHead &&& w.params.sq.mask).toNat
      = (b + w.consumed.length) % w.params.sq.size := by
    rw [h.head, and_mask_toNat]
  have hlt : (b + w.consumed.length) % w.params.sq.size < w.params.sq.size :=
    Nat.mod_lt _ w.params.sq.size_pos
  unfold World.sqIndex
  simp only [hslot]
  split
  · rename_i harr
    -- The array is the identity below the size.
    rw [h.array harr _ hlt, UInt32.toNat_ofNat']
    exact Nat.mod_eq_of_lt (Nat.lt_trans hlt w.params.sq.size_lt)
  · rfl

/-- The kernel sees no published entry exactly when it has read all of them. -/
theorem head_eq_tail_iff (h : SqAt b p w) : w.sqHead = w.sqTail ↔ w.consumed.length = p := by
  rw [h.head, h.tail]
  exact h.queue.empty_iff

/-- What the kernel's read of one entry does. -/
theorem consumeOne_eq (h : SqAt b p w) (hc : w.consumeOne = some w') :
    ∃ sqe, w.written[w.consumed.length]? = some sqe ∧ w.consumed.length < p ∧
      w' = { w with sqHead := w.sqHead + 1, consumed := w.consumed ++ [sqe] } := by
  unfold World.consumeOne at hc
  split at hc
  · exact absurd hc (by simp)
  · rename_i hne
    have hlt : w.consumed.length < p := by
      have hle := h.queue.got_le
      have := mt h.head_eq_tail_iff.mpr hne
      omega
    refine ⟨_, h.queue.next_eq hlt, hlt, ?_⟩
    rw [h.sqIndex_eq] at hc
    exact (Option.some.inj hc).symm

theorem consumeOne (h : SqAt b p w) (hc : w.consumeOne = some w') : SqAt b p w' := by
  obtain ⟨sqe, hsqe, hlt, rfl⟩ := h.consumeOne_eq hc
  have hmem : sqe = w.sqes ((b + w.consumed.length) % w.params.sq.size) := by
    have := h.queue.next_eq hlt
    rw [hsqe] at this
    exact Option.some.inj this
  -- The kernel frees the slot in the step in which it reads it.
  have hread := (h.queue.read hlt).publishHead
  rw [← hmem] at hread
  refine ⟨hread, ?_, h.tail, h.array⟩
  show w.sqHead + 1 = UInt32.ofNat (b + (w.consumed ++ [sqe]).length)
  rw [h.head, List.length_append, List.length_singleton, ← Nat.add_assoc, ofNat_succ]

/-- The crate stores one SQE into a slot that the kernel has read. -/
theorem writeSqe (h : SqAt b p w)
    (hroom : w.written.length < w.consumed.length + w.params.sq.size) (sqe : Sqe) :
    SqAt b p { w with
      sqes := Function.update w.sqes ((b + w.written.length) % w.params.sq.size) sqe
      written := w.written ++ [sqe] } :=
  ⟨h.queue.write hroom sqe, h.head, h.tail, h.array⟩

/-- The kernel comes to see a tail that covers `t` entries. -/
theorem setTail (h : SqAt b p w) {t : Nat} (hp : p ≤ t) (ht : t ≤ w.written.length) :
    SqAt b t { w with sqTail := UInt32.ofNat (b + t) } :=
  ⟨h.queue.publishTo hp ht, h.head, rfl, h.array⟩

end SqAt

namespace CqAt

variable {b q : Nat} {w w' : World}

/-- What posting a CQE does. -/
theorem post_eq {o : Origin} {cqe : Cqe} (hp : w.post o cqe = some w') :
    w.cqTail - w.cqHead < w.params.cq.val ∧ w.mayPost o cqe = true ∧
      w' = { w with
        cqes := Function.update w.cqes (w.cqTail &&& w.params.cq.mask).toNat cqe
        cqTail := w.cqTail + 1
        posted := w.posted ++ [(o, cqe)] } := by
  unfold World.post at hp
  split at hp
  · rename_i hcond
    exact ⟨hcond.1, hcond.2, (Option.some.inj hp).symm⟩
  · exact absurd hp (by simp)

theorem post (h : CqAt b q w) {o : Origin} {cqe : Cqe} (hp : w.post o cqe = some w') :
    CqAt b q w' := by
  obtain ⟨hfree, -, rfl⟩ := post_eq hp
  have hlen : (w.posted.map Prod.snd).length = w.posted.length := List.length_map _
  have hroom : (w.posted.map Prod.snd).length < q + w.params.cq.size := by
    rw [h.tail, h.head, ← hlen, h.queue.free_iff] at hfree
    exact hfree
  -- The kernel publishes the tail in the step in which it writes the slot.
  have hwrite := (h.queue.write hroom cqe).publishTail
  have hslot : (w.cqTail &&& w.params.cq.mask).toNat
      = (b + (w.posted.map Prod.snd).length) % w.params.cq.size := by
    rw [h.tail, and_mask_toNat, hlen]
  refine ⟨?_, h.head, ?_⟩
  · show Spsc w.params.cq b
      (Function.update w.cqes (w.cqTail &&& w.params.cq.mask).toNat cqe)
      ((w.posted ++ [(o, cqe)]).map Prod.snd) w.read (w.posted ++ [(o, cqe)]).length q
    rw [hslot, List.map_append, List.length_append, List.length_singleton]
    rw [List.length_append, List.length_singleton] at hwrite
    rw [hlen] at hwrite ⊢
    exact hwrite
  · show w.cqTail + 1 = UInt32.ofNat (b + (w.posted ++ [(o, cqe)]).length)
    rw [h.tail, List.length_append, List.length_singleton, ← Nat.add_assoc, ofNat_succ]

end CqAt

/-- One step of the kernel. -/
theorem World.env_cases {k : KStep} {w w' : World} (h : w.env k = some w') :
    (k = .consume ∧ w.sqpoll = true ∧ w.consumeOne = some w') ∨
    (∃ o cqe, k = .post o cqe ∧ w.post o cqe = some w') ∨
    (∃ v, k = .setSqFlags v ∧ w' = { w with sqFlags := v }) := by
  cases k with
  | consume =>
      simp only [World.env] at h
      split at h
      · rename_i hs
        exact Or.inl ⟨rfl, hs, h⟩
      · exact absurd h (by simp)
  | post o cqe => exact Or.inr (Or.inl ⟨o, cqe, rfl, h⟩)
  | setSqFlags v => exact Or.inr (Or.inr ⟨v, rfl, (Option.some.inj h).symm⟩)

/-- What the owner knows of a world: the values that only its own accesses change. -/
structure View where
  params : RingParams
  /-- The positions at which the indices of the two queues started. -/
  sqBase : Nat
  cqBase : Nat
  written : List Sqe
  read : List Cqe
  /-- The number of entries that the published SQ tail covers. -/
  sqPub : Nat
  /-- The number of entries that the published CQ head covers. -/
  cqPub : Nat
  resources : RingResources
  /-- The SQ head. It is known only without an SQPOLL thread. -/
  head : UInt32
  /-- No `submit_sqpoll` was called yet. -/
  synced : Bool

/-- The view `v` holds of `w`. -/
structure RingAt (v : View) (w : World) : Prop where
  params : w.params = v.params
  written : w.written = v.written
  read : w.read = v.read
  resources : w.resources = v.resources
  head : w.sqpoll = false → w.sqHead = v.head
  sq : SqAt v.sqBase v.sqPub w
  cq : CqAt v.cqBase v.cqPub w

namespace RingAt

variable {v : View} {w w' : World}

/-- A step of the kernel changes nothing that the owner knows. -/
theorem env (h : RingAt v w) {k : KStep} (hk : w.env k = some w') : RingAt v w' := by
  have hsq := h.sq
  have hcq := h.cq
  rcases World.env_cases hk with ⟨-, hpoll, hc⟩ | ⟨o, cqe, -, hp⟩ | ⟨x, -, rfl⟩
  · have hsq' := hsq.consumeOne hc
    obtain ⟨sqe, -, -, rfl⟩ := hsq.consumeOne_eq hc
    refine ⟨h.params, h.written, h.read, h.resources, ?_, hsq',
      ⟨hcq.queue, hcq.head, hcq.tail⟩⟩
    intro hno
    -- Only the thread reads outside a call, so the head is not known here.
    change w.sqpoll = false at hno
    rw [hpoll] at hno
    exact absurd hno (by simp)
  · have hcq' := hcq.post hp
    obtain ⟨-, -, rfl⟩ := CqAt.post_eq hp
    exact ⟨h.params, h.written, h.read, h.resources, h.head,
      ⟨hsq.queue, hsq.head, hsq.tail, hsq.array⟩, hcq'⟩
  · exact ⟨h.params, h.written, h.read, h.resources, h.head,
      ⟨hsq.queue, hsq.head, hsq.tail, hsq.array⟩, ⟨hcq.queue, hcq.head, hcq.tail⟩⟩

theorem stable (v : View) : ringMachine.Stable (RingAt v) :=
  fun _ _ _ h hk => RingAt.env h hk

/-- The kernel's steps inside or between calls keep the view. -/
theorem steps (h : RingAt v w) {ks : List KStep} (hk : envSteps World.env ks w = some w') :
    RingAt v w' :=
  envSteps_keeps (fun _ _ _ h hk => RingAt.env h hk) ks w w' h hk

/-- The kernel reads `n` entries inside a call, on a ring without an SQPOLL thread. -/
theorem consumeN (h : RingAt v w) (hpoll : w.sqpoll = false) {n : Nat}
    (hc : w.consumeN n = some w') : RingAt { v with head := v.head + UInt32.ofNat n } w' := by
  induction n generalizing v w with
  | zero =>
      cases hc
      exact { h with head := fun _ => by rw [h.head hpoll]; exact (UInt32.add_zero _).symm }
  | succ n ih =>
      obtain ⟨w1, h1, h2⟩ := Option.bind_eq_some_iff.mp hc
      have hsq1 := h.sq.consumeOne h1
      obtain ⟨sqe, -, -, rfl⟩ := h.sq.consumeOne_eq h1
      -- The head is known after one entry, and the rest starts from there.
      have h1' : RingAt { v with head := v.head + 1 }
          { w with sqHead := w.sqHead + 1, consumed := w.consumed ++ [sqe] } :=
        ⟨h.params, h.written, h.read, h.resources,
          fun hno => by rw [← h.head hno], hsq1, ⟨h.cq.queue, h.cq.head, h.cq.tail⟩⟩
      have h2' := ih h1' hpoll h2
      rw [show v.head + UInt32.ofNat (n + 1) = v.head + 1 + UInt32.ofNat n by
        rw [ofNat_succ, UInt32.add_comm (UInt32.ofNat n), UInt32.add_assoc]]
      exact h2'

/-- On a ring with an SQPOLL thread nothing is known of the SQ head. -/
theorem of_sqpoll (h : RingAt v w) (hpoll : w.sqpoll = true) (x : UInt32) :
    RingAt { v with head := x } w :=
  { h with head := fun hno => by rw [hpoll] at hno; exact absurd hno (by simp) }

theorem takeEntries (h : RingAt v w) {n : Nat} (ht : w.takeEntries n = some w') :
    RingAt { v with head := v.head + UInt32.ofNat n } w' := by
  unfold World.takeEntries at ht
  by_cases hpoll : w.sqpoll = true
  · rw [if_pos hpoll] at ht
    cases ht
    exact h.of_sqpoll hpoll _
  · rw [if_neg hpoll] at ht
    exact h.consumeN (Bool.eq_false_iff.mpr hpoll) ht

end RingAt

/-! ### The accesses of the crate -/

/-- How an `io_uring_enter` can end. -/
theorem World.enter_cases {w w' : World} {toSubmit minComplete : UInt32} {flags : EnterFlags}
    {r : EnterReply} {x : Except Errno Nat}
    (h : w.enter toSubmit minComplete flags r = some (x, w')) :
    (∃ e, r.outcome = .err e ∧ x = .error e ∧ envSteps World.env r.during w = some w') ∨
    (∃ n w1, (r.outcome = .ok n ∧ w'.waitSatisfied minComplete flags = true ∨
        r.outcome = .early n) ∧ x = .ok n ∧ n ≤ toSubmit.toNat ∧
      w.takeEntries n = some w1 ∧ envSteps World.env r.during w1 = some w') := by
  unfold World.enter at h
  split at h
  · rename_i e he
    -- A failed call has read no entry.
    obtain ⟨w1, h1, h2⟩ := Option.map_eq_some_iff.mp h
    cases h2
    exact Or.inl ⟨e, he, rfl, h1⟩
  · rename_i n hn
    by_cases hle : n ≤ toSubmit.toNat
    · rw [if_pos hle] at h
      obtain ⟨w1, h1, h⟩ := Option.bind_eq_some_iff.mp h
      obtain ⟨w2, h2, h⟩ := Option.bind_eq_some_iff.mp h
      by_cases hw : w2.waitSatisfied minComplete flags = true
      · rw [if_pos hw] at h
        cases h
        exact Or.inr ⟨n, w1, Or.inl ⟨hn, hw⟩, rfl, hle, h1, h2⟩
      · rw [if_neg hw] at h
        exact absurd h (by simp)
    · rw [if_neg hle] at h
      exact absurd h (by simp)
  · rename_i n hn
    by_cases hle : n ≤ toSubmit.toNat
    · rw [if_pos hle] at h
      obtain ⟨w1, h1, h⟩ := Option.bind_eq_some_iff.mp h
      obtain ⟨w2, h2, h⟩ := Option.map_eq_some_iff.mp h
      cases h
      exact Or.inr ⟨n, w1, Or.inr hn, rfl, hle, h1, h2⟩
    · rw [if_neg hle] at h
      exact absurd h (by simp)

namespace World

variable {w w' : World} {r : Option EnterReply} {x : UInt32} {u : Unit}

theorem memory_eq_some {α : Type} {x : α} {y : α × World} :
    memory y r = some (x, w') ↔ r = none ∧ x = y.1 ∧ w' = y.2 := by
  obtain ⟨y, w1⟩ := y
  cases r with
  | none => simp [memory, eq_comm]
  | some r => simp [memory]

theorem access_loadSqHead :
    access .loadSqHead r w = some (x, w') ↔ r = none ∧ x = w.sqHead ∧ w' = w :=
  memory_eq_some

theorem access_loadCqTail :
    access .loadCqTail r w = some (x, w') ↔ r = none ∧ x = w.cqTail ∧ w' = w :=
  memory_eq_some

theorem access_loadSqFlags :
    access .loadSqFlags r w = some (x, w') ↔ r = none ∧ x = w.sqFlags ∧ w' = w :=
  memory_eq_some

theorem access_storeSqTail {v : UInt32} :
    access (.storeSqTail v) r w = some (u, w') ↔
      r = none ∧ u = () ∧ w' = { w with sqTail := v } :=
  memory_eq_some

theorem access_storeCqHead {v : UInt32} :
    access (.storeCqHead v) r w = some (u, w') ↔
      r = none ∧ u = () ∧ w' = { w with cqHead := v } :=
  memory_eq_some

theorem access_writeSqe {idx : UInt32} {sqe : Sqe} :
    access (.writeSqe idx sqe) r w = some (u, w') ↔
      r = none ∧ u = () ∧ w' = { w with
        sqes := Function.update w.sqes idx.toNat sqe
        written := w.written ++ [sqe] } :=
  memory_eq_some

theorem access_readCqe {idx : UInt32} {cqe : Cqe} :
    access (.readCqe idx) r w = some (cqe, w') ↔
      r = none ∧ cqe = w.cqes idx.toNat ∧
        w' = { w with read := w.read ++ [w.cqes idx.toNat] } :=
  memory_eq_some

theorem access_retain :
    access .retain r w = some (u, w') ↔
      r = none ∧ u = () ∧ w' = { w with resources := w.resources.retain } :=
  memory_eq_some

theorem access_release :
    access .release r w = some (u, w') ↔
      r = none ∧ u = () ∧ w' = { w with
        resources := w.resources.released
        syscalls := w.syscalls ++ w.resources.cleanup } :=
  memory_eq_some

theorem access_enter {fd : RawFd} {toSubmit minComplete : UInt32} {flags : EnterFlags}
    {y : Except Errno Nat} :
    access (.enter fd toSubmit minComplete flags) r w = some (y, w') ↔
      ∃ e, r = some e ∧ w.enter toSubmit minComplete flags e = some (y, w') :=
  Option.bind_eq_some_iff

end World

namespace RingAt

variable {v : View} {w w' : World}

/-- The crate publishes a tail that covers everything it wrote. -/
theorem storeSqTail (h : RingAt v w) :
    RingAt { v with sqPub := v.written.length }
      { w with sqTail := UInt32.ofNat (v.sqBase + v.written.length) } := by
  have hle := h.sq.queue.pub_le
  rw [h.written] at hle
  exact ⟨h.params, h.written, h.read, h.resources, h.head,
    h.sq.setTail hle (by rw [h.written]), ⟨h.cq.queue, h.cq.head, h.cq.tail⟩⟩

/-- The crate publishes a head that covers everything it read. -/
theorem storeCqHead (h : RingAt v w) :
    RingAt { v with cqPub := v.read.length }
      { w with cqHead := UInt32.ofNat (v.cqBase + v.read.length) } := by
  have hq := h.cq.queue.publishHead
  rw [h.read] at hq
  exact ⟨h.params, h.written, h.read, h.resources, h.head,
    ⟨h.sq.queue, h.sq.head, h.sq.tail, h.sq.array⟩,
    ⟨by rw [← h.read] at hq ⊢; exact hq, rfl, h.cq.tail⟩⟩

/-- The crate stores one SQE into a slot that the kernel has read. -/
theorem writeSqe (h : RingAt v w)
    (hroom : v.written.length < w.consumed.length + v.params.sq.size) (sqe : Sqe) :
    RingAt { v with written := v.written ++ [sqe] }
      { w with
        sqes := Function.update w.sqes ((v.sqBase + v.written.length) % v.params.sq.size) sqe
        written := w.written ++ [sqe] } := by
  have hsq := h.sq.writeSqe (by rw [h.written, h.params]; exact hroom) sqe
  refine ⟨h.params, by rw [← h.written], h.read, h.resources, h.head, ?_,
    ⟨h.cq.queue, h.cq.head, h.cq.tail⟩⟩
  rw [← h.written, ← h.params]
  exact hsq

/-- The crate reads the next CQE, if one is posted. -/
theorem readCqe (h : RingAt v w) (hlt : v.read.length < w.posted.length) :
    RingAt { v with
        read := v.read ++ [w.cqes ((v.cqBase + v.read.length) % v.params.cq.size)] }
      { w with
        read := w.read ++ [w.cqes ((v.cqBase + v.read.length) % v.params.cq.size)] } := by
  have hq := h.cq.queue.read (by rw [h.read]; exact hlt)
  refine ⟨h.params, h.written, by rw [← h.read], h.resources, h.head,
    ⟨h.sq.queue, h.sq.head, h.sq.tail, h.sq.array⟩, ⟨?_, h.cq.head, h.cq.tail⟩⟩
  rw [← h.read, ← h.params]
  exact hq

theorem setResources (h : RingAt v w) (res : RingResources) (calls : List Syscall) :
    RingAt { v with resources := res } { w with resources := res, syscalls := calls } :=
  ⟨h.params, h.written, h.read, rfl, h.head,
    ⟨h.sq.queue, h.sq.head, h.sq.tail, h.sq.array⟩, ⟨h.cq.queue, h.cq.head, h.cq.tail⟩⟩

variable {toSubmit minComplete : UInt32} {flags : EnterFlags} {r : EnterReply}

/-- An `io_uring_enter` that returns `n` has advanced the head by `n`, which is at most what
it was asked for. -/
theorem enter_ok (h : RingAt v w) {n : Nat}
    (he : w.enter toSubmit minComplete flags r = some (.ok n, w')) :
    n ≤ toSubmit.toNat ∧ RingAt { v with head := v.head + UInt32.ofNat n } w' := by
  rcases World.enter_cases he with ⟨e, -, hx, -⟩ | ⟨m, w1, -, hx, hle, ht, hs⟩
  · exact absurd hx (by simp)
  · cases hx
    exact ⟨hle, (h.takeEntries ht).steps hs⟩

/-- An `io_uring_enter` that fails has read no entry. -/
theorem enter_error (h : RingAt v w) {e : Errno}
    (he : w.enter toSubmit minComplete flags r = some (.error e, w')) : RingAt v w' := by
  rcases World.enter_cases he with ⟨e', -, -, hs⟩ | ⟨m, w1, -, hx, -⟩
  · exact h.steps hs
  · exact absurd hx (by simp)

end RingAt

end Ququmatz
