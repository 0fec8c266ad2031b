import Ququmatz.Owned.Custody
import Ququmatz.Owned.Kinds

/-!
# `Ququmatz.Owned.Heap`: what is in the memory of the requests

`Heap` is a `Custody` with the bytes. The program writes to what it has in hand, and to the memory
of a request that is not queued, which is how parameters are staged. The kernel writes to the ranges
that the SQE of a request in flight names. Nothing else writes.

`RequestKind.Reads` is how the result of a request comes out of its memory: `stands` says that the
record lies there, for a ticket and a receipt, and `read` is what the completion makes of it. Its
instances are the four requests of `Ququmatz.Owned.Destinations`.
-/

set_option autoImplicit false

namespace Ququmatz

open Lib

/-! ### Memory that is written -/

section Heap

variable {ι : Type} (K : ι → RequestKind)

/-- Who has the memory, and what is in it. -/
structure Heap where
  custody : Custody K
  bytes : Nat → UInt8

/-- A step of the program or of the kernel. -/
inductive HeapAction
  | custody (a : CustodyAction K)
  /-- The program writes to memory that it has. -/
  | write (addr : Nat) (data : List UInt8)
  /-- The kernel writes for the request at the place. -/
  | kernel (slot addr : Nat) (data : List UInt8)

variable {K}

/-- The kernel writes for the request at the place. -/
def HeapAction.writesFor (slot : Nat) : HeapAction K → Bool
  | .kernel slot' _ _ => slot' == slot
  | _ => false

namespace Heap

/-- The effect of a step. -/
def step (s : Heap K) : HeapAction K → Option (Heap K)
  | .custody a => (s.custody.step a).map fun custody => { s with custody := custody }
  | .write addr data =>
      if ∃ x ∈ s.custody.hand ++ s.custody.prepared, Range.Inside ⟨addr, data.length⟩ x then
        some { s with bytes := Bytes.store s.bytes addr data }
      else none
  | .kernel slot addr data =>
      if ∃ t ∈ s.custody.taken, t.slot = slot ∧
          s.custody.own.sys.world.finished t.slot = false ∧
          ∃ x ∈ t.named, Range.Inside ⟨addr, data.length⟩ x then
        some { s with bytes := Bytes.store s.bytes addr data }
      else none

/-- A run. -/
def run : List (HeapAction K) → Heap K → Option (Heap K)
  | [], s => some s
  | a :: as, s => (s.step a).bind (run as)

/-- A step that is careful with the requests. -/
def careful (s : Heap K) : HeapAction K → Bool
  | .custody a => s.custody.careful a
  | _ => true

/-- Every step of the run is careful in the state it starts from. -/
def carefulRun : List (HeapAction K) → Heap K → Bool
  | [], _ => true
  | a :: as, s =>
      s.careful a &&
        match s.step a with
        | none => false
        | some s' => carefulRun as s'

end Heap

end Heap

/-! ### Results in memory -/

/-- The bytes of the ranges are the same. -/
def SameOn (ranges : List Range) (bytes bytes' : Nat → UInt8) : Prop :=
  ∀ x ∈ ranges, ∀ a, x.Has a → bytes' a = bytes a

/-- How a result comes out of the memory of a request. -/
structure RequestKind.Reads (K : RequestKind) (V : Type) where
  /-- The record lies in the memory of the ticket, and the receipt says so. -/
  stands : K.Pending → Receipt → (Nat → UInt8) → V → Prop
  read : K.Done → (Nat → UInt8) → Option V
  stands_same : ∀ q ring id receipt bytes bytes' v, SameOn (K.holds q) bytes bytes' →
    stands (K.intoPending q ring id).2 receipt bytes v →
    stands (K.intoPending q ring id).2 receipt bytes' v
  read_redeem : ∀ q ring id receipt d bytes v,
    K.redeem (K.intoPending q ring id).2 receipt = .ok d →
    stands (K.intoPending q ring id).2 receipt bytes v → read d bytes = some v

section Reads

variable {w : Width}

/-- A record at the start of storage does not depend on other memory. -/
theorem Lib.Layout.Stands.same {V : Type} {L : Layout V} {store : Storage w}
    {bytes bytes' : Nat → UInt8} {ranges : List Range} {off : Nat} {v : V}
    (h : L.Stands bytes (store.addr.toNat + off) v) (hsame : SameOn ranges bytes bytes')
    (hmem : store.memory ∈ ranges) (hroom : off + L.size ≤ store.len) :
    L.Stands bytes' (store.addr.toNat + off) v := by
  refine h.congr fun a hle hlt => hsame _ hmem a ⟨?_, ?_⟩
  · exact Nat.le_trans (Nat.le_add_right _ _) hle
  · show a < store.addr.toNat + store.len
    omega

/-- The completion of a redeemed ticket that keeps its request. -/
theorem PendingOf.of_redeemAs {K D : Type} {done : K → RequestId → Int32 → D}
    {self : PendingOf K} {receipt : Receipt} {d : D} (h : self.redeemAs done receipt = .ok d) :
    d = done self.kept self.id receipt.result := by
  unfold PendingOf.redeemAs at h
  split at h
  · cases h
  · exact (Except.ok.inj h).symm

variable [Native]

theorem PendingStatx.redeem_ok {t : PendingStatx w} {receipt : Receipt} {d : StatxCompleted w}
    (h : t.redeem receipt = .ok d) :
    d = { path := t.kept.path, dest := t.kept.dest.store, id := t.id, result := receipt.result,
          destAddr := t.kept.dest.addr } :=
  PendingOf.of_redeemAs h

theorem PendingWaitId.redeem_ok {t : PendingWaitId w} {receipt : Receipt} {d : WaitIdCompleted w}
    (h : t.redeem receipt = .ok d) :
    d = { dest := t.kept.dest.map Destination.store, id := t.id, result := receipt.result,
          destAddr := t.kept.destAddr } :=
  PendingOf.of_redeemAs h

theorem PendingEpollWait.redeem_ok {packed : Bool} {t : PendingEpollWait w packed}
    {receipt : Receipt} {d : EpollWaitCompleted w} (h : t.redeem receipt = .ok d) :
    d = { store := t.kept.store.store, id := t.id, result := receipt.result,
          addr := t.kept.store.addr } :=
  PendingOf.of_redeemAs h

omit [Native] in
theorem PendingPipe.redeem_ok {t : PendingPipe w} {receipt : Receipt} {d : PipeCreated w}
    (h : t.redeem receipt = .ok d) :
    d = { dest := t.kept.dest.store, id := t.id, result := receipt.result,
          addr := t.kept.dest.addr } :=
  PendingOf.of_redeemAs h

/-- The `Statx` of a `statx` that succeeded. -/
def PreparedStatx.reads (w : Width) : (PreparedStatx.requestKind w).Reads Statx where
  stands := fun (t : PendingStatx w) receipt bytes v =>
    ¬ receipt.result < 0 ∧ Statx.layout.Stands bytes (t.kept.dest.addr.toNat + 0) v
  read := fun (d : StatxCompleted w) bytes => d.stat (Memory.of bytes)
  stands_same := fun q _ _ _ bytes bytes' v hsame h => by
    refine ⟨h.1, ?_⟩
    have hstands : Statx.layout.Stands bytes (q.dest.addr.toNat + 0) v := h.2
    show Statx.layout.Stands bytes' (q.dest.addr.toNat + 0) v
    rw [q.dest.addr_eq] at hstands ⊢
    refine hstands.same hsame (List.mem_cons_of_mem _ (List.mem_singleton_self _)) ?_
    rw [Nat.zero_add]
    exact q.dest.room
  read_redeem := fun _ _ _ _ _ _ _ hredeem h => by
    rw [PendingStatx.redeem_ok hredeem]
    exact (if_neg h.1).trans (congrArg some h.2.load_eq)

/-- The `WaitidSiginfo` of a `waitid` that succeeded and was given a destination. -/
def PreparedWaitId.reads (w : Width) : (PreparedWaitId.requestKind w).Reads WaitidSiginfo where
  stands := fun (t : PendingWaitId w) receipt bytes v =>
    ¬ (receipt.result < 0 ∨ t.kept.destAddr = 0) ∧
      WaitidSiginfo.layout.Stands bytes (t.kept.destAddr.toNat + 0) v
  read := fun (d : WaitIdCompleted w) bytes => d.info (Memory.of bytes)
  stands_same := fun q _ _ _ bytes bytes' v hsame h => by
    obtain ⟨dest, idType, waitee, options⟩ := q
    cases dest with
    | none => exact absurd (Or.inr rfl) h.1
    | some dest =>
        refine ⟨h.1, ?_⟩
        have hstands : WaitidSiginfo.layout.Stands bytes (dest.addr.toNat + 0) v := h.2
        show WaitidSiginfo.layout.Stands bytes' (dest.addr.toNat + 0) v
        rw [dest.addr_eq] at hstands ⊢
        refine hstands.same hsame (List.mem_singleton_self _) ?_
        rw [Nat.zero_add]
        exact dest.room
  read_redeem := fun _ _ _ _ _ _ _ hredeem h => by
    rw [PendingWaitId.redeem_ok hredeem]
    exact (if_neg h.1).trans (congrArg some h.2.load_eq)

/-- The two descriptors of a `pipe` that succeeded. -/
def PreparedPipe.reads (w : Width) : (PreparedPipe.requestKind w).Reads (Int32 × Int32) where
  stands := fun (t : PendingPipe w) receipt bytes v =>
    ¬ receipt.result < 0 ∧
      (i32Layout.pair i32Layout).Stands bytes (t.kept.dest.addr.toNat + 0) v
  read := fun (d : PipeCreated w) bytes =>
    match d.readFd (Memory.of bytes), d.writeFd (Memory.of bytes) with
    | some r, some w => some (r, w)
    | _, _ => none
  stands_same := fun q _ _ _ bytes bytes' v hsame h => by
    refine ⟨h.1, ?_⟩
    have hstands : (i32Layout.pair i32Layout).Stands bytes (q.dest.addr.toNat + 0) v := h.2
    show (i32Layout.pair i32Layout).Stands bytes' (q.dest.addr.toNat + 0) v
    rw [q.dest.addr_eq] at hstands ⊢
    exact hstands.same hsame (List.mem_singleton_self _) q.dest.room
  read_redeem := fun q _ _ _ _ _ v hredeem h => by
    rw [PendingPipe.redeem_ok hredeem]
    have hload := h.2.load_eq
    simp only [PipeCreated.readFd, PipeCreated.writeFd, PipeCreated.word, if_neg h.1]
    exact congrArg some hload

/-- The events of an `epoll_wait` that succeeded, as many as the result says. -/
def PreparedEpollWait.reads (w : Width) (packed checked : Bool) :
    (PreparedEpollWait.requestKind w packed).Reads (List EpollEvent) where
  stands := fun (t : PendingEpollWait w packed) receipt bytes v =>
    ¬ receipt.result < 0 ∧ v.length = receipt.result.toUInt32.toNat ∧
      v.length ≤ t.kept.maxEvents.toNat ∧
      ∀ i event, v[i]? = some event → (EpollEvent.layout packed).Stands bytes
        (t.kept.store.addr.toNat + (EpollEvent.layout packed).size * i) event
  read := fun (d : EpollWaitCompleted w) bytes => d.events checked packed (Memory.of bytes)
  stands_same := fun q _ _ _ bytes bytes' v hsame h => by
    refine ⟨h.1, h.2.1, h.2.2.1, fun i event hi => ?_⟩
    have hstands : (EpollEvent.layout packed).Stands bytes
        (q.store.addr.toNat + (EpollEvent.layout packed).size * i) event := h.2.2.2 i event hi
    show (EpollEvent.layout packed).Stands bytes'
      (q.store.addr.toNat + (EpollEvent.layout packed).size * i) event
    rw [q.store.addr_eq] at hstands ⊢
    refine hstands.same hsame (List.mem_singleton_self _) ?_
    -- the event is one of those that there is room for
    have hlt : i < q.maxEvents.toNat :=
      Nat.lt_of_lt_of_le (List.getElem?_eq_some_iff.mp hi).1 h.2.2.1
    exact Nat.le_trans (Bytes.elem_end_le hlt) q.events_fit
  read_redeem := fun q _ _ receipt _ bytes v hredeem h => by
    obtain ⟨hok, hlen, -, hstands⟩ := h
    rw [PendingEpollWait.redeem_ok hredeem]
    show (((Error.fromFailedCqe checked receipt.result).map _).map _) = some v
    rw [Error.fromFailedCqe, if_neg hok]
    refine congrArg some (List.ext_getElem ?_ fun i h1 h2 => ?_)
    · simp [hlen]
    · simp only [List.getElem_map, List.getElem_range]
      exact (hstands i v[i] (List.getElem?_eq_getElem h2)).load_eq

end Reads

end Ququmatz
