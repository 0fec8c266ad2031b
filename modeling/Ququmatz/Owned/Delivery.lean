import Ququmatz.Lib.Range
import Ququmatz.Owned.Accept
import Ququmatz.Owned.Multishot

/-!
# `Ququmatz.Owned.Delivery`: what becomes of the completions of a multishot request

The owner reaps completions, passes each to `record` of a ticket, uses what comes back and
drops it. `deliverAll` is this for a ticket whose completions carry buffers: a sequence of
completions, each with the number of times the owner calls `Finished::take_last` before it
drops the values. The borrow of the pool ends before the next completion is recorded.

`BufferTicket` is one of the two tickets that record into a pool.
-/

set_option autoImplicit false

namespace Ququmatz

open Lib

/-- A ticket of a multishot request that draws buffers from a pool. -/
inductive BufferTicket
  | recv (ticket : MultishotRecv)
  | read (ticket : MultishotRead)
deriving DecidableEq, Repr

namespace BufferTicket

def ring : BufferTicket → RingId
  | .recv ticket => ticket.ring
  | .read ticket => ticket.ring

def id : BufferTicket → RequestId
  | .recv ticket => ticket.id
  | .read ticket => ticket.id

/-- The buffer group that the ticket's request draws from. -/
def bgid : BufferTicket → UInt16
  | .recv ticket => ticket.bgid
  | .read ticket => ticket.bgid

/-- `record` of the ticket. -/
def record : BufferTicket → Event → Except Event Delivery
  | .recv ticket => ticket.record
  | .read ticket => ticket.record

end BufferTicket

namespace Finished

/-- `Finished::take_last`. -/
def takeLast (self : Finished) : Option Arrival × Finished :=
  (self.last, { self with last := none })

/-- The arrivals that `n` calls of `take_last` give out, and what is left. -/
def takes : Nat → Finished → List Arrival × Finished
  | 0, self => ([], self)
  | n + 1, self =>
      let (arrival, self) := self.takeLast
      let (arrivals, self) := takes n self
      (arrival.toList ++ arrivals, self)

end Finished

/-- Drop arrivals, one after the other. -/
def dropArrivals : List Arrival → ProvidedBufferRing → Except Panic ProvidedBufferRing
  | [], pool => .ok pool
  | arrival :: arrivals, pool => do
      let pool ← arrival.drop pool
      dropArrivals arrivals pool

/-- Use and drop a delivery: the owner calls `take_last` `n` times on a finished one, and
drops what it took and what is left. -/
def Delivery.dispose (self : Delivery) (n : Nat) (pool : ProvidedBufferRing) :
    Except Panic ProvidedBufferRing :=
  match self with
  | .data arrival => arrival.drop pool
  | .empty _ => .ok pool
  | .done finished =>
      let (taken, left) := finished.takes n
      dropArrivals (taken ++ left.last.toList) pool

/-- The addresses that `Arrival::bytes` shows: nothing, if the pool cannot honour the id or
the length. -/
def Arrival.exposed (self : Arrival) (pool : ProvidedBufferRing) : Range :=
  if self.bufId.toUInt32 ≥ pool.entries ∨ self.len > pool.bufSize then ⟨0, 0⟩
  else ⟨pool.bufsAddr + self.bufId.toNat * pool.bufSize.toNat, self.len.toNat⟩

/-- The addresses of the pool's slots. -/
def ProvidedBufferRing.region (self : ProvidedBufferRing) : Range :=
  ⟨self.bufsAddr, self.entries.toNat * self.bufSize.toNat⟩

/-- A completion reaped with `reap_event` from the ring `ring`, and the number of
`take_last` calls that its delivery will see. -/
structure Reaped where
  ring : RingId
  cqe : Completion
  takes : Nat
deriving DecidableEq, Repr

namespace Reaped

/-- The event that `reap_event` makes of the completion. -/
def event (self : Reaped) : Event := Event.ofCompletion self.ring self.cqe

/-- The completion is one of the request `id` on `ring`. -/
def isOf (self : Reaped) (ring : RingId) (id : RequestId) : Bool :=
  self.cqe.userData == id.raw && self.ring.raw == ring.raw

/-- The completion ends its request. -/
def terminal (self : Reaped) : Bool := !self.cqe.flags.contains CqeFlags.MORE

/-- The buffer id of a completion that carries one with a non-negative result. -/
def carried (self : Reaped) : Option UInt16 :=
  if 0 ≤ self.cqe.result then self.cqe.flags.bufferId else none

end Reaped

/-- Record a sequence of completions with a ticket on a pool, and use and drop what comes
back. Returns the results of `record`, in order. -/
def deliverAll (ticket : BufferTicket) :
    List Reaped → ProvidedBufferRing →
      Except Panic (List (Except Event Delivery) × ProvidedBufferRing)
  | [], pool => .ok ([], pool)
  | reaped :: rest, pool => do
      let out := ticket.record reaped.event
      let pool ←
        match out with
        | .ok delivery => delivery.dispose reaped.takes pool
        | .error _ => .ok pool
      let (outs, pool) ← deliverAll ticket rest pool
      return (out :: outs, pool)

end Ququmatz
