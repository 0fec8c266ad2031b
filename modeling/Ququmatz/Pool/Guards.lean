import Ququmatz.Owned.Multishot
import Ququmatz.Pool.Register

/-!
# `Ququmatz.Pool.Guards`: completions handled through the guard types

The transition system of one pool whose buffer-carrying completions all go through a
guard: `claim` makes a `CompletedBuffer` of a one-shot completion, `record` of a multishot
ticket makes an `Arrival`. A guard borrows the pool exclusively, so it is dropped or
forgotten before the next completion is handled.

`GuardSys` keeps the deliveries so far, each with the length the producer ring's history
had at that moment. `Law` reads the two histories together: a descriptor on the producer
ring comes after a delivery for its slot, and the latest one has no `BUF_MORE`.
-/

set_option autoImplicit false

namespace Ququmatz

/-- How a completion reaches its guard. -/
inductive Route
  /-- `claim`, with the id and the result of the completion. -/
  | claim
  /-- `reap_event` on ring `ring`, then `record` of the ticket. -/
  | recv (ring : RingId) (ticket : MultishotRecv)
  | read (ring : RingId) (ticket : MultishotRead)
deriving DecidableEq, Repr

/-- A guard over a slot. -/
inductive Guard
  | completed (lease : CompletedBuffer)
  | arrival (arrival : Arrival)
deriving DecidableEq, Repr

namespace Guard

/-- The slot under guard. -/
def bufId : Guard → UInt16
  | .completed lease => lease.bufId
  | .arrival a => a.bufId

/-- The destructor of the guard. -/
def drop (self : Guard) (pool : ProvidedBufferRing) : Except Panic ProvidedBufferRing :=
  match self with
  | .completed lease => lease.drop pool
  | .arrival a => a.drop pool

end Guard

/-- `claim` with the id and the byte count of a completion. -/
def claimCompletion (pool : ProvidedBufferRing) (cqe : Completion) : Option CompletedBuffer :=
  match cqe.flags.bufferId with
  | some bufId => if 0 ≤ cqe.result then pool.claim bufId cqe.result.toUInt32 else none
  | none => none

/-- The arrival of a delivery, if the event was the ticket's own. -/
def arrivalOf : Except Event Delivery → Option Arrival
  | .ok delivery => delivery.arrival
  | .error _ => none

/-- The guard that a route makes of a completion. -/
def Route.guard (route : Route) (pool : ProvidedBufferRing) (cqe : Completion) : Option Guard :=
  match route with
  | .claim => (claimCompletion pool cqe).map .completed
  | .recv ring ticket =>
      (arrivalOf (ticket.record (Event.ofCompletion ring cqe))).map .arrival
  | .read ring ticket =>
      (arrivalOf (ticket.record (Event.ofCompletion ring cqe))).map .arrival

/-- What the owner does with a guard. -/
inductive Fate
  | dropped
  | forgotten
deriving DecidableEq, Repr

/-- A completion, its route and the fate of its guard. -/
structure Handled where
  completion : Completion
  route : Route
  fate : Fate
deriving DecidableEq, Repr

/-- A delivery in the past: its slot, whether it had `BUF_MORE`, and how many descriptors
had been written to the producer ring before it. -/
structure Delivered where
  bufId : UInt16
  more : Bool
  before : Nat
deriving DecidableEq, Repr

/-- A pool, and the deliveries of a run. -/
structure GuardSys where
  pool : ProvidedBufferRing
  /-- The number of descriptors that the registration wrote. -/
  start : Nat
  delivered : List Delivered

namespace GuardSys

/-- The record of a delivery through a guard. -/
def deliver (s : GuardSys) (g : Guard) (cqe : Completion) : GuardSys :=
  { s with delivered := s.delivered ++
      [⟨g.bufId, cqe.flags.contains CqeFlags.BUF_MORE, s.pool.produced.length⟩] }

/-- Handle one completion. -/
def step (s : GuardSys) (d : Handled) : Except Panic GuardSys :=
  match d.route.guard s.pool d.completion with
  | none => .ok s
  | some g =>
      let s' := s.deliver g d.completion
      match d.fate with
      | .forgotten => .ok s'
      | .dropped => do
          let pool ← g.drop s'.pool
          return { s' with pool := pool }

/-- The latest delivery for slot `b` before descriptor `k` was written. -/
def latest (s : GuardSys) (b : UInt16) (k : Nat) : Option Delivered :=
  (s.delivered.filter fun c => c.bufId == b && decide (c.before ≤ k)).getLast?

/-- Every slot on the producer ring was put there by the registration, or after a delivery
for it without `BUF_MORE`. -/
def Law (s : GuardSys) : Prop :=
  ∀ k e, s.start ≤ k → s.pool.produced[k]? = some e →
    ∃ c, s.latest e.bid k = some c ∧ c.more = false

/-- `Law` in every state of a run. A panic ends the run. -/
def NeverEarly : List Handled → GuardSys → Prop
  | [], s => s.Law
  | d :: ds, s => s.Law ∧ ∀ s', s.step d = .ok s' → NeverEarly ds s'

/-- The step does not drop a guard over a slot of the pool that was made of a completion
with `BUF_MORE`. -/
def final (s : GuardSys) (d : Handled) : Bool :=
  match d.route.guard s.pool d.completion, d.fate with
  | some g, .dropped =>
      !(decide (g.bufId.toUInt32 < s.pool.entries) &&
        d.completion.flags.contains CqeFlags.BUF_MORE)
  | _, _ => true

/-- No step of a run drops such a guard. -/
def allFinal : List Handled → GuardSys → Bool
  | [], _ => true
  | d :: ds, s =>
      s.final d &&
        match s.step d with
        | .ok s' => allFinal ds s'
        | .error _ => true

/-- A pool as it was registered. -/
def init (pool : ProvidedBufferRing) : GuardSys := ⟨pool, pool.produced.length, []⟩

end GuardSys

end Ququmatz
