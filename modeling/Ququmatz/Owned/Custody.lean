import Mathlib.Data.List.Perm.Subperm
import Ququmatz.Lib.Loans
import Ququmatz.Owned.Kind
import Ququmatz.Proofs.Owned.Queue

/-!
# `Ququmatz.Owned.Custody`: who has the memory of the requests

A program that keeps its buffers and requests on one owned ring. `Custody` is the ring with its
owner (`OwnedSys`), and beside it where every block of memory is: in the hands of the program, in
a request that is not queued, in a ticket, or leaked by a ticket that was dropped. The kinds of
requests are any family of `RequestKind`s.

`taken` is the history of the requests that the queue accepted, each with the place of its SQE,
and `allocated` and `freed` are those of the allocator. `Custody.Safe` is what the three states of
`src/owned/mod.rs` are for: memory that the kernel may be using is nobody else's.
-/

set_option autoImplicit false

namespace Ququmatz

open Lib

variable {ι : Type} (K : ι → RequestKind)

/-- A request that the queue accepted under an identity, and the place of its SQE among the
accepted ones. -/
structure Taken where
  kind : ι
  request : (K kind).Prepared
  ring : RingId
  id : RequestId
  slot : Nat

/-- A ring, its owner, and the memory. -/
structure Custody where
  own : OwnedSys Empty Empty 0
  hand : List Range
  requests : List ((k : ι) × (K k).Prepared)
  tickets : List (Taken K)
  leaked : List (Taken K)
  taken : List (Taken K)
  allocated : List Range
  freed : List Range

/-- A step of the program or of the kernel. -/
inductive CustodyAction
  /-- The allocator gives a block that does not overlap any other. -/
  | allocate (block : Range)
  | free (i : Nat)
  /-- Make a request of blocks that are in hand. -/
  | prepare (k : ι) (q : (K k).Prepared)
  /-- Take a request apart, or drop it, which frees its blocks in addition. -/
  | takeApart (i : Nat)
  | push (i : Nat) (rs : List KRound)
  | redeem (ticket receipt : Nat)
  /-- Drop a ticket. It does not drop its storage. -/
  | dropTicket (i : Nat)
  /-- Any other step of the owned ring, raw pushes among them. -/
  | other (a : OwnedAction Empty Empty 0)

/-- The action neither makes a ticket nor uses one up. -/
def OwnedAction.sparesTickets {B R : Type} {N : Nat} : OwnedAction B R N → Bool
  | .inner _ | .splitOwned _ _ | .reapEvent _ | .reap _ | .dropReceipt _ => true
  | .push _ _ | .redeem _ _ | .dropTicket _ => false

namespace Taken

variable {K}

/-- The SQE of the request. -/
def sqe (self : Taken K) : Sqe := ((K self.kind).intoPending self.request self.ring self.id).1

/-- The ticket of the request. -/
def pending (self : Taken K) : (K self.kind).Pending :=
  ((K self.kind).intoPending self.request self.ring self.id).2

/-- The ticket as the owned ring knows it. -/
def held (self : Taken K) : Held Empty Empty 0 := ⟨.other self.ring self.id, self.slot⟩

/-- The memory that the ticket owns. -/
def memory (self : Taken K) : List Range := (K self.kind).keeps self.pending

/-- The memory that the kernel comes to from the SQE. -/
def named (self : Taken K) : List Range := (K self.kind).named self.pending self.sqe

end Taken

namespace Custody

variable {K}

/-- A ring whose owner has no memory yet. -/
def ofSys (sys : Sys) : Custody K where
  own := OwnedSys.ofSys sys
  hand := []
  requests := []
  tickets := []
  leaked := []
  taken := []
  allocated := []
  freed := []

/-- The memory of the requests that are not queued. -/
def prepared (s : Custody K) : List Range := s.requests.flatMap fun x => (K x.1).holds x.2

/-- Who has what. -/
def loans (s : Custody K) : Loans Range where
  held := s.hand ++ s.prepared
  lent := s.tickets.map Taken.memory
  lost := s.leaked.map Taken.memory

/-- The request that a push of request `i` would get accepted. -/
def attempt (s : Custody K) (i : Nat) : Option (Taken K) :=
  match s.requests[i]?, s.own.owner with
  | some x, some (ring, ids) => some ⟨x.1, x.2, ring, ids.next.1, s.own.sys.accepted.length⟩
  | _, _ => none

/-- A push. A request that the queue refuses is taken back out of its ticket. -/
def push (s : Custody K) (i : Nat) (rs : List KRound) : Option (Custody K) :=
  (s.attempt i).bind fun t =>
    (s.own.push (.other t.sqe) rs).map fun own =>
      if own.tickets.length = s.own.tickets.length then
        { s with
          own := own
          requests := s.requests.set i ⟨t.kind, (K t.kind).reclaim t.request t.pending⟩ }
      else
        { s with
          own := own
          requests := s.requests.eraseIdx i
          tickets := s.tickets ++ [t]
          taken := s.taken ++ [t] }

/-- A redemption. A ticket that refuses the receipt hands both back. -/
def redeem (s : Custody K) (ticket receipt : Nat) : Option (Custody K) :=
  match s.tickets[ticket]?, s.own.receipts[receipt]? with
  | some t, some r =>
      (s.own.redeem ticket receipt).map fun own =>
        match (K t.kind).redeem t.pending r with
        | .ok done =>
            { s with
              own := own
              hand := s.hand ++ (K t.kind).returns done
              tickets := s.tickets.eraseIdx ticket }
        | .error _ => { s with own := own }
  | _, _ => none

/-- The effect of a step. -/
def step (s : Custody K) : CustodyAction K → Option (Custody K)
  | .allocate block =>
      if ∀ x ∈ s.loans.all, block.Disjoint x then
        some { s with hand := block :: s.hand, allocated := s.allocated ++ [block] }
      else none
  | .free i => (s.hand[i]?).map fun block =>
      { s with hand := s.hand.eraseIdx i, freed := s.freed ++ [block] }
  | .prepare k q =>
      if ((K k).holds q).Subperm s.hand then
        some { s with hand := s.hand.diff ((K k).holds q), requests := s.requests ++ [⟨k, q⟩] }
      else none
  | .takeApart i => (s.requests[i]?).map fun x =>
      { s with hand := s.hand ++ (K x.1).holds x.2, requests := s.requests.eraseIdx i }
  | .push i rs => s.push i rs
  | .redeem ticket receipt => s.redeem ticket receipt
  | .dropTicket i =>
      match s.tickets[i]?, s.own.step (.dropTicket i) with
      | some t, some own =>
          some { s with own := own, tickets := s.tickets.eraseIdx i, leaked := s.leaked ++ [t] }
      | _, _ => none
  | .other a =>
      if a.sparesTickets then (s.own.step a).map fun own => { s with own := own } else none

/-- A run of the program. -/
def run : List (CustodyAction K) → Custody K → Option (Custody K)
  | [], s => some s
  | a :: as, s => (s.step a).bind (run as)

/-- The step of the owned ring that a step is. -/
def ownAction (s : Custody K) : CustodyAction K → Option (OwnedAction Empty Empty 0)
  | .push i rs => (s.attempt i).map fun t => .push (.other t.sqe) rs
  | .redeem ticket receipt => some (.redeem ticket receipt)
  | .dropTicket i => some (.dropTicket i)
  | .other a => some a
  | _ => none

/-- The step pushes no request but one that is as a constructor made it. -/
def pushesSound (s : Custody K) : CustodyAction K → Bool
  | .push i _ => (s.attempt i).all fun t => decide ((K t.kind).Sound t.request)
  | _ => true

/-- A step that pushes sound requests only, and is a careful one of the owned ring. -/
def careful (s : Custody K) (a : CustodyAction K) : Bool :=
  s.pushesSound a && (s.ownAction a).all s.own.careful

/-- Every step of the run is careful in the state it starts from. -/
def carefulRun : List (CustodyAction K) → Custody K → Bool
  | [], _ => true
  | a :: as, s =>
      s.careful a &&
        match s.step a with
        | none => false
        | some s' => carefulRun as s'

/-- The request has not had its terminal CQE. -/
def InFlight (s : Custody K) (t : Taken K) : Prop :=
  t ∈ s.taken ∧ s.own.sys.world.finished t.slot = false

/-- While a request is in flight, the memory that its SQE names is not freed, and it is no memory
of the program, of a request that is not queued or of another request in flight. -/
structure Safe (s : Custody K) : Prop where
  accepted : ∀ t, s.InFlight t → s.own.sys.accepted[t.slot]? = some t.sqe
  live : ∀ t, s.InFlight t → ∀ r ∈ t.named, ∃ x ∈ s.loans.out.flatten, r.Inside x
  hand : ∀ t, s.InFlight t → ∀ r ∈ t.named, ∀ x ∈ s.hand, r.Disjoint x
  prepared : ∀ t, s.InFlight t → ∀ r ∈ t.named, ∀ x ∈ s.prepared, r.Disjoint x
  apart : ∀ t u, s.InFlight t → s.InFlight u → t.slot ≠ u.slot →
    ∀ r ∈ t.named, ∀ x ∈ u.named, r.Disjoint x

end Custody

end Ququmatz
