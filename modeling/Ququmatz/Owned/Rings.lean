import Ququmatz.Owned.Identity
import Ququmatz.Proofs.Owned.Queue

/-!
# `Ququmatz.Owned.Rings`: the owned rings of one process

A process with any number of rings. Each is a system of its own (`OwnedSys`), and they share the
counter of `RingId::next`. Tickets and receipts are values, so that a program can offer a receipt of
one ring to a ticket of another: `redeem` takes the places of both.
-/

set_option autoImplicit false

namespace Ququmatz

open Lib

/-- The counter of `RingId::next` and the rings of the process, in the order of their setup. -/
structure Rings (B R : Type) (N : Nat) where
  counter : UInt32
  rings : List (OwnedSys B R N)

/-- A step of the process or of the kernel. -/
inductive RingsAction (B R : Type) (N : Nat)
  /-- A new ring, as the kernel set it up. -/
  | build (params : RingParams) (resources : RingResources) (sqStart cqStart : UInt32)
      (sqArray : Nat → UInt32) (sqes : Nat → Sqe) (cqes : Nat → Cqe)
  | splitOwned (i : Nat) (rs : List KRound)
  /-- Any other step of ring `i`. -/
  | on (i : Nat) (a : OwnedAction B R N)
  /-- A ticket of ring `i` is redeemed with a receipt of ring `j`. -/
  | redeem (i ticket j receipt : Nat)

/-- The action is a `split_owned`. -/
def OwnedAction.isSplit {B R : Type} {N : Nat} : OwnedAction B R N → Bool
  | .splitOwned _ _ => true
  | _ => false

/-- The action is a `split_owned`. -/
def RingsAction.isSplit {B R : Type} {N : Nat} : RingsAction B R N → Bool
  | .splitOwned _ _ => true
  | _ => false

namespace Rings

variable {B R : Type} {N : Nat}

/-- A process without rings, before the first `RingId::next`. -/
def init : Rings B R N where
  counter := 1
  rings := []

/-- A redemption. If the ticket takes the receipt, both are used up, each in its ring. -/
def redeem (s : Rings B R N) (i ticket j receipt : Nat) : Option (Rings B R N) :=
  (s.rings[i]?).bind fun x => (s.rings[j]?).bind fun y =>
    (x.tickets[ticket]?).bind fun h => (y.receipts[receipt]?).map fun r =>
      if h.ticket.accepts r then
        let spent := s.rings.modify i fun x =>
          { x with tickets := x.tickets.eraseIdx ticket }
        { s with rings := spent.modify j fun y =>
            { y with receipts := y.receipts.eraseIdx receipt } }
      else s

/-- The effect of a step. `split_owned` takes an identity whether it succeeds or not. -/
def step (s : Rings B R N) : RingsAction B R N → Option (Rings B R N)
  | .build params resources sqStart cqStart sqArray sqes cqes =>
      some { s with rings := s.rings ++
        [OwnedSys.ofSys (Sys.init params resources sqStart cqStart sqArray sqes cqes)] }
  | .splitOwned i rs => (s.rings[i]?).bind fun x =>
      let (ring, counter) := RingId.next s.counter
      (x.splitOwned ring rs).map fun x' => { counter := counter, rings := s.rings.set i x' }
  | .on i a =>
      if a.isSplit then none
      else (s.rings[i]?).bind fun x => (x.step a).map fun x' =>
        { s with rings := s.rings.set i x' }
  | .redeem i ticket j receipt => s.redeem i ticket j receipt

/-- A run of the process. -/
def run : List (RingsAction B R N) → Rings B R N → Option (Rings B R N)
  | [], s => some s
  | a :: as, s => (s.step a).bind (run as)

/-- The step is a careful one of its ring. -/
def careful (s : Rings B R N) : RingsAction B R N → Bool
  | .on i a => (s.rings[i]?).all fun x => x.careful a
  | _ => true

/-- Every step of the run is careful in the state it starts from. -/
def carefulRun : List (RingsAction B R N) → Rings B R N → Bool
  | [], _ => true
  | a :: as, s =>
      s.careful a &&
        match s.step a with
        | none => false
        | some s' => carefulRun as s'

end Rings

end Ququmatz
