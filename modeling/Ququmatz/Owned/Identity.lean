import Ququmatz.Owned.Submitter

/-!
# `Ququmatz.Owned.Identity`: the identities of the rings of one process

`RingId::next` of `src/owned/identity.rs` takes the identities of all owned rings of a
process from one counter of 32 bits. `Process` is that counter and the owned halves that are
live. A step is a `split_owned` on any ring, whatever its setup flags and the state of its
queues, or the drop of one half. The other methods of the halves do not touch their `ring`.
-/

set_option autoImplicit false

namespace Ququmatz

open Lib

/-- One half of an owned ring. -/
inductive OwnedHalf
  | submitter (half : OwnedSubmitter)
  | completer (half : OwnedCompleter)
deriving DecidableEq, Repr

/-- The `ring` that the half stamps into its tickets or receipts. -/
def OwnedHalf.ring : OwnedHalf → RingId
  | .submitter half => half.ring
  | .completer half => half.ring

/-- A live half, and how many `split_owned` calls came before the one that made it. The two
halves of a pair have this number in common. -/
structure LiveHalf where
  half : OwnedHalf
  call : Nat
deriving DecidableEq, Repr

/-- The counter of `RingId::next`, and the owned halves of the process. -/
structure Process where
  counter : UInt32
  calls : Nat
  halves : List LiveHalf
deriving DecidableEq, Repr

inductive ProcessAction
  /-- `split_owned` on the ring, with the ring's memory and the kernel's moves. -/
  | splitOwned (ring : IoUring) (w : World) (rs : List KRound)
  | dropHalf (i : Nat)

/-- The action is a `split_owned` that the setup flags allow. -/
def ProcessAction.splits : ProcessAction → Bool
  | .splitOwned ring _ _ => !IoUring.setupFlagsForbidSplit ring.setupFlags
  | .dropHalf _ => false

namespace Process

/-- The process before the first `split_owned`. -/
def init : Process where
  counter := 1
  calls := 0
  halves := []

/-- The effect of a step. -/
def step (s : Process) : ProcessAction → Option Process
  | .splitOwned ring w rs => ((ring.splitOwned s.counter).run ringMachine rs w).map fun x =>
      match x.1.1 with
      | .ok (submitter, completer) =>
          { counter := x.1.2
            calls := s.calls + 1
            halves := s.halves ++
              [⟨.submitter submitter, s.calls⟩, ⟨.completer completer, s.calls⟩] }
      | .error _ => { s with counter := x.1.2, calls := s.calls + 1 }
  | .dropHalf i => some { s with halves := s.halves.eraseIdx i }

/-- A run of the process. -/
def run : List ProcessAction → Process → Option Process
  | [], s => some s
  | a :: as, s => (s.step a).bind (run as)

/-- Live halves of different pairs carry different identities. -/
def Distinct (s : Process) : Prop :=
  ∀ x ∈ s.halves, ∀ y ∈ s.halves, x.call ≠ y.call → x.half.ring ≠ y.half.ring

instance (s : Process) : Decidable s.Distinct :=
  inferInstanceAs (Decidable (∀ x ∈ s.halves, ∀ y ∈ s.halves,
    x.call ≠ y.call → x.half.ring ≠ y.half.ring))

/-- A receipt that a live completer makes never belongs to a ticket of the live submitter of
another pair. -/
def Separate (s : Process) : Prop :=
  ∀ x ∈ s.halves, ∀ y ∈ s.halves, x.call ≠ y.call → ∀ sub com,
    x.half = .submitter sub → y.half = .completer com → ∀ id cqe receipt,
      Event.ofCompletion com.ring cqe = .complete receipt → receipt.belongsTo sub.ring id = false

/-- No live half was made a multiple of `2^32` calls ago. -/
def Spaced (s : Process) : Prop := ∀ x ∈ s.halves, (s.calls - x.call) % 2 ^ 32 ≠ 0

instance (s : Process) : Decidable s.Spaced :=
  inferInstanceAs (Decidable (∀ x ∈ s.halves, (s.calls - x.call) % 2 ^ 32 ≠ 0))

/-- Every split of the run that the flags allow is made in a spaced state. -/
def SpacedRun : List ProcessAction → Process → Prop
  | [], _ => True
  | a :: as, s =>
      ∀ s', s.step a = some s' → (a.splits = true → s.Spaced) ∧ SpacedRun as s'

end Process

end Ququmatz
