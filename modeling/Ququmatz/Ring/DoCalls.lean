import Ququmatz.Ring.Ops
import Ququmatz.Ring.System

/-!
# `Ququmatz.Ring.DoCalls`: a ring whose owner also makes blocking calls

`Sys` takes the calls of the owner one by one. Here a whole `run_one` is one step, with the
kernel's moves around each of its accesses, beside every other step of `Sys`. So the states
that a `do_*` call can find are the reachable ones: requests that an earlier call left in
flight, SQEs queued and not submitted, completions not reaped.

A call that has not returned is no step. `next_do_tag` is private to `run_one`, so `Sys`'s
own step for it is not used.
-/

set_option autoImplicit false

namespace Ququmatz

open Lib

/-- A ring with its owner, and the number of `do_*` calls made on it. -/
structure DoSys where
  sys : Sys
  calls : Nat

/-- A step of a ring whose owner makes `do_*` calls. -/
inductive DoAction
  | other (a : Action)
  /-- A `run_one` that drained at most `fuel` completions. -/
  | doCall (fuel : Nat) (sqe : Sqe) (rs : List KRound)

/-- The step takes a tag outside `run_one`. -/
def Action.takesTag : Action → Bool
  | .call .nextDoTag _ => true
  | _ => false

namespace DoSys

/-- A `run_one` that returned. The SQE it pushed and the completions it drained join the
record. -/
def doCall (s : DoSys) (fuel : Nat) (sqe : Sqe) (rs : List KRound) : Option DoSys :=
  match s.sys.handles with
  | .whole r =>
      match (r.runOne fuel sqe).run ringMachine rs s.sys.world with
      | some ((some _, r'), w') =>
          some
            { sys :=
                { s.sys with
                  world := w'
                  handles := .whole r'
                  accepted := s.sys.accepted ++ w'.written.drop s.sys.world.written.length
                  reaped := s.sys.reaped ++
                    (w'.read.drop s.sys.world.read.length).map Completion.ofCqe }
              calls := s.calls + 1 }
      | _ => none
  | _ => none

/-- The effect of a step. -/
def step (s : DoSys) : DoAction → Option DoSys
  | .other a => if a.takesTag then none else (s.sys.step a).map fun t => { s with sys := t }
  | .doCall fuel sqe rs => s.doCall fuel sqe rs

/-- A run of the system. -/
def run : List DoAction → DoSys → Option DoSys
  | [], s => some s
  | a :: as, s => (s.step a).bind (run as)

/-- A ring as `from_params` returns it. -/
def init (params : RingParams) (resources : RingResources) (sqStart cqStart : UInt32)
    (sqArray : Nat → UInt32) (sqes : Nat → Sqe) (cqes : Nat → Cqe) : DoSys where
  sys := Sys.init params resources sqStart cqStart sqArray sqes cqes
  calls := 0

end DoSys

end Ququmatz
