import Ququmatz.Owned.PendingOf
import Ququmatz.Owned.StagedRun

/-!
# `Ququmatz.Owned.Kind`: what all owned requests have in common

The three states of `src/owned/mod.rs`: a prepared request owns its memory and is its owner's to
use, a pending one owns it and keeps it from everybody, and a completed one hands it back.
`RequestKind` is one kind of request: the states, the functions between them, the memory that each
state owns, and the laws of the three. A kind without memory leaves out what it owns. `named` are
the ranges that the kernel comes to from an SQE. The words of futexes are not among them: the
source leaves these with the caller, since all waiters share them.
-/

set_option autoImplicit false

namespace Ququmatz

open Lib

/-- A kind of owned request. The laws are true by the definition of most kinds. -/
structure RequestKind where
  Prepared : Type
  Pending : Type
  Done : Type
  intoPending : Prepared → RingId → RequestId → Sqe × Pending
  /-- What a full queue hands back. Of a request that is `Copy`, it is the copy that was kept. -/
  reclaim : Prepared → Pending → Prepared := fun q _ => q
  redeem : Pending → Receipt → Except (Pending × Receipt) Done
  holds : Prepared → List Range := fun _ => []
  keeps : Pending → List Range := fun _ => []
  returns : Done → List Range := fun _ => []
  named : Pending → Sqe → List Range := fun _ _ => []
  /-- What the constructors see to. -/
  Sound : Prepared → Prop := fun _ => True
  decSound : DecidablePred Sound := by intro q; infer_instance
  userData_intoPending : ∀ q ring id, (intoPending q ring id).1.userData = id.raw := by
    intros; rfl
  reclaim_intoPending : ∀ q ring id, reclaim q (intoPending q ring id).2 = q := by
    intros; rfl
  keeps_intoPending : ∀ q ring id, keeps (intoPending q ring id).2 = holds q := by
    intros; rfl
  redeem_own : ∀ q ring id receipt, receipt.belongsTo ring id = true →
      ∃ d, redeem (intoPending q ring id).2 receipt = .ok d ∧ returns d = holds q := by
    exact fun _ _ _ _ h => ⟨_, if_neg (ne_true_of_eq_false ((Bool.not_eq_false' _).mpr h)), rfl⟩
  redeem_other : ∀ q ring id receipt, receipt.belongsTo ring id = false →
      redeem (intoPending q ring id).2 receipt = .error ((intoPending q ring id).2, receipt) := by
    exact fun _ _ _ _ h => if_pos ((Bool.not_eq_true' _).mpr h)
  named_inside : ∀ q ring id, Sound q →
      Range.AllInside (named (intoPending q ring id).2 (intoPending q ring id).1) (holds q) := by
    exact fun _ _ _ _ r hr => by cases hr

instance (K : RequestKind) : DecidablePred K.Sound := K.decSound

/-- What `redeem` makes of the ticket of a request. -/
theorem RequestKind.redeem_cases (K : RequestKind) (q : K.Prepared) (ring : RingId)
    (id : RequestId) (receipt : Receipt) :
    (receipt.belongsTo ring id = true ∧
      ∃ d, K.redeem (K.intoPending q ring id).2 receipt = .ok d ∧ K.returns d = K.holds q) ∨
    (receipt.belongsTo ring id = false ∧
      K.redeem (K.intoPending q ring id).2 receipt
        = .error ((K.intoPending q ring id).2, receipt)) := by
  cases h : receipt.belongsTo ring id with
  | true => exact Or.inl ⟨rfl, K.redeem_own q ring id receipt h⟩
  | false => exact Or.inr ⟨rfl, K.redeem_other q ring id receipt h⟩

/-- A staged request owns its storage, and its SQE names the parameters in it. -/
def RequestKind.ofStaged {w : Width} [Native] (packed : Bool) (K : StagedKind w)
    (keeps : K.Pending → Range) (Sound : K.Prepared → Prop) (decSound : DecidablePred Sound)
    (keeps_intoPending : ∀ q ring id, keeps (K.intoPending q ring id).2 = (K.store q).memory)
    (parameter_inside : ∀ q ring id, Sound q → ∀ r,
      (K.intoPending q ring id).1.parameter packed = some r → r.Inside (K.store q).memory) :
    RequestKind where
  Prepared := K.Prepared
  Pending := K.Pending
  Done := K.Done
  intoPending := K.intoPending
  reclaim := fun _ => K.reclaim
  redeem := K.redeem
  holds := fun q => [(K.store q).memory]
  keeps := fun t => [keeps t]
  returns := fun d => [(K.doneStore d).memory]
  named := fun _ sqe => (sqe.parameter packed).toList
  Sound := Sound
  decSound := decSound
  userData_intoPending := K.userData_intoPending
  reclaim_intoPending := K.reclaim_intoPending
  keeps_intoPending := fun q ring id => congrArg (fun r => [r]) (keeps_intoPending q ring id)
  redeem_own := fun q ring id receipt h => by
    obtain ⟨d, hd, hstore⟩ := K.redeem_own q ring id receipt h
    exact ⟨d, hd, by rw [hstore]⟩
  redeem_other := K.redeem_other
  named_inside := fun q ring id h r hr =>
    ⟨_, List.mem_singleton_self _, parameter_inside q ring id h r (Option.mem_toList.mp hr)⟩

end Ququmatz
