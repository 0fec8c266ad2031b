import Ququmatz.Proofs.Ring.Calls
import Ququmatz.Ring.Layout

/-!
# `Ququmatz.Proofs.Ring.Masks`: the handles index by their masks

No operation of a handle changes its masks, and every SQE and CQE slot that it names is a
position under one of them. `calls_safe` says so for every sequence of calls of an owner.
-/

set_option autoImplicit false

namespace Ququmatz

open Lib

/-- An index is a position under its mask; the other accesses have no index. -/
def MaskedAccess (sqMask cqMask : UInt32) : Access → Prop
  | .writeSqe idx _ => ∃ pos, idx = pos &&& sqMask
  | .readCqe idx => ∃ pos, idx = pos &&& cqMask
  | _ => True

/-- The handles have these masks. -/
def Handles.Masked (sqMask cqMask : UInt32) : Handles → Prop
  | .whole r => r.sqMask = sqMask ∧ r.cqMask = cqMask
  | .halves s c => (∀ h ∈ s, h.sqMask = sqMask) ∧ ∀ h ∈ c, h.cqMask = cqMask
  | .gone => True

section Accesses

variable {α : Type} {P : Access → Prop} {R : α → Prop}

theorem safe_perform {a : Access} {f : a.Ans → RingProg α} :
    (perform a >>= f).Safe P R ↔ P a ∧ ∀ x, (f x).Safe P R := Iff.rfl

end Accesses

variable {sqMask cqMask : UInt32}

namespace Submitter

variable {s : Submitter}

theorem push_masked (hs : s.sqMask = sqMask) (sqe : Sqe) :
    (s.push sqe).Safe (MaskedAccess sqMask cqMask) fun x => x.2.sqMask = sqMask := by
  unfold push
  refine safe_perform.mpr ⟨trivial, fun (head : UInt32) => ?_⟩
  dsimp only
  split
  · exact hs
  · exact safe_perform.mpr ⟨⟨_, by rw [hs]⟩, fun _ => hs⟩

theorem submit_masked (hs : s.sqMask = sqMask) :
    s.submit.Safe (MaskedAccess sqMask cqMask) fun x => x.2.sqMask = sqMask := by
  unfold submit flushSqTail
  refine safe_perform.mpr ⟨trivial, fun _ => ?_⟩
  split
  · exact hs
  · refine safe_perform.mpr ⟨trivial, fun ret => ?_⟩
    cases ret <;> exact hs

theorem submitAndWait_masked (hs : s.sqMask = sqMask) (n : UInt32) :
    (s.submitAndWait n).Safe (MaskedAccess sqMask cqMask) fun x => x.2.sqMask = sqMask := by
  unfold submitAndWait flushSqTail
  refine safe_perform.mpr ⟨trivial, fun _ => safe_perform.mpr ⟨trivial, fun ret => ?_⟩⟩
  cases ret <;> exact hs

theorem submitSqpoll_masked (hs : s.sqMask = sqMask) :
    s.submitSqpoll.Safe (MaskedAccess sqMask cqMask) fun x => x.2.sqMask = sqMask := by
  unfold submitSqpoll flushSqTail sqNeedWakeup
  refine safe_perform.mpr ⟨trivial, fun _ => safe_perform.mpr ⟨trivial, fun flags => ?_⟩⟩
  simp only [Prog.pure_eq]
  split
  · refine safe_perform.mpr ⟨trivial, fun ret => ?_⟩
    cases ret <;> exact hs
  · exact hs

end Submitter

theorem Completer.complete_masked {c : Completer} (hc : c.cqMask = cqMask) :
    c.complete.Safe (MaskedAccess sqMask cqMask) fun x => x.2.cqMask = cqMask := by
  unfold complete
  refine safe_perform.mpr ⟨trivial, fun (tail : UInt32) => ?_⟩
  split
  · exact hc
  · exact safe_perform.mpr ⟨⟨_, by rw [hc]⟩, fun _ => hc⟩

theorem Completer.wait_masked (c : Completer) (n : UInt32) :
    (c.wait n).Safe (MaskedAccess sqMask cqMask) fun _ => True := by
  unfold wait syncCq
  refine safe_perform.mpr ⟨trivial, fun _ => safe_perform.mpr ⟨trivial, fun ret => ?_⟩⟩
  cases ret <;> trivial

namespace IoUring

variable {r : IoUring}

/-- Both masks are as they were. -/
def Masks (sqMask cqMask : UInt32) (r : IoUring) : Prop := r.sqMask = sqMask ∧ r.cqMask = cqMask

theorem push_masked (hr : r.Masks sqMask cqMask) (sqe : Sqe) :
    (r.push sqe).Safe (MaskedAccess sqMask cqMask) fun x => x.2.Masks sqMask cqMask := by
  rw [push_eq]
  exact (Submitter.push_masked (s := r.submitter) hr.1 sqe).bind fun _ _ => hr

theorem submit_masked (hr : r.Masks sqMask cqMask) :
    r.submit.Safe (MaskedAccess sqMask cqMask) fun x => x.2.Masks sqMask cqMask := by
  unfold submit flushSqTail flushCqHead
  refine safe_perform.mpr ⟨trivial, fun _ => ?_⟩
  split
  · exact hr
  · refine safe_perform.mpr ⟨trivial, fun ret => ?_⟩
    cases ret with
    | error e => exact hr
    | ok ret => exact safe_perform.mpr ⟨trivial, fun _ => hr⟩

theorem submitAndWait_masked (hr : r.Masks sqMask cqMask) (n : UInt32) :
    (r.submitAndWait n).Safe (MaskedAccess sqMask cqMask) fun x => x.2.Masks sqMask cqMask := by
  unfold submitAndWait flushSqTail flushCqHead
  refine safe_perform.mpr ⟨trivial, fun _ => safe_perform.mpr ⟨trivial, fun _ =>
    safe_perform.mpr ⟨trivial, fun (cqTail : UInt32) => ?_⟩⟩⟩
  dsimp only
  split
  · refine safe_perform.mpr ⟨trivial, fun first => ?_⟩
    cases first with
    | error e => exact hr
    | ok first =>
        refine safe_perform.mpr ⟨trivial, fun second => ?_⟩
        cases second <;> exact hr
  · refine safe_perform.mpr ⟨trivial, fun ret => ?_⟩
    cases ret <;> exact hr

theorem submitSqpoll_masked (hr : r.Masks sqMask cqMask) :
    r.submitSqpoll.Safe (MaskedAccess sqMask cqMask) fun x => x.2.Masks sqMask cqMask := by
  rw [submitSqpoll_eq]
  exact (Submitter.submitSqpoll_masked (s := r.submitter) hr.1).bind fun _ _ => hr

theorem complete_masked (hr : r.Masks sqMask cqMask) :
    r.complete.Safe (MaskedAccess sqMask cqMask) fun x => x.2.Masks sqMask cqMask := by
  rw [complete_eq]
  exact (Completer.complete_masked (c := r.completer) hr.2).bind fun _ _ => hr

/-- A split hands each half its own mask. -/
theorem split_masked (hr : r.Masks sqMask cqMask) :
    r.split.Safe (MaskedAccess sqMask cqMask) fun
      | .ok (s, c) => s.sqMask = sqMask ∧ c.cqMask = cqMask
      | .error (r', _) => r'.Masks sqMask cqMask := by
  unfold split
  split
  · exact hr
  · exact safe_perform.mpr ⟨trivial, fun _ => hr⟩

end IoUring

namespace Handles

variable {α : Type} {h : Handles} {p : RingProg (α × Handles)}

theorem onSq_masked {f : IoUring → RingProg (α × IoUring)}
    {g : Submitter → RingProg (α × Submitter)} (hh : h.Masked sqMask cqMask)
    (hp : h.onSq f g = some p)
    (hf : ∀ r, r.Masks sqMask cqMask →
      (f r).Safe (MaskedAccess sqMask cqMask) fun x => x.2.Masks sqMask cqMask)
    (hg : ∀ s, s.sqMask = sqMask →
      (g s).Safe (MaskedAccess sqMask cqMask) fun x => x.2.sqMask = sqMask) :
    p.Safe (MaskedAccess sqMask cqMask) fun x => x.2.Masked sqMask cqMask := by
  cases h with
  | whole r =>
      cases hp
      exact (hf r hh).bind fun x hx => hx
  | halves s c =>
      cases s with
      | none => cases hp
      | some s =>
          cases hp
          exact (hg s (hh.1 s rfl)).bind fun x hx => ⟨fun t ht => by cases ht; exact hx, hh.2⟩
  | gone => cases hp

theorem onCq_masked {f : IoUring → RingProg (α × IoUring)}
    {g : Completer → RingProg (α × Completer)} (hh : h.Masked sqMask cqMask)
    (hp : h.onCq f g = some p)
    (hf : ∀ r, r.Masks sqMask cqMask →
      (f r).Safe (MaskedAccess sqMask cqMask) fun x => x.2.Masks sqMask cqMask)
    (hg : ∀ c, c.cqMask = cqMask →
      (g c).Safe (MaskedAccess sqMask cqMask) fun x => x.2.cqMask = cqMask) :
    p.Safe (MaskedAccess sqMask cqMask) fun x => x.2.Masked sqMask cqMask := by
  cases h with
  | whole r =>
      cases hp
      exact (hf r hh).bind fun x hx => hx
  | halves s c =>
      cases c with
      | none => cases s <;> cases hp
      | some c =>
          cases s <;> cases hp <;>
            exact (hg c (hh.2 c rfl)).bind fun x hx => ⟨hh.1, fun t ht => by cases ht; exact hx⟩
  | gone => cases hp

/-- A call keeps the masks, and indexes by them. -/
theorem program_masked {c : Call} {q : RingProg Handles} (hh : h.Masked sqMask cqMask)
    (hq : h.program c = some q) :
    q.Safe (MaskedAccess sqMask cqMask) (Handles.Masked sqMask cqMask) := by
  -- The result of the call is dropped.
  have hkeep {β : Type} {o : Option (RingProg (β × Handles))}
      (ho : (o.map fun p => do return (← p).2) = some q)
      (hsafe : ∀ p, o = some p →
        p.Safe (MaskedAccess sqMask cqMask) fun x => x.2.Masked sqMask cqMask) :
      q.Safe (MaskedAccess sqMask cqMask) (Handles.Masked sqMask cqMask) := by
    obtain ⟨p, hp, rfl⟩ := Option.map_eq_some_iff.mp ho
    exact (hsafe p hp).bind fun x hx => hx
  cases c with
  | push sqe =>
      exact hkeep hq fun p hp => onSq_masked hh hp (fun r hr => IoUring.push_masked hr sqe)
        fun s hs => Submitter.push_masked hs sqe
  | flushSqTail =>
      exact hkeep hq fun p hp => onSq_masked hh hp
        (fun r hr => safe_perform.mpr ⟨trivial, fun _ => hr⟩)
        fun s hs => safe_perform.mpr ⟨trivial, fun _ => hs⟩
  | submit =>
      exact hkeep hq fun p hp => onSq_masked hh hp (fun r hr => IoUring.submit_masked hr)
        fun s hs => Submitter.submit_masked hs
  | submitAndWait n =>
      exact hkeep hq fun p hp => onSq_masked hh hp
        (fun r hr => IoUring.submitAndWait_masked hr n)
        fun s hs => Submitter.submitAndWait_masked hs n
  | submitSqpoll =>
      exact hkeep hq fun p hp => onSq_masked hh hp (fun r hr => IoUring.submitSqpoll_masked hr)
        fun s hs => Submitter.submitSqpoll_masked hs
  | complete =>
      exact hkeep hq fun p hp => onCq_masked hh hp (fun r hr => IoUring.complete_masked hr)
        fun c hc => Completer.complete_masked hc
  | syncCq =>
      exact hkeep hq fun p hp => onCq_masked hh hp
        (fun r hr => safe_perform.mpr ⟨trivial, fun _ => hr⟩)
        fun c hc => safe_perform.mpr ⟨trivial, fun _ => hc⟩
  | wait n =>
      refine hkeep hq fun p hp => ?_
      match h, hh, hp with
      | .halves s (some c), hh, hp =>
          cases s <;> cases hp <;> exact (Completer.wait_masked c n).bind fun _ _ => hh
  | nextDoTag =>
      refine hkeep hq fun p hp => ?_
      match h, hh, hp with
      | .whole r, hh, hp =>
          cases hp
          exact hh
  | split =>
      refine hkeep hq fun p hp => ?_
      match h, hh, hp with
      | .whole r, hh, hp =>
          cases hp
          refine (IoUring.split_masked hh).bind fun res hres => ?_
          cases res with
          | error e => exact hres
          | ok halves =>
              exact ⟨fun t ht => by cases ht; exact hres.1, fun t ht => by cases ht; exact hres.2⟩
  | dropRing =>
      refine hkeep hq fun p hp => ?_
      match h, hh, hp with
      | .whole r, hh, hp =>
          cases hp
          exact ⟨trivial, fun _ => ⟨trivial, fun _ => trivial⟩⟩
  | dropSubmitter =>
      refine hkeep hq fun p hp => ?_
      match h, hh, hp with
      | .halves (some s) c, hh, hp =>
          cases hp
          exact ⟨trivial, fun _ => ⟨nofun, hh.2⟩⟩
  | dropCompleter =>
      refine hkeep hq fun p hp => ?_
      match h, hh, hp with
      | .halves s (some c), hh, hp =>
          cases s <;> cases hp <;>
            exact ⟨trivial, fun _ => ⟨trivial, fun _ => ⟨hh.1, nofun⟩⟩⟩
  | registerPool =>
      cases hq
      exact ⟨trivial, fun _ => hh⟩
  | dropPool =>
      cases hq
      exact ⟨trivial, fun _ => hh⟩

/-- So does every sequence of calls, whatever the kernel answers. -/
theorem calls_masked (cs : List Call) (hh : h.Masked sqMask cqMask) :
    (calls cs h).Safe (MaskedAccess sqMask cqMask) (Handles.Masked sqMask cqMask) := by
  induction cs generalizing h with
  | nil => exact hh
  | cons c cs ih =>
      unfold calls
      refine Prog.Safe.bind ?_ fun h' hh' => ih hh'
      cases hp : h.program c with
      | none => exact hh
      | some q => exact program_masked hh hp

end Handles

end Ququmatz
