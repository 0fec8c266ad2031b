import Mathlib.Logic.Basic

/-!
# `Ququmatz.Lib.Run`: runs of a partial step function

`IsRun step run` says that `run` repeats `step` over a list of actions, and stops with `none`
at an action that is not enabled. From it follow, once for every such system, that a run
splits (`IsRun.append`), that a run keeps what each step keeps (`IsRun.keeps`), and a criterion
for a property to hold in every state that a run passes (`IsRun.prefixes_iff`): if a step from
a good state leads to a good one exactly when the step meets a condition, all states passed are
good exactly when all steps meet it.
-/

set_option autoImplicit false

namespace Ququmatz.Lib

variable {σ α : Type}

/-- `run` repeats `step`. -/
structure IsRun (step : σ → α → Option σ) (run : List α → σ → Option σ) : Prop where
  nil : ∀ s, run [] s = some s
  cons : ∀ a as s, run (a :: as) s = (step s a).bind (run as)

/-- `okRun` asks of every step of a run that it meets `ok`. -/
structure IsOkRun (step : σ → α → Option σ) (ok : σ → α → Prop) (okRun : List α → σ → Prop) :
    Prop where
  nil : ∀ s, okRun [] s
  cons : ∀ a as s, okRun (a :: as) s ↔ ∀ s', step s a = some s' → ok s a ∧ okRun as s'

namespace IsRun

variable {step : σ → α → Option σ} {run : List α → σ → Option σ} (h : IsRun step run)

include h

/-- A run of a first action and the rest. -/
theorem cons_eq_some {a : α} {as : List α} {s t : σ} :
    run (a :: as) s = some t ↔ ∃ s', step s a = some s' ∧ run as s' = some t := by
  rw [h.cons]
  exact Option.bind_eq_some_iff

theorem append (as bs : List α) (s : σ) : run (as ++ bs) s = (run as s).bind (run bs) := by
  induction as generalizing s with
  | nil => rw [List.nil_append, h.nil, Option.bind_some]
  | cons a as ih =>
      rw [List.cons_append, h.cons, h.cons, Option.bind_assoc]
      exact congrArg _ (funext ih)

/-- What each step keeps, a run keeps. -/
theorem keeps {P : σ → Prop} (hstep : ∀ s a s', P s → step s a = some s' → P s') {as : List α}
    {s t : σ} (hs : P s) (hr : run as s = some t) : P t := by
  induction as generalizing s with
  | nil =>
      rw [h.nil] at hr
      cases hr
      exact hs
  | cons a as ih =>
      obtain ⟨s', h1, h2⟩ := h.cons_eq_some.mp hr
      exact ih (hstep s a s' hs h1) h2

/-- All states that a run passes are good exactly when all its steps are. -/
theorem prefixes_iff {ok : σ → α → Prop} {okRun : List α → σ → Prop}
    (hok : IsOkRun step ok okRun) {Inv Good : σ → Prop}
    (hinv : ∀ s a s', Inv s → step s a = some s' → Inv s')
    (hiff : ∀ s a s', Inv s → Good s → step s a = some s' → (Good s' ↔ ok s a))
    (as : List α) {s : σ} (hs : Inv s) (hgood : Good s) :
    (∀ n t, run (as.take n) s = some t → Good t) ↔ okRun as s := by
  induction as generalizing s with
  | nil =>
      refine ⟨fun _ => hok.nil s, fun _ n t ht => ?_⟩
      rw [List.take_nil, h.nil] at ht
      cases ht
      exact hgood
  | cons a as ih =>
      rw [hok.cons]
      constructor
      · -- the run of one step is a prefix, and so is every longer one behind it
        intro hall s' hstep
        have hgood' : Good s' :=
          hall 1 s' (h.cons_eq_some.mpr ⟨s', hstep, by rw [List.take_zero, h.nil]⟩)
        refine ⟨(hiff s a s' hs hgood hstep).mp hgood', (ih (hinv s a s' hs hstep) hgood').mp ?_⟩
        intro n t ht
        exact hall (n + 1) t (h.cons_eq_some.mpr ⟨s', hstep, ht⟩)
      · intro hsteps n t ht
        cases n with
        | zero =>
            rw [List.take_zero, h.nil] at ht
            cases ht
            exact hgood
        | succ n =>
            obtain ⟨s', hstep, ht⟩ := h.cons_eq_some.mp ht
            obtain ⟨hmeets, hrest⟩ := hsteps s' hstep
            have hgood' := (hiff s a s' hs hgood hstep).mpr hmeets
            exact (ih (hinv s a s' hs hstep) hgood').mpr hrest n t ht

end IsRun

end Ququmatz.Lib
