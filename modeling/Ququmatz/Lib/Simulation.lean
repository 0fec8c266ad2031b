import Mathlib.Data.Option.Basic
import Ququmatz.Lib.Prog

/-!
# `Ququmatz.Lib.Simulation`: two machines that cannot be told apart

A `Bisimulation` of two machines over one signature is a relation between their states. Related
states allow the same steps of the environment and the same accesses, with the same answers, and are
related again afterwards. It may leave out accesses that the programs in question never make
(`Covers`). A program that makes only accesses that it covers has the same runs on both machines
(`Bisimulation.run`): a property of the runs on one of them is one of the runs on the other.
-/

set_option autoImplicit false

namespace Ququmatz.Lib

/-! ### Related outcomes -/

section Outcomes

variable {α β γ δ : Type} {R : α → β → Prop} {Q : γ → δ → Prop}

theorem relBind {x : Option α} {y : Option β} {f : α → Option γ} {g : β → Option δ}
    (h : Option.Rel R x y) (hf : ∀ a b, R a b → Option.Rel Q (f a) (g b)) :
    Option.Rel Q (x.bind f) (y.bind g) := by
  cases h with
  | some hab => exact hf _ _ hab
  | none => exact .none

theorem relMap {x : Option α} {y : Option β} {f : α → γ} {g : β → δ} (h : Option.Rel R x y)
    (hf : ∀ a b, R a b → Q (f a) (g b)) : Option.Rel Q (x.map f) (y.map g) := by
  cases h with
  | some hab => exact .some (hf _ _ hab)
  | none => exact .none

theorem relIte {p q : Prop} [Decidable p] [Decidable q] {x x' : Option α} {y y' : Option β}
    (hpq : p ↔ q) (h : p → Option.Rel R x y) (h' : ¬ p → Option.Rel R x' y') :
    Option.Rel R (if p then x else x') (if q then y else y') := by
  by_cases hp : p
  · rw [if_pos hp, if_pos (hpq.mp hp)]
    exact h hp
  · rw [if_neg hp, if_neg fun hq => hp (hpq.mpr hq)]
    exact h' hp

/-- Related outcomes are both there, or neither. -/
theorem rel_iff {x : Option α} {y : Option β} : Option.Rel R x y ↔
    (∀ a, x = some a → ∃ b, y = some b ∧ R a b) ∧ ∀ b, y = some b → ∃ a, x = some a ∧ R a b := by
  constructor
  · intro h
    cases h with
    | @some a b hab =>
        refine ⟨fun a' ha => ?_, fun b' hb => ?_⟩
        · cases ha
          exact ⟨b, rfl, hab⟩
        · cases hb
          exact ⟨a, rfl, hab⟩
    | none =>
        refine ⟨fun a' ha => ?_, fun b' hb => ?_⟩
        · cases ha
        · cases hb
  · rintro ⟨hxy, hyx⟩
    cases x with
    | some a =>
        obtain ⟨b, rfl, hab⟩ := hxy a rfl
        exact .some hab
    | none =>
        cases y with
        | some b =>
            obtain ⟨a, ha, -⟩ := hyx b rfl
            cases ha
        | none => exact .none

end Outcomes

/-! ### Machines -/

/-- Related states of two machines can do the same. -/
structure Bisimulation {S : Sig} (M N : Machine S) where
  Rel : M.State → N.State → Prop
  envOf : M.Env → N.Env
  replyOf : M.Reply → N.Reply
  /-- The accesses that it is about. -/
  Covers : S.Op → Prop
  env : ∀ e s t, Rel s t → Option.Rel Rel (M.env e s) (N.env (envOf e) t)
  access : ∀ o r s t, Covers o → Rel s t →
    Option.Rel (fun x y => x.1 = y.1 ∧ Rel x.2 y.2) (M.access o r s) (N.access o (replyOf r) t)

namespace Bisimulation

variable {S : Sig} {α : Type} {M N : Machine S} (sim : Bisimulation M N)

/-- The moves of the environment, as moves around the other machine. -/
def roundOf (r : Round M) : Round N := ⟨r.before.map sim.envOf, sim.replyOf r.reply⟩

theorem steps (es : List M.Env) {s : M.State} {t : N.State} (h : sim.Rel s t) :
    Option.Rel sim.Rel (M.steps es s) (N.steps (es.map sim.envOf) t) := by
  induction es generalizing s t with
  | nil => exact .some h
  | cons e es ih => exact relBind (sim.env e s t h) fun _ _ h1 => ih h1

/-- The runs of a program on the two machines correspond. -/
theorem run {p : Prog S α} {R : α → Prop} (hp : p.Safe sim.Covers R) (rs : List (Round M))
    {s : M.State} {t : N.State} (h : sim.Rel s t) :
    Option.Rel (fun x y => x.1 = y.1 ∧ R x.1 ∧ sim.Rel x.2 y.2) (p.run M rs s)
      (p.run N (rs.map sim.roundOf) t) := by
  induction p generalizing rs s t with
  | ret a =>
      cases rs with
      | nil => exact .some ⟨rfl, hp, h⟩
      | cons r rs => exact .none
  | op o k ih =>
      cases rs with
      | nil => exact .none
      | cons r rs =>
          refine relBind (sim.steps r.before h) fun s1 t1 h1 => ?_
          refine relBind (sim.access o r.reply s1 t1 hp.1 h1) fun x y hxy => ?_
          -- the answer is the same, so the rest is the same program
          obtain ⟨hans, h2⟩ := hxy
          rw [← hans]
          exact ih x.1 (hp.2 x.1) rs h2

end Bisimulation

end Ququmatz.Lib
