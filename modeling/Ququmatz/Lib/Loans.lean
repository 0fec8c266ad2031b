import Mathlib.Data.List.Perm.Basic

/-!
# `Ququmatz.Lib.Loans`: things that are lent and come back

A `Loans` says who has each of a number of things: the owner holds some, some are lent, in lots
that go and come back as one, and some lots are lost for good. `Loans.all` is everything
together.

`Move R l new gone l'` is one move of the things: `new` came from outside, `gone` left for good,
and all the rest is with someone else at most. `Move.balance` is the conservation law of a move. A
new thing must be related by `R` to everything there is; then any two things are related
(`Move.apart`), each thing that is held to each thing that is lent or lost (`Apart.held_out`), and
the things of any two lots (`Apart.out_out`).
-/

set_option autoImplicit false

namespace Ququmatz.Lib

/-- Who has what. -/
structure Loans (ρ : Type) where
  held : List ρ
  lent : List (List ρ)
  lost : List (List ρ)

namespace Loans

variable {ρ : Type} {R : ρ → ρ → Prop}

/-- The lots that are not with the owner. -/
def out (l : Loans ρ) : List (List ρ) := l.lent ++ l.lost

/-- Everything. -/
def all (l : Loans ρ) : List ρ := l.held ++ l.out.flatten

/-- One move of the things. -/
inductive Move (R : ρ → ρ → Prop) : Loans ρ → List ρ → List ρ → Loans ρ → Prop
  /-- The owner puts what it holds in another order. -/
  | arrange {l : Loans ρ} {held : List ρ} :
      held.Perm l.held → Move R l [] [] { l with held := held }
  | acquire {l : Loans ρ} {x : ρ} :
      (∀ y ∈ l.all, R x y) → Move R l [x] [] { l with held := x :: l.held }
  | release {l : Loans ρ} {held : List ρ} {x : ρ} :
      (x :: held).Perm l.held → Move R l [] [x] { l with held := held }
  | lend {l : Loans ρ} {held xs : List ρ} :
      (held ++ xs).Perm l.held →
      Move R l [] [] { l with held := held, lent := l.lent ++ [xs] }
  | settle {l : Loans ρ} {held xs : List ρ} {i : Nat} :
      l.lent[i]? = some xs → held.Perm (l.held ++ xs) →
      Move R l [] [] { l with held := held, lent := l.lent.eraseIdx i }
  | forfeit {l : Loans ρ} {xs : List ρ} {i : Nat} :
      l.lent[i]? = some xs →
      Move R l [] [] { l with lent := l.lent.eraseIdx i, lost := l.lost ++ [xs] }

/-- Any two of the things are related. -/
def Apart (R : ρ → ρ → Prop) (l : Loans ρ) : Prop := l.all.Pairwise R

/-- A lot, and the others. -/
theorem flatten_eraseIdx {lots : List (List ρ)} {i : Nat} {xs : List ρ}
    (h : lots[i]? = some xs) : (xs ++ (lots.eraseIdx i).flatten).Perm lots.flatten := by
  obtain ⟨hlt, rfl⟩ := List.getElem?_eq_some_iff.mp h
  rw [← List.flatten_cons]
  exact (List.getElem_cons_eraseIdx_perm hlt).flatten

/-- What is there after a move, and what left, is what was there and what came. -/
theorem Move.balance {l l' : Loans ρ} {new gone : List ρ} (h : Move R l new gone l') :
    (l'.all ++ gone).Perm (new ++ l.all) := by
  cases h with
  | arrange hp =>
      rw [List.append_nil]
      exact hp.append_right _
  | acquire _ =>
      rw [List.append_nil]
      exact List.Perm.refl _
  | @release held x hp =>
      have hmove : (held ++ l.out.flatten ++ [x]).Perm (x :: held ++ l.out.flatten) :=
        List.perm_append_singleton x _
      exact hmove.trans (hp.append_right _)
  | @lend held xs hp =>
      rw [List.append_nil]
      show (held ++ (l.lent ++ [xs] ++ l.lost).flatten).Perm (l.held ++ (l.lent ++ l.lost).flatten)
      -- the lot moves from behind the other lots to behind what is held
      have hlot : ((l.lent ++ [xs] ++ l.lost).flatten).Perm (xs ++ (l.lent ++ l.lost).flatten) := by
        rw [List.append_assoc, ← List.flatten_cons]
        exact List.perm_middle.flatten
      refine (hlot.append_left held).trans ?_
      rw [← List.append_assoc]
      exact hp.append_right _
  | @settle held xs i hlot hp =>
      rw [List.append_nil]
      show (held ++ (l.lent.eraseIdx i ++ l.lost).flatten).Perm (l.held ++ l.out.flatten)
      refine (hp.append_right _).trans ?_
      rw [List.append_assoc]
      refine List.Perm.append_left _ ?_
      show (xs ++ (l.lent.eraseIdx i ++ l.lost).flatten).Perm (l.lent ++ l.lost).flatten
      rw [List.flatten_append, List.flatten_append, ← List.append_assoc]
      exact (flatten_eraseIdx hlot).append_right _
  | @forfeit xs i hlot =>
      rw [List.append_nil]
      refine List.Perm.append_left _ ?_
      show ((l.lent.eraseIdx i ++ (l.lost ++ [xs])).flatten).Perm (l.lent ++ l.lost).flatten
      have hlast : (l.lost ++ [xs]).flatten.Perm (xs ++ l.lost.flatten) := by
        rw [List.flatten_append, List.flatten_singleton]
        exact List.perm_append_comm
      rw [List.flatten_append, @List.flatten_append _ l.lent l.lost]
      refine (hlast.append_left _).trans ?_
      rw [← List.append_assoc]
      exact (List.perm_append_comm.trans (flatten_eraseIdx hlot)).append_right _

section Symmetric

variable (hsymm : ∀ {x y : ρ}, R x y → R y x)

include hsymm

/-- A move relates no two things anew, but for a new thing and all others. -/
theorem Move.apart {l l' : Loans ρ} {new gone : List ρ} (h : Move R l new gone l')
    (hl : l.Apart R) : l'.Apart R := by
  have hall : (new ++ l.all).Pairwise R := by
    cases h with
    | acquire hnew => exact List.pairwise_cons.mpr ⟨hnew, hl⟩
    | _ => exact hl
  exact (List.pairwise_append.mp ((h.balance.pairwise_iff hsymm).mpr hall)).1

/-- What is held is related to everything else. -/
theorem Apart.held_out {l : Loans ρ} (h : l.Apart R) {x y : ρ} {ys : List ρ} (hx : x ∈ l.held)
    (hys : ys ∈ l.out) (hy : y ∈ ys) : R y x :=
  hsymm ((List.pairwise_append.mp h).2.2 x hx y (List.mem_flatten.mpr ⟨ys, hys, hy⟩))

/-- The things of two lots are related. -/
theorem Apart.out_out {l : Loans ρ} (h : l.Apart R) {i j : Nat} {xs ys : List ρ} {x y : ρ}
    (hi : l.out[i]? = some xs) (hj : l.out[j]? = some ys) (hne : i ≠ j) (hx : x ∈ xs)
    (hy : y ∈ ys) : R x y := by
  have hpair := (List.pairwise_flatten.mp (List.pairwise_append.mp h).2.1).2
  obtain ⟨hilt, rfl⟩ := List.getElem?_eq_some_iff.mp hi
  obtain ⟨hjlt, rfl⟩ := List.getElem?_eq_some_iff.mp hj
  rw [List.pairwise_iff_getElem] at hpair
  rcases Nat.lt_or_gt_of_ne hne with hlt | hlt
  · exact hpair i j hilt hjlt hlt x hx y hy
  · exact hsymm (hpair j i hjlt hilt hlt y hy x hx)

end Symmetric

end Loans

end Ququmatz.Lib
