import Mathlib.Data.List.Perm.Basic
import Mathlib.Data.List.Nodup

/-!
# `Ququmatz.Lib.Ledger`: resources that are acquired and given back

A `Ledger` keeps the resources that are live, and the history of what was acquired and
released. To release a resource that is not live is a stray: it is recorded, and the live
resources stay as they are.

`Since l₀ rel own l` compares two moments. Between `l₀` and `l` the resources `rel` were
released, in this order, the resources `own` were acquired and are still live, and nothing
else happened to the ledger. A piece of code that is to leave nothing behind keeps `Since`
with what it holds as `own`; when it has given back everything, `own` is empty.
-/

set_option autoImplicit false

namespace Ququmatz.Lib

/-- The live resources, and the histories of acquisitions and releases. -/
structure Ledger (ρ : Type) where
  live : List ρ
  /-- Everything that was acquired, oldest first. -/
  acquired : List ρ
  /-- Everything that was released, oldest first. -/
  released : List ρ
  /-- The releases of something that was not live. -/
  strays : List ρ
deriving DecidableEq, Repr

namespace Ledger

variable {ρ : Type}

def acquire (l : Ledger ρ) (r : ρ) : Ledger ρ :=
  { l with live := r :: l.live, acquired := l.acquired ++ [r] }

def release [DecidableEq ρ] (l : Ledger ρ) (r : ρ) : Ledger ρ :=
  if r ∈ l.live then { l with live := l.live.erase r, released := l.released ++ [r] }
  else { l with strays := l.strays ++ [r] }

/-- From `l₀` to `l` the resources `rel` were released and `own` were acquired and kept. -/
structure Since (l₀ : Ledger ρ) (rel own : List ρ) (l : Ledger ρ) : Prop where
  live : l.live.Perm (own ++ l₀.live)
  nodup : own.Nodup
  fresh : ∀ r ∈ own, r ∉ l₀.live
  acquired : ∃ acq, l.acquired = l₀.acquired ++ acq ∧ acq.Perm (rel ++ own)
  released : l.released = l₀.released ++ rel
  strays : l.strays = l₀.strays

namespace Since

variable {l₀ l₁ l : Ledger ρ} {rel rel' own own' : List ρ} {r : ρ}

theorem refl (l : Ledger ρ) : Since l [] [] l where
  live := List.Perm.refl _
  nodup := List.nodup_nil
  fresh := fun _ h => by cases h
  acquired := ⟨[], (List.append_nil _).symm, List.Perm.refl _⟩
  released := (List.append_nil _).symm
  strays := rfl

/-- What is owned is live. -/
theorem mem_live (h : Since l₀ rel own l) (hr : r ∈ own) : r ∈ l.live :=
  h.live.mem_iff.mpr (List.mem_append_left _ hr)

/-- The order of what is owned does not matter. -/
theorem perm (h : Since l₀ rel own l) (hp : own.Perm own') : Since l₀ rel own' l where
  live := h.live.trans (hp.append_right _)
  nodup := hp.nodup_iff.mp h.nodup
  fresh := fun r hr => h.fresh r (hp.mem_iff.mpr hr)
  acquired := by
    obtain ⟨acq, heq, hperm⟩ := h.acquired
    exact ⟨acq, heq, hperm.trans (hp.append_left _)⟩
  released := h.released
  strays := h.strays

theorem acquire (h : Since l₀ rel own l) (hr : r ∉ l.live) :
    Since l₀ rel (r :: own) (l.acquire r) where
  live := h.live.cons r
  nodup := List.nodup_cons.mpr ⟨fun hmem => hr (h.mem_live hmem), h.nodup⟩
  fresh := by
    intro x hx
    rcases List.mem_cons.mp hx with rfl | hx
    · exact fun hmem => hr (h.live.mem_iff.mpr (List.mem_append_right _ hmem))
    · exact h.fresh x hx
  acquired := by
    obtain ⟨acq, heq, hperm⟩ := h.acquired
    refine ⟨acq ++ [r], ?_, ?_⟩
    · show l.acquired ++ [r] = _
      rw [heq, List.append_assoc]
    · exact (List.perm_append_singleton r acq).trans
        ((hperm.cons r).trans List.perm_middle.symm)
  released := h.released
  strays := h.strays

theorem release [DecidableEq ρ] (h : Since l₀ rel own l) (hr : r ∈ own) :
    Since l₀ (rel ++ [r]) (own.erase r) (l.release r) := by
  have heq : l.release r
      = { l with live := l.live.erase r, released := l.released ++ [r] } :=
    if_pos (h.mem_live hr)
  rw [heq]
  refine ⟨?_, h.nodup.erase r, fun x hx => h.fresh x (List.mem_of_mem_erase hx), ?_, ?_, h.strays⟩
  · show (l.live.erase r).Perm _
    rw [← List.erase_append_left _ hr]
    exact h.live.erase r
  · obtain ⟨acq, hacq, hperm⟩ := h.acquired
    refine ⟨acq, hacq, ?_⟩
    rw [List.append_assoc]
    exact hperm.trans ((List.perm_cons_erase hr).append_left rel)
  · show l.released ++ [r] = _
    rw [h.released, List.append_assoc]

/-- Nothing is owned any more: what was live at first is live again, and everything acquired
was released once. -/
theorem done (h : Since l₀ rel [] l) :
    l.live.Perm l₀.live ∧ ∃ acq, l.acquired = l₀.acquired ++ acq ∧
      l.released = l₀.released ++ rel ∧ acq.Perm rel := by
  obtain ⟨acq, heq, hperm⟩ := h.acquired
  rw [List.append_nil] at hperm
  exact ⟨h.live, acq, heq, h.released, hperm⟩

end Since

end Ledger

end Ququmatz.Lib
