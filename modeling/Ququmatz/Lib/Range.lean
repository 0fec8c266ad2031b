import Mathlib.Logic.Basic
import Mathlib.Data.List.Forall2
import Mathlib.Data.Nat.Basic

/-!
# `Ququmatz.Lib.Range`: ranges of addresses

A range is a first address and a length. `Inside` is inclusion of the addresses
(`inside_iff`), so that an empty range is inside every range, and `Disjoint` says that two
ranges share no address. `slot` is one of the ranges of equal
size that a range is divided into: slots lie in the whole (`slot_end_le`) and do not overlap
(`slots_apart`), and so do their prefixes.
-/

set_option autoImplicit false

namespace Ququmatz.Lib

/-- The addresses from `start` to `start + len`. -/
structure Range where
  start : Nat
  len : Nat
deriving DecidableEq, Repr

namespace Range

/-- The address lies in the range. -/
def Has (r : Range) (a : Nat) : Prop := r.start ≤ a ∧ a < r.start + r.len

/-- All addresses of `r` are addresses of `s`. -/
def Inside (r s : Range) : Prop :=
  r.len = 0 ∨ (s.start ≤ r.start ∧ r.start + r.len ≤ s.start + s.len)

instance (r s : Range) : Decidable (r.Inside s) := inferInstanceAs (Decidable (_ ∨ _))

theorem inside_iff {r s : Range} : r.Inside s ↔ ∀ a, r.Has a → s.Has a := by
  constructor
  · rintro (h | h) a ⟨h1, h2⟩
    · omega
    · exact ⟨by omega, by omega⟩
  · intro h
    by_cases hlen : r.len = 0
    · exact Or.inl hlen
    · -- compare the first and the last address
      have hfirst := h r.start ⟨Nat.le_refl _, by omega⟩
      have hlast := h (r.start + (r.len - 1)) ⟨by omega, by omega⟩
      unfold Has at hfirst hlast
      right
      omega

theorem Inside.trans {r s t : Range} (hrs : r.Inside s) (hst : s.Inside t) : r.Inside t :=
  inside_iff.mpr fun a ha => inside_iff.mp hst a (inside_iff.mp hrs a ha)

/-- All of `named` lies in the memory `owned`, each range inside one range of it. -/
def AllInside (named owned : List Range) : Prop := ∀ r ∈ named, ∃ s ∈ owned, r.Inside s

instance (named owned : List Range) : Decidable (AllInside named owned) :=
  inferInstanceAs (Decidable (∀ r ∈ named, ∃ s ∈ owned, r.Inside s))

theorem allInside_append {xs ys owned : List Range} :
    AllInside (xs ++ ys) owned ↔ AllInside xs owned ∧ AllInside ys owned := by
  constructor
  · intro h
    exact ⟨fun r hr => h r (List.mem_append_left _ hr),
      fun r hr => h r (List.mem_append_right _ hr)⟩
  · rintro ⟨hx, hy⟩ r hr
    cases List.mem_append.mp hr with
    | inl hr => exact hx r hr
    | inr hr => exact hy r hr

theorem AllInside.concat {xs owned : List Range} {r s : Range} (h : AllInside xs owned)
    (hs : s ∈ owned) (hr : r.Inside s) : AllInside (xs ++ [r]) owned := by
  refine allInside_append.mpr ⟨h, fun x hx => ?_⟩
  rw [List.mem_singleton.mp hx]
  exact ⟨s, hs, hr⟩

/-- It is enough that each range is inside the one at its place. -/
theorem allInside_of_forall₂ {named owned : List Range} (h : List.Forall₂ Inside named owned) :
    AllInside named owned := by
  induction h with
  | nil => intro r hr; cases hr
  | @cons a b _ _ hin _ ih =>
      intro r hr
      cases hr with
      | head => exact ⟨b, List.mem_cons_self, hin⟩
      | tail _ hr =>
          obtain ⟨s, hs, hinside⟩ := ih r hr
          exact ⟨s, List.mem_cons_of_mem _ hs, hinside⟩

/-! ### Ranges that share no address -/

/-- The ranges share no address (`disjoint_iff`). An empty range shares none with any. -/
def Disjoint (r s : Range) : Prop :=
  r.len = 0 ∨ s.len = 0 ∨ r.start + r.len ≤ s.start ∨ s.start + s.len ≤ r.start

instance (r s : Range) : Decidable (r.Disjoint s) := inferInstanceAs (Decidable (_ ∨ _))

theorem disjoint_iff {r s : Range} : r.Disjoint s ↔ ∀ a, r.Has a → ¬ s.Has a := by
  constructor
  · intro h a hr hs
    obtain ⟨h1, h2⟩ := hr
    obtain ⟨h3, h4⟩ := hs
    unfold Disjoint at h
    omega
  · intro h
    by_cases hr : r.len = 0
    · exact Or.inl hr
    by_cases hs : s.len = 0
    · exact Or.inr (Or.inl hs)
    -- if neither ends before the other starts, they share the later of the two starts
    have hfirst := h r.start
    have hsecond := h s.start
    unfold Has at hfirst hsecond
    unfold Disjoint
    omega

theorem Disjoint.symm {r s : Range} (h : r.Disjoint s) : s.Disjoint r := by
  rw [disjoint_iff] at h ⊢
  exact fun a hs hr => h a hr hs

/-- What lies inside disjoint ranges is disjoint. -/
theorem Disjoint.inside {r r' s s' : Range} (h : r'.Disjoint s') (hr : r.Inside r')
    (hs : s.Inside s') : r.Disjoint s := by
  rw [disjoint_iff] at h ⊢
  rw [inside_iff] at hr hs
  exact fun a har has => h a (hr a har) (hs a has)

/-! ### Slots of equal size -/

/-- One of the ranges ends before the other starts. -/
def Apart (r s : Range) : Prop := r.start + r.len ≤ s.start ∨ s.start + s.len ≤ r.start

instance (r s : Range) : Decidable (r.Apart s) := inferInstanceAs (Decidable (_ ∨ _))

/-- `r` is where `s` starts, and no longer. -/
structure PrefixOf (r s : Range) : Prop where
  start : r.start = s.start
  len : r.len ≤ s.len

/-- Ranges that lie apart share no address. -/
theorem Apart.not_has {r s : Range} (h : r.Apart s) {a : Nat} (hr : r.Has a) : ¬ s.Has a := by
  intro hs
  obtain ⟨h1, h2⟩ := hr
  obtain ⟨h3, h4⟩ := hs
  cases h with
  | inl h => omega
  | inr h => omega

/-- Prefixes of ranges that lie apart lie apart. -/
theorem Apart.narrow {r r' s s' : Range} (h : r'.Apart s') (hr : r.PrefixOf r')
    (hs : s.PrefixOf s') : r.Apart s := by
  obtain ⟨hrs, hrl⟩ := hr
  obtain ⟨hss, hsl⟩ := hs
  unfold Apart at h ⊢
  omega

/-- Slot `i` of those of `size` bytes that start at `base`. -/
def slot (base size i : Nat) : Range := ⟨base + i * size, size⟩

/-- Slot `i` of `n` ends where all of them end, or before. -/
theorem slot_end_le (size : Nat) {i n : Nat} (h : i < n) : i * size + size ≤ n * size := by
  calc i * size + size = (i + 1) * size := by rw [Nat.succ_mul]
    _ ≤ n * size := Nat.mul_le_mul_right _ h

/-- Two slots do not overlap. -/
theorem slots_apart (base size : Nat) {i j : Nat} (h : i ≠ j) :
    (slot base size i).Apart (slot base size j) := by
  rcases Nat.lt_or_gt_of_ne h with hlt | hlt
  · left
    have hend := slot_end_le size hlt
    show base + i * size + size ≤ base + j * size
    omega
  · right
    have hend := slot_end_le size hlt
    show base + j * size + size ≤ base + i * size
    omega

end Range

end Ququmatz.Lib
