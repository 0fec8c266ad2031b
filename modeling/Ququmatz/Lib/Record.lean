import Ququmatz.Lib.Bytes

/-!
# `Ququmatz.Lib.Record`: records in memory

A record is written field by field, each at its offset, and the gaps between the fields stay as
they were. Where the fields are in order and share no byte, each is read back
(`load_storeAll_mem`). `foldl_view` is the rule for a part of a state that every operation
either sets or leaves alone: after any sequence it has the value that was set last.
-/

set_option autoImplicit false

namespace Ququmatz.Lib

namespace Bytes

/-- Write the fields of a record at `addr`, each at its offset. -/
def storeAll (m : Nat → UInt8) (addr : Nat) (fields : List (Nat × List UInt8)) : Nat → UInt8 :=
  fields.foldl (fun m f => store m (addr + f.1) f.2) m

/-- The fields are in order, and share no byte. -/
def FieldsApart (fields : List (Nat × List UInt8)) : Prop :=
  fields.Pairwise fun f g => f.1 + f.2.length ≤ g.1

/-- An element of an array ends before the next one starts. -/
theorem elem_end_le {size i j : Nat} (h : i < j) : size * i + size ≤ size * j := by
  rw [← Nat.mul_succ]
  exact Nat.mul_le_mul_left size h

/-- A record leaves alone what all of its fields leave alone. -/
theorem load_storeAll_disjoint {m : Nat → UInt8} {addr start len : Nat}
    {fields : List (Nat × List UInt8)}
    (h : ∀ f ∈ fields, start + len ≤ addr + f.1 ∨ addr + f.1 + f.2.length ≤ start) :
    load (storeAll m addr fields) start len = load m start len := by
  induction fields generalizing m with
  | nil => rfl
  | cons f fields ih =>
      have hrest := @ih (store m (addr + f.1) f.2) fun g hg => h g (List.mem_cons_of_mem _ hg)
      exact hrest.trans (load_store_disjoint (h f List.mem_cons_self))

/-- A field is read back: the fields after it lie above it. -/
theorem load_storeAll_mem {m : Nat → UInt8} {addr : Nat} {fields : List (Nat × List UInt8)}
    (hapart : FieldsApart fields) {f : Nat × List UInt8} (hf : f ∈ fields) :
    load (storeAll m addr fields) (addr + f.1) f.2.length = f.2 := by
  induction fields generalizing m with
  | nil => cases hf
  | cons g fields ih =>
      obtain ⟨habove, htail⟩ := List.pairwise_cons.mp hapart
      cases List.mem_cons.mp hf with
      | inl h =>
          subst h
          have hrest : load (storeAll (store m (addr + f.1) f.2) addr fields) (addr + f.1)
              f.2.length = load (store m (addr + f.1) f.2) (addr + f.1) f.2.length :=
            load_storeAll_disjoint fun g hg => Or.inl (by have := habove g hg; omega)
          exact hrest.trans (load_store_self m _ _)
      | inr h => exact ih htail h

end Bytes

/-- A part of the state that each operation sets or leaves alone has the value set last. -/
theorem foldl_view {σ ε β : Type} {step : σ → ε → σ} (view : σ → β) {sets : ε → Option β}
    (h : ∀ s e, view (step s e) = (sets e).getD (view s)) (es : List ε) (s : σ) :
    view (es.foldl step s) = ((es.filterMap sets).getLast?).getD (view s) := by
  induction es generalizing s with
  | nil => rfl
  | cons e es ih =>
      rw [List.foldl_cons, ih, h, List.filterMap_cons]
      cases sets e with
      | none => rfl
      | some b =>
          rw [List.getLast?_cons]
          rfl

end Ququmatz.Lib
