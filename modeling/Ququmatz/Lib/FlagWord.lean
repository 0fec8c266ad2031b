import Mathlib.Data.Nat.Bitwise
import Mathlib.Logic.Function.Defs

/-!
# `Ququmatz.Lib.FlagWord`: words made by setting flags

A word is a natural number, a flag `k` has the bit `bit k`, and `mark` sets the flags of a list
one after the other. A bit of the result is set when it was set before or is the bit of a flag
of the list (`testBit_mark`). So where the flags have different bits, and the word had none of
them set, the word tells which flags were set (`mem_of_mark_eq`), whatever their order.
-/

set_option autoImplicit false

namespace Ququmatz.Lib.FlagWord

variable {K : Type}

/-- The word `w` with the flags of `ks` set. -/
def mark (bit : K → Nat) (w : Nat) (ks : List K) : Nat :=
  ks.foldl (fun w k => w ||| 2 ^ bit k) w

@[simp] theorem mark_nil (bit : K → Nat) (w : Nat) : mark bit w [] = w := rfl

@[simp] theorem mark_cons (bit : K → Nat) (w : Nat) (k : K) (ks : List K) :
    mark bit w (k :: ks) = mark bit (w ||| 2 ^ bit k) ks := rfl

/-- A flag is tested by masking its bit. -/
theorem and_two_pow_ne_zero (w i : Nat) : w &&& 2 ^ i ≠ 0 ↔ w.testBit i = true := by
  rw [Nat.and_two_pow]
  cases w.testBit i <;> simp

theorem testBit_mark (bit : K → Nat) (w : Nat) (ks : List K) (i : Nat) :
    (mark bit w ks).testBit i = (w.testBit i || ks.any fun k => bit k == i) := by
  induction ks generalizing w with
  | nil => simp
  | cons k ks ih =>
      rw [mark_cons, ih, Nat.testBit_or, Nat.testBit_two_pow, List.any_cons, Bool.or_assoc]
      rfl

/-- The bit of a flag, where no other flag has it and the word did not. -/
theorem testBit_mark_bit {bit : K → Nat} (hinj : Function.Injective bit) {w : Nat} (k : K)
    (hw : w.testBit (bit k) = false) (ks : List K) :
    (mark bit w ks).testBit (bit k) = true ↔ k ∈ ks := by
  rw [testBit_mark, hw, Bool.false_or, List.any_eq_true]
  constructor
  · rintro ⟨k', hmem, heq⟩
    have hk : k' = k := hinj (by simpa using heq)
    rwa [hk] at hmem
  · intro hmem
    exact ⟨k, hmem, by simp⟩

/-- A word made from one without flags tells which flags were set. -/
theorem mem_of_mark_eq {bit : K → Nat} (hinj : Function.Injective bit) {w w' : Nat}
    (hw : ∀ k, w.testBit (bit k) = false) (hw' : ∀ k, w'.testBit (bit k) = false)
    {ks ks' : List K} (h : mark bit w ks = mark bit w' ks') (k : K) : k ∈ ks ↔ k ∈ ks' := by
  rw [← testBit_mark_bit hinj k (hw k) ks, h, testBit_mark_bit hinj k (hw' k) ks']

end Ququmatz.Lib.FlagWord
