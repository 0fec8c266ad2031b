import Mathlib.Algebra.Group.Nat.Defs

/-!
# `Ququmatz.Lib.FlagExpr`: values made from named flags

A flag type has constants and the operators of a bit set. A `FlagExpr` is a value as it is written
with them. Each bit is computed on its own (`IsBit.eval`), so that a bit that no constant has
depends on the shape of the expression alone: it is set exactly when the expression is `inverted`
(`IsBit.eval_unnamed`), and then all such bits are set. So a word with a bit that is free has
only bits of its names exactly when it is not inverted (`IsWord.named_iff`).
-/

set_option autoImplicit false

namespace Ququmatz.Lib

/-- An expression over named flags. -/
inductive FlagExpr {F : Type} (names : List F)
  | name (flag : F) (named : flag ∈ names)
  | empty
  | or (a b : FlagExpr names)
  | and (a b : FlagExpr names)
  | not (a : FlagExpr names)

namespace FlagExpr

variable {F : Type} {names : List F}

/-- The value of the expression. -/
def eval [EmptyCollection F] [OrOp F] [AndOp F] [Complement F] : FlagExpr names → F
  | .name flag _ => flag
  | .empty => ∅
  | .or a b => a.eval ||| b.eval
  | .and a b => a.eval &&& b.eval
  | .not a => ~~~a.eval

/-- One bit of the value, from this bit of the names. -/
def evalBit (bit : F → Bool) : FlagExpr names → Bool
  | .name flag _ => bit flag
  | .empty => false
  | .or a b => a.evalBit bit || b.evalBit bit
  | .and a b => a.evalBit bit && b.evalBit bit
  | .not a => !a.evalBit bit

/-- The complement is taken, and nothing masks it off again. -/
def inverted : FlagExpr names → Bool := evalBit fun _ => false

/-- A bit that no name has. -/
theorem evalBit_unnamed {bit : F → Bool} (h : ∀ flag ∈ names, bit flag = false)
    (e : FlagExpr names) : e.evalBit bit = e.inverted := by
  induction e with
  | name flag named => exact h flag named
  | empty => rfl
  | or a b iha ihb =>
      rw [evalBit, iha, ihb]
      rfl
  | and a b iha ihb =>
      rw [evalBit, iha, ihb]
      rfl
  | not a ih =>
      rw [evalBit, ih]
      rfl

/-- The operators act on this bit by itself. -/
structure IsBit [EmptyCollection F] [OrOp F] [AndOp F] [Complement F] (bit : F → Bool) :
    Prop where
  empty : bit ∅ = false
  or : ∀ a b, bit (a ||| b) = (bit a || bit b)
  and : ∀ a b, bit (a &&& b) = (bit a && bit b)
  not : ∀ a, bit (~~~a) = !bit a

section

variable [EmptyCollection F] [OrOp F] [AndOp F] [Complement F] {bit : F → Bool}

theorem IsBit.eval (h : IsBit bit) (e : FlagExpr names) : bit e.eval = e.evalBit bit := by
  induction e with
  | name flag named => rfl
  | empty => exact h.empty
  | or a b iha ihb => rw [FlagExpr.eval, h.or, iha, ihb, evalBit]
  | and a b iha ihb => rw [FlagExpr.eval, h.and, iha, ihb, evalBit]
  | not a ih => rw [FlagExpr.eval, h.not, ih, evalBit]

theorem IsBit.eval_unnamed (h : IsBit bit) (hnames : ∀ flag ∈ names, bit flag = false)
    (e : FlagExpr names) : bit e.eval = e.inverted :=
  (h.eval e).trans (evalBit_unnamed hnames e)

/-- Flags are kept in a word of `n` bits. -/
structure IsWord (n : Nat) (word : F → Nat) : Prop where
  lt : ∀ flag, word flag < 2 ^ n
  bit : ∀ i, i < n → IsBit fun flag => (word flag).testBit i

/-- It is enough that the operators are those of a bit vector. -/
theorem IsWord.of_bitVec {n : Nat} (word : F → BitVec n) (hempty : word ∅ = 0#n)
    (hor : ∀ a b, word (a ||| b) = word a ||| word b)
    (hand : ∀ a b, word (a &&& b) = word a &&& word b) (hnot : ∀ a, word (~~~a) = ~~~word a) :
    IsWord n fun flag => (word flag).toNat where
  lt := fun flag => (word flag).isLt
  bit := fun i hi =>
    { empty := by rw [hempty, BitVec.testBit_toNat, BitVec.getLsbD_zero]
      or := fun a b => by
        rw [hor, BitVec.testBit_toNat, BitVec.getLsbD_or]
        rfl
      and := fun a b => by
        rw [hand, BitVec.testBit_toNat, BitVec.getLsbD_and]
        rfl
      not := fun a => by
        -- the bit lies in the word, so that the complement has it
        rw [hnot, BitVec.testBit_toNat, BitVec.getLsbD_not, decide_eq_true hi, Bool.true_and]
        rfl }

/-- Where a bit of the word is free, only bits of names are set exactly when the value is not
inverted. -/
theorem IsWord.named_iff {n : Nat} {word : F → Nat} (h : IsWord n word) {free : Nat}
    (hfree : free < n) (hnames : ∀ flag ∈ names, (word flag).testBit free = false)
    (e : FlagExpr names) :
    (∀ i, (word e.eval).testBit i = true → ∃ flag ∈ names, (word flag).testBit i = true) ↔
      e.inverted = false := by
  constructor
  · intro hset
    -- an inverted value has the free bit, which is no bit of a name
    rw [← (h.bit free hfree).eval_unnamed hnames e]
    refine Bool.eq_false_iff.mpr fun hbit => ?_
    obtain ⟨flag, hmem, hflag⟩ := hset free hbit
    rw [hnames flag hmem] at hflag
    cases hflag
  · intro he i hbit
    have hi : i < n := by
      refine Decidable.byContradiction fun hge => ?_
      have hlt : word e.eval < 2 ^ i :=
        Nat.lt_of_lt_of_le (h.lt _) (Nat.pow_le_pow_right (by decide) (Nat.le_of_not_lt hge))
      rw [Nat.testBit_lt_two_pow hlt] at hbit
      cases hbit
    refine Decidable.byContradiction fun hno => ?_
    have hunnamed : ∀ flag ∈ names, (word flag).testBit i = false :=
      fun flag hmem => Bool.eq_false_iff.mpr fun hflag => hno ⟨flag, hmem, hflag⟩
    have heval := (h.bit i hi).eval_unnamed hunnamed e
    rw [he] at heval
    rw [heval] at hbit
    cases hbit

end

end FlagExpr

end Ququmatz.Lib
