import Mathlib.Logic.Function.Basic
import Ququmatz.Lib.Layout
import Ququmatz.Lib.Range

/-!
# `Ququmatz.Lib.Cells`: typed cells in the memory of bytes

A family of cells, each with an address, a type and a layout, of which no two share a byte. A memory
of bytes `Shows` values of the cells. A load of a cell gives its value (`Shows.load`), and a store
changes the value of its cell and of no other (`Shows.store`), so that the memory can be thought of
as a function from cells to values.
-/

set_option autoImplicit false

namespace Ququmatz.Lib

/-- What is stored with a layout changes no byte beside it. -/
theorem Layout.store_outside {V : Type} (L : Layout V) (bytes : Nat → UInt8) (addr : Nat) (v : V)
    {a : Nat} (h : a < addr ∨ addr + L.size ≤ a) :
    Bytes.storeAll bytes addr (L.fields v) a = bytes a := by
  have hload : Bytes.load (Bytes.storeAll bytes addr (L.fields v)) a 1 = Bytes.load bytes a 1 := by
    refine Bytes.load_storeAll_disjoint fun f hf => ?_
    have hinside := L.inside v f hf
    omega
  have hbyte := List.cons.inj hload
  simpa using hbyte.1

/-- Cells in memory. -/
structure Cells (ι : Type) where
  Val : ι → Type
  layout : (c : ι) → Layout (Val c)
  addr : ι → Nat
  /-- The cells that there are. -/
  Valid : ι → Prop
  apart : ∀ c d, Valid c → Valid d → c ≠ d →
    Range.Disjoint ⟨addr c, (layout c).size⟩ ⟨addr d, (layout d).size⟩

namespace Cells

variable {ι : Type} (C : Cells ι)

def load (bytes : Nat → UInt8) (c : ι) : C.Val c := (C.layout c).load bytes (C.addr c)

def store (bytes : Nat → UInt8) (c : ι) (x : C.Val c) : Nat → UInt8 :=
  Bytes.storeAll bytes (C.addr c) ((C.layout c).fields x)

/-- The values lie in memory. -/
def Shows (bytes : Nat → UInt8) (v : (c : ι) → C.Val c) : Prop :=
  ∀ c, C.Valid c → (C.layout c).Stands bytes (C.addr c) (v c)

variable {C} {bytes : Nat → UInt8} {v : (c : ι) → C.Val c}

theorem Shows.load (h : C.Shows bytes v) {c : ι} (hc : C.Valid c) : C.load bytes c = v c :=
  (h c hc).load_eq

/-- A store to a cell changes no byte beside it. -/
theorem store_outside (bytes : Nat → UInt8) (c : ι) (x : C.Val c) {a : Nat}
    (h : ¬ Range.Has ⟨C.addr c, (C.layout c).size⟩ a) : C.store bytes c x a = bytes a := by
  have hnot : ¬ (C.addr c ≤ a ∧ a < C.addr c + (C.layout c).size) := h
  exact (C.layout c).store_outside bytes (C.addr c) x (by omega)

theorem Shows.store [DecidableEq ι] (h : C.Shows bytes v) {c : ι} (hc : C.Valid c)
    (x : C.Val c) : C.Shows (C.store bytes c x) (Function.update v c x) := by
  intro d hd
  by_cases hdc : d = c
  · subst hdc
    rw [Function.update_self]
    exact (C.layout d).stands_store bytes (C.addr d) x
  · rw [Function.update_of_ne hdc]
    -- the bytes of the other cell are beside this one
    exact (h d hd).congr fun a hle hlt =>
      store_outside bytes c x (Range.disjoint_iff.mp (C.apart d c hd hc hdc) a ⟨hle, hlt⟩)

end Cells

end Ququmatz.Lib
