import Mathlib.Data.List.GetD

/-!
# `Ququmatz.Lib.Bytes`: loads and stores of byte ranges

A memory is a function from addresses to bytes. `load` reads a range as a list, `store`
writes a list; a load sees the bytes of a store to its own range (`load_store_self`) and
nothing of a store beside it (`load_store_disjoint`).
-/

set_option autoImplicit false

namespace Ququmatz.Lib.Bytes

/-- The bytes of the range `[start, start + len)`. -/
def load (m : Nat → UInt8) (start len : Nat) : List UInt8 :=
  (List.range len).map fun i => m (start + i)

/-- Write bytes from `start` on. -/
def store (m : Nat → UInt8) (start : Nat) (data : List UInt8) : Nat → UInt8 := fun a =>
  if start ≤ a ∧ a < start + data.length then data.getD (a - start) 0 else m a

@[simp] theorem load_zero (m : Nat → UInt8) (start : Nat) : load m start 0 = [] := rfl

theorem store_outside {m : Nat → UInt8} {start a : Nat} {data : List UInt8}
    (h : a < start ∨ start + data.length ≤ a) : store m start data a = m a :=
  if_neg (by omega)

theorem load_store_self (m : Nat → UInt8) (start : Nat) (data : List UInt8) :
    load (store m start data) start data.length = data := by
  refine List.ext_getElem (by simp [load]) fun i h1 h2 => ?_
  have hin : start ≤ start + i ∧ start + i < start + data.length := by omega
  simp only [load, List.getElem_map, List.getElem_range, store, if_pos hin]
  rw [Nat.add_sub_cancel_left, List.getD_eq_getElem _ _ h2]

theorem load_store_disjoint {m : Nat → UInt8} {start len pos : Nat} {data : List UInt8}
    (h : start + len ≤ pos ∨ pos + data.length ≤ start) :
    load (store m pos data) start len = load m start len := by
  refine List.map_congr_left fun i hi => store_outside ?_
  have := List.mem_range.mp hi
  omega

@[simp] theorem length_load (m : Nat → UInt8) (start len : Nat) :
    (load m start len).length = len := by
  simp [load]

/-- A load splits at any place. -/
theorem load_add (m : Nat → UInt8) (start a b : Nat) :
    load m start (a + b) = load m start a ++ load m (start + a) b := by
  simp [load, List.range_add, Nat.add_assoc]

/-- A part of a load. -/
theorem load_part (m : Nat → UInt8) (start : Nat) {len off n : Nat} (h : off + n ≤ len) :
    load m (start + off) n = ((load m start len).drop off).take n := by
  obtain ⟨rest, rfl⟩ := Nat.exists_eq_add_of_le h
  rw [Nat.add_assoc, load_add, load_add, List.drop_left' (length_load _ _ _),
    List.take_left' (length_load _ _ _)]

/-- A store at the start of what is loaded; the rest is as it was. -/
theorem load_store_start {m : Nat → UInt8} {start len : Nat} {data : List UInt8}
    (h : data.length ≤ len) :
    load (store m start data) start len = data ++ (load m start len).drop data.length := by
  obtain ⟨rest, rfl⟩ := Nat.exists_eq_add_of_le h
  rw [load_add, load_add, load_store_self, load_store_disjoint (Or.inr (Nat.le_refl _)),
    List.drop_left' (length_load _ _ _)]

/-- Storing zeros into zeros changes nothing. -/
theorem store_zeros (start n : Nat) :
    store (fun _ => 0) start (List.replicate n 0) = fun _ => 0 := by
  funext a
  by_cases h : start ≤ a ∧ a < start + (List.replicate n (0 : UInt8)).length
  · rw [store, if_pos h]
    cases hz : (List.replicate n (0 : UInt8))[a - start]? with
    | none => simp [hz]
    | some x => simp [hz, List.eq_of_mem_replicate (List.mem_of_getElem? hz)]
  · exact if_neg h

end Ququmatz.Lib.Bytes
