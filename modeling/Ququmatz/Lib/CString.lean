import Mathlib.Data.List.Basic
import Ququmatz.Lib.Bytes

/-!
# `Ququmatz.Lib.CString`: strings that a zero byte ends

`At m start s` says that the string `s` stands at `start`: its bytes, none of them zero, and a zero
byte behind them. It depends on no byte past its end (`At.congr`). A search for the first zero
byte of a range finds it (`findIdx?_load_eq_some_iff`), and storing a string and a zero byte makes
one (`at_store`).
-/

set_option autoImplicit false

namespace Ququmatz.Lib.CString

open Bytes

/-- The string `s` stands at `start`. -/
structure At (m : Nat → UInt8) (start : Nat) (s : List UInt8) : Prop where
  bytes : load m start s.length = s
  nonzero : ∀ b ∈ s, b ≠ 0
  ends : m (start + s.length) = 0

variable {m m' : Nat → UInt8} {start len n : Nat} {s s' : List UInt8}

/-- The empty string is a zero byte. -/
theorem at_nil_iff : At m start [] ↔ m start = 0 := by
  constructor
  · intro h
    exact h.ends
  · intro h
    exact ⟨rfl, fun b hb => absurd hb List.not_mem_nil, h⟩

/-- A longer string is its first byte and the string behind it. -/
theorem at_cons_iff {b : UInt8} :
    At m start (b :: s) ↔ m start = b ∧ b ≠ 0 ∧ At m (start + 1) s := by
  have hload : load m start (s.length + 1) = m start :: load m (start + 1) s.length := by
    rw [Nat.add_comm, load_add]
    rfl
  have hend : start + (b :: s).length = start + 1 + s.length := by
    rw [List.length_cons]
    omega
  constructor
  · intro h
    have hbytes := h.bytes
    rw [List.length_cons, hload] at hbytes
    obtain ⟨hhead, htail⟩ := List.cons.inj hbytes
    exact ⟨hhead, h.nonzero b List.mem_cons_self, htail,
      fun c hc => h.nonzero c (List.mem_cons_of_mem _ hc), hend ▸ h.ends⟩
  · rintro ⟨hhead, hb, h⟩
    refine ⟨?_, ?_, ?_⟩
    · rw [List.length_cons, hload, hhead, h.bytes]
    · intro c hc
      cases List.mem_cons.mp hc with
      | inl hc => rwa [hc]
      | inr hc => exact h.nonzero c hc
    · rw [hend]
      exact h.ends

/-- Only the bytes up to the zero byte matter. -/
theorem At.congr (h : At m start s) (hm : ∀ i ≤ s.length, m' (start + i) = m (start + i)) :
    At m' start s := by
  refine ⟨?_, h.nonzero, (hm _ (Nat.le_refl _)).trans h.ends⟩
  refine Eq.trans (List.map_congr_left fun i hi => ?_) h.bytes
  exact hm i (Nat.le_of_lt (List.mem_range.mp hi))

/-- A search for the first zero byte of a range. -/
theorem findIdx?_load_eq_some_iff :
    (load m start len).findIdx? (· == 0) = some n ↔ n < len ∧ At m start (load m start n) := by
  have hget : ∀ i, ∀ h : i < (load m start len).length, (load m start len)[i] = m (start + i) := by
    intro i h
    simp [load]
  -- both sides speak of the bytes before the position and of the byte at it
  rw [List.findIdx?_eq_some_iff_getElem]
  constructor
  · rintro ⟨hn, hzero, hbefore⟩
    have hlt : n < len := length_load m start len ▸ hn
    refine ⟨hlt, by rw [length_load], ?_, ?_⟩
    · intro b hb
      obtain ⟨i, hi, rfl⟩ := List.mem_map.mp hb
      have hne := hbefore i (List.mem_range.mp hi)
      rw [hget] at hne
      simpa using hne
    · rw [hget] at hzero
      rw [length_load]
      exact eq_of_beq hzero
  · rintro ⟨hlt, h⟩
    have hend := h.ends
    rw [length_load] at hend
    refine ⟨by rwa [length_load], by rw [hget, hend]; rfl, fun i hi => ?_⟩
    rw [hget]
    have hmem : m (start + i) ∈ load m start n :=
      List.mem_map.mpr ⟨i, List.mem_range.mpr hi, rfl⟩
    simpa using h.nonzero _ hmem

/-- The search finds nothing where there is no zero byte. -/
theorem findIdx?_load_eq_none_iff :
    (load m start len).findIdx? (· == 0) = none ↔ (0 : UInt8) ∉ load m start len := by
  rw [List.findIdx?_eq_none_iff]
  constructor
  · intro h hmem
    exact absurd (h 0 hmem) (by decide)
  · intro h b hb
    refine beq_eq_false_iff_ne.mpr fun hzero => ?_
    exact h (hzero ▸ hb)

/-- A string is made by storing its bytes and a zero byte behind them. -/
theorem at_store (hs : ∀ b ∈ s, b ≠ 0) :
    At (store (store m start s) (start + s.length) [0]) start s := by
  refine ⟨?_, hs, ?_⟩
  · rw [load_store_disjoint (Or.inl (Nat.le_refl _)), load_store_self]
  · have hzero := load_store_self (store m start s) (start + s.length) [0]
    exact (List.cons.inj hzero).1

end Ququmatz.Lib.CString
