import Ququmatz.Lib.Record

/-!
# `Ququmatz.Lib.Layout`: how a value lies in memory

A `Layout` gives the fields of a value with their offsets, and how the value is read back. Its
laws are that the fields share no byte, lie in the first `size` bytes, and determine the value.
`Stands` says that a value lies at an address. It holds after the value is stored
(`stands_store`), and until one of its `size` bytes changes (`Stands.congr`). `raw` and `array`
are the layouts of bytes and of arrays, `pair` puts one value right behind another, and `iso` is
the layout of the same values under other names. A layout is `Exact` if all bytes are those of some
value.
-/

set_option autoImplicit false

namespace Ququmatz.Lib

/-- How a value lies in memory. -/
structure Layout (V : Type) where
  size : Nat
  align : Nat
  fields : V → List (Nat × List UInt8)
  load : (Nat → UInt8) → Nat → V
  apart : ∀ v, Bytes.FieldsApart (fields v)
  inside : ∀ v, ∀ f ∈ fields v, f.1 + f.2.length ≤ size
  load_eq : ∀ v bytes addr,
    (∀ f ∈ fields v, Bytes.load bytes (addr + f.1) f.2.length = f.2) → load bytes addr = v

namespace Layout

variable {V : Type} (L : Layout V)

/-- The value lies at the address. Gaps between its fields may hold anything. -/
def Stands (bytes : Nat → UInt8) (addr : Nat) (v : V) : Prop :=
  ∀ f ∈ L.fields v, Bytes.load bytes (addr + f.1) f.2.length = f.2

variable {L} {bytes bytes' : Nat → UInt8} {addr : Nat} {v : V}

theorem stands_store (L : Layout V) (bytes : Nat → UInt8) (addr : Nat) (v : V) :
    L.Stands (Bytes.storeAll bytes addr (L.fields v)) addr v :=
  fun _ hf => Bytes.load_storeAll_mem (L.apart v) hf

theorem Stands.load_eq (h : L.Stands bytes addr v) : L.load bytes addr = v :=
  L.load_eq v bytes addr h

theorem Stands.congr (h : L.Stands bytes addr v)
    (heq : ∀ a, addr ≤ a → a < addr + L.size → bytes' a = bytes a) :
    L.Stands bytes' addr v := by
  intro f hf
  have hinside := L.inside v f hf
  refine Eq.trans (List.map_congr_left fun i hi => ?_) (h f hf)
  have := List.mem_range.mp hi
  exact heq _ (by omega) (by omega)

end Layout

/-- The layout of plain bytes. -/
def Layout.raw (n : Nat) : Layout { bs : List UInt8 // bs.length = n } where
  size := n
  align := 1
  fields := fun bs => [(0, bs.val)]
  load := fun bytes addr => ⟨Bytes.load bytes addr n, Bytes.length_load _ _ _⟩
  apart := fun bs => List.pairwise_singleton _ _
  inside := fun bs f hf => by
    rw [List.mem_singleton.mp hf, bs.property]
    exact Nat.le_of_eq (Nat.zero_add n)
  load_eq := fun bs bytes addr h => by
    have hload := h (0, bs.val) (List.mem_singleton_self _)
    rw [Nat.add_zero, bs.property] at hload
    exact Subtype.ext hload

/-- The layout of an array: one element after the other. -/
def Layout.array {V : Type} (L : Layout V) (n : Nat) : Layout (Fin n → V) where
  size := L.size * n
  align := L.align
  fields := fun v =>
    (List.finRange n).flatMap fun i => (L.fields (v i)).map fun f => (L.size * i + f.1, f.2)
  load := fun bytes addr i => L.load bytes (addr + L.size * i)
  apart := fun v => by
    refine List.pairwise_flatMap.mpr ⟨fun i _ => ?_, ?_⟩
    · refine List.pairwise_map.mpr ((L.apart (v i)).imp fun h => ?_)
      dsimp only
      omega
    · -- the fields of an element end before the next one starts
      refine (List.pairwise_lt_finRange n).imp fun {i j} hij f hf g hg => ?_
      obtain ⟨f', hf', rfl⟩ := List.mem_map.mp hf
      obtain ⟨g', hg', rfl⟩ := List.mem_map.mp hg
      have hinside := L.inside (v i) f' hf'
      have hend : L.size * i + L.size ≤ L.size * j := Bytes.elem_end_le hij
      dsimp only
      omega
  inside := fun v f hf => by
    -- a field lies in its element, and an element in the array
    obtain ⟨i, -, hmem⟩ := List.mem_flatMap.mp hf
    obtain ⟨f', hf', rfl⟩ := List.mem_map.mp hmem
    have hinside := L.inside (v i) f' hf'
    have hend : L.size * i + L.size ≤ L.size * n := Bytes.elem_end_le i.isLt
    dsimp only
    omega
  load_eq := fun v bytes addr h => by
    funext i
    refine L.load_eq (v i) bytes _ fun f hf => ?_
    rw [Nat.add_assoc]
    exact h (L.size * i + f.1, f.2)
      (List.mem_flatMap.mpr ⟨i, List.mem_finRange i, List.mem_map.mpr ⟨f, hf, rfl⟩⟩)

/-- The layout of a value and another one right behind it. -/
def Layout.pair {V W : Type} (L : Layout V) (M : Layout W) : Layout (V × W) where
  size := L.size + M.size
  align := max L.align M.align
  fields := fun v => L.fields v.1 ++ (M.fields v.2).map fun f => (L.size + f.1, f.2)
  load := fun bytes addr => (L.load bytes addr, M.load bytes (addr + L.size))
  apart := fun v => by
    refine List.pairwise_append.mpr ⟨L.apart v.1, ?_, fun f hf g hg => ?_⟩
    · refine List.pairwise_map.mpr ((M.apart v.2).imp fun h => ?_)
      dsimp only
      omega
    · -- the fields of the first end before the second starts
      obtain ⟨g', -, rfl⟩ := List.mem_map.mp hg
      have hinside := L.inside v.1 f hf
      dsimp only
      omega
  inside := fun v f hf => by
    rcases List.mem_append.mp hf with hf | hf
    · have hinside := L.inside v.1 f hf
      omega
    · obtain ⟨f', hf', rfl⟩ := List.mem_map.mp hf
      have hinside := M.inside v.2 f' hf'
      dsimp only
      omega
  load_eq := fun v bytes addr h => by
    refine Prod.ext (L.load_eq v.1 bytes addr fun f hf => h f (List.mem_append_left _ hf)) ?_
    refine M.load_eq v.2 bytes _ fun f hf => ?_
    rw [Nat.add_assoc]
    exact h (L.size + f.1, f.2) (List.mem_append_right _ (List.mem_map.mpr ⟨f, hf, rfl⟩))

/-- The layout of values that are those of `L` under other names. -/
def Layout.iso {V W : Type} (L : Layout V) (parts : W → V) (build : V → W)
    (build_parts : ∀ x, build (parts x) = x) : Layout W where
  size := L.size
  align := L.align
  fields := fun x => L.fields (parts x)
  load := fun bytes addr => build (L.load bytes addr)
  apart := fun x => L.apart (parts x)
  inside := fun x => L.inside (parts x)
  load_eq := fun x bytes addr h => by rw [L.load_eq (parts x) bytes addr h, build_parts]

/-! ### Layouts without gaps -/

section Exact

variable {V W : Type} {L : Layout V} {M : Layout W} {bytes : Nat → UInt8} {addr : Nat}

theorem Layout.stands_pair {v : V × W} : (L.pair M).Stands bytes addr v ↔
    L.Stands bytes addr v.1 ∧ M.Stands bytes (addr + L.size) v.2 := by
  constructor
  · intro h
    refine ⟨fun f hf => h f (List.mem_append_left _ hf), fun f hf => ?_⟩
    rw [Nat.add_assoc]
    exact h (L.size + f.1, f.2) (List.mem_append_right _ (List.mem_map.mpr ⟨f, hf, rfl⟩))
  · rintro ⟨hL, hM⟩ f hf
    rcases List.mem_append.mp hf with hf | hf
    · exact hL f hf
    · obtain ⟨g, hg, rfl⟩ := List.mem_map.mp hf
      have hword := hM g hg
      rw [Nat.add_assoc] at hword
      exact hword

/-- Whatever lies in memory is a value. -/
def Layout.Exact (L : Layout V) : Prop := ∀ bytes addr, L.Stands bytes addr (L.load bytes addr)

theorem Layout.Exact.pair (hL : L.Exact) (hM : M.Exact) : (L.pair M).Exact :=
  fun bytes addr => Layout.stands_pair.mpr ⟨hL bytes addr, hM bytes (addr + L.size)⟩

theorem Layout.Exact.iso (hL : L.Exact) {parts : W → V} {build : V → W}
    {build_parts : ∀ x, build (parts x) = x} (parts_build : ∀ v, parts (build v) = v) :
    (L.iso parts build build_parts).Exact := by
  intro bytes addr f hf
  have hfields : f ∈ L.fields (parts (build (L.load bytes addr))) := hf
  rw [parts_build] at hfields
  exact hL bytes addr f hfields

end Exact

end Ququmatz.Lib
