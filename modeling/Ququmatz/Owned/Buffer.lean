import Ququmatz.Lib.Range
import Ququmatz.Types

/-!
# `Ququmatz.Owned.Buffer`: storage that keeps its address

The traits of `src/owned/buffer.rs`. What an implementor promises is a field of the class:
the bytes lie in the address space, and both pointers are one address. That the address is
constant for the owner's life needs no field, since it is a function of the value.
-/

set_option autoImplicit false

namespace Ququmatz

open Lib

/-- `StableBuffer`. -/
class StableBuffer (B : Type) where
  stablePtr : B → UInt64
  stableLen : B → Nat
  fits : ∀ b, (stablePtr b).toNat + stableLen b ≤ 2 ^ 64

/-- `StableBufferMut`. -/
class StableBufferMut (B : Type) extends StableBuffer B where
  stableMutPtr : B → UInt64
  mutPtr_eq : ∀ b, stableMutPtr b = stablePtr b

/-- The memory of a buffer. -/
def memoryOf {B : Type} [StableBuffer B] (b : B) : Range :=
  ⟨(StableBuffer.stablePtr b).toNat, StableBuffer.stableLen b⟩

/-- `MmapBuffer`: an anonymous mapping of `mapped` bytes, of which `len` are used. -/
structure MmapBuffer where
  addr : UInt64
  len : Nat
  mapped : Nat
  len_le : len ≤ mapped
  mapped_fits : addr.toNat + mapped ≤ 2 ^ 64

instance : StableBufferMut MmapBuffer where
  stablePtr := MmapBuffer.addr
  stableLen := MmapBuffer.len
  fits := fun b => Nat.le_trans (Nat.add_le_add_left b.len_le _) b.mapped_fits
  stableMutPtr := MmapBuffer.addr
  mutPtr_eq := fun _ => rfl

end Ququmatz
