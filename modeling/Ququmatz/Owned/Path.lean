import Ququmatz.Owned.MsgRegion

/-!
# `Ququmatz.Owned.Path`: paths that the kernel reads up to a zero byte

`OwnedPath` of `src/owned/path.rs` over the memory of the process: storage of the caller with the
length of the path in it. `kernelPath` is how the kernel reads a path. It is told an address and
no length.
-/

set_option autoImplicit false

namespace Ququmatz

open Lib

/-- `PathError`. -/
inductive PathError
  | notTerminated
  | empty
  | tooLong (needed got : Nat)
deriving DecidableEq, Repr

/-- `OwnedPath`. -/
structure OwnedPath (w : Width) where
  storage : Storage w
  len : Nat

namespace OwnedPath

variable {w : Width}

/-- `OwnedPath::copy_into`. A slice is at most `isize::MAX` bytes long, so that the length with
the terminator does not overflow. -/
def copyInto (storage : Storage w) (path : List UInt8) (m : Memory) :
    Except (Storage w × PathError) (OwnedPath w) × Memory :=
  if path.isEmpty then (.error (storage, .empty), m)
  else if path.contains 0 then (.error (storage, .notTerminated), m)
  else
    let needed := path.length + 1
    let got := storage.len
    if got < needed then (.error (storage, .tooLong needed got), m)
    else
      let base := storage.addr
      let m := m.write base.toNat path
      let m := m.write (base.toNat + path.length) [0]
      (.ok { storage := storage, len := path.length }, m)

/-- `OwnedPath::adopt`. -/
def adopt (storage : Storage w) (m : Memory) :
    Except (Storage w × PathError) (OwnedPath w) × Memory :=
  let len := storage.len
  let (bytes, m) := m.read storage.addr.toNat len
  match bytes.findIdx? (· == 0) with
  | none => (.error (storage, .notTerminated), m)
  | some 0 => (.error (storage, .empty), m)
  | some n => (.ok { storage := storage, len := n }, m)

/-- `OwnedPath::as_bytes`. -/
def asBytes (self : OwnedPath w) (m : Memory) : List UInt8 :=
  Bytes.load m.bytes self.storage.addr.toNat self.len

/-- `OwnedPath::stable_ptr`. -/
def stablePtr (self : OwnedPath w) : Usize w := self.storage.addr

/-- `OwnedPath::into_storage`. -/
def intoStorage (self : OwnedPath w) : Storage w := self.storage

end OwnedPath

/-- The kernel reads a path byte after byte, up to the zero byte. It gives up after `fuel`
bytes. -/
def kernelPath : Nat → Memory → Nat → Option (List UInt8) × Memory
  | 0, m, _ => (none, m)
  | fuel + 1, m, addr =>
      let (byte, m) := m.read addr 1
      if byte = [0] then (some [], m)
      else
        let (rest, m) := kernelPath fuel m (addr + 1)
        (rest.map (byte ++ ·), m)

end Ququmatz
