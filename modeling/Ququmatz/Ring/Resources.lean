import Ququmatz.Types

/-!
# `Ququmatz.Ring.Resources`: the shared, reference-counted ring resources

`RingResources` of `src/ring/resources.rs`: the page that holds the reference count, the
ring descriptor and the mapped regions, and the system calls its last owner makes.
-/

set_option autoImplicit false

namespace Ququmatz

/-- A mapped memory region. -/
structure MappedRegion where
  addr : Nat
  len : Nat
deriving DecidableEq, Repr

/-- The system calls that give a resource back. -/
inductive Syscall
  | munmap (region : MappedRegion)
  | close (fd : RawFd)
deriving DecidableEq, Repr

/-- `RingResources`. -/
structure RingResources where
  refcount : Nat
  fd : RawFd
  sqRing : MappedRegion
  /-- Of length `0` when the completion ring shares the mapping of the submission ring. -/
  cqRing : MappedRegion
  sqesRegion : MappedRegion
  selfPage : MappedRegion
deriving DecidableEq, Repr

namespace RingResources

/-- `RingResources::retain`. -/
def retain (self : RingResources) : RingResources :=
  { self with refcount := self.refcount + 1 }

/-- The count after `RingResources::release`. -/
def released (self : RingResources) : RingResources :=
  { self with refcount := self.refcount - 1 }

/-- The system calls of `RingResources::release`: none, unless the count was one. -/
def cleanup (self : RingResources) : List Syscall :=
  if self.refcount ≠ 1 then []
  else
    [.munmap self.sqesRegion] ++
      (if self.cqRing.len > 0 then [.munmap self.cqRing] else []) ++
      [.munmap self.sqRing, .close self.fd, .munmap self.selfPage]

end RingResources

end Ququmatz
