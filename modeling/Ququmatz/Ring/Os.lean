import Ququmatz.Lib.Ledger
import Ququmatz.Pool.Register
import Ququmatz.Ring.Resources

/-!
# `Ququmatz.Ring.Os`: the process and its kernel resources

The system calls by which the crate comes to own something, and gives it back: `mmap` and
`munmap`, `io_uring_setup` and `close`, and the registration of a buffer group. `Os` is the
process as far as they are concerned: a ledger of its mappings and descriptors, the pages
that hold a `RingResources`, and the buffer groups of each ring.

The kernel chooses its answers. An `mmap` that succeeds has a length and lies apart from
every live mapping, an `io_uring_setup` that succeeds gives a descriptor that was not open,
and a group id takes one registration at a time. To unmap or close what is live succeeds.
Everything else is recorded: the calls that failed, the releases of what is not live (the
strays of the ledger), and the uses of a page that is not mapped or a descriptor that is not
open (`faults`).
-/

set_option autoImplicit false

namespace Ququmatz

open Lib

/-- `IoSqringOffsets`, as far as the setup reads it. -/
structure IoSqringOffsets where
  array : UInt32
  userAddr : UInt64
deriving DecidableEq, Repr

/-- `IoCqringOffsets`, as far as the setup reads it. -/
structure IoCqringOffsets where
  cqes : UInt32
  userAddr : UInt64
deriving DecidableEq, Repr

/-- `IoUringParams`, as far as the setup reads it. -/
structure IoUringParams where
  sqEntries : UInt32
  cqEntries : UInt32
  flags : UInt32
  features : UInt32
  sqOff : IoSqringOffsets
  cqOff : IoCqringOffsets
deriving DecidableEq, Repr

/-- `RingOffset`, the parts of a ring that can be mapped from its descriptor. -/
inductive RingOffset
  | sqRing
  | cqRing
  | sqes
deriving DecidableEq, Repr

/-- What a mapping shows: fresh pages, or a part of a ring. -/
inductive Backing
  | anonymous
  | ring (fd : RawFd) (offset : RingOffset)
deriving DecidableEq, Repr

/-- What `parse_sq` and `parse_cq` read from the mapped rings. -/
structure ParsedRings where
  sqMask : UInt32
  sqTailLocal : UInt32
  cqMask : UInt32
  cqHeadLocal : UInt32
deriving DecidableEq, Repr

/-- The system calls, and the accesses to memory that the calls below depend on. -/
inductive OsCall
  /-- `mmap` at an address of the kernel's choice. -/
  | mmap (len : Nat) (backing : Backing)
  | munmap (addr len : Nat)
  | close (fd : RawFd)
  | ioUringSetup (entries : UInt32) (params : IoUringParams)
  /-- `io_uring_register` with `RegisterPbufRing`. -/
  | registerPbufRing (fd : RawFd) (reg : IoUringBufReg)
  /-- `io_uring_register` with `UnregisterPbufRing`. -/
  | unregisterPbufRing (fd : RawFd) (bgid : UInt16)
  /-- The loads of `parse_sq` and `parse_cq`, and the fill of the SQ array. -/
  | parseRings (sqRing cqRing : Nat) (params : IoUringParams) (hasSqArray : Bool)
  /-- The store to the CQ head in the mapping at `cqRing`. -/
  | storeCqHead (cqRing : Nat)
  /-- Write a `RingResources` into its page. -/
  | writePage (ptr : Nat) (resources : RingResources)
  /-- Read a field of the `RingResources` in a page. -/
  | readPage (ptr : Nat)
  | fetchAdd (ptr : Nat)
  | fetchSub (ptr : Nat)
deriving DecidableEq, Repr

/-- The answer type of each call. The two atomic operations return the count before. -/
def OsCall.Ans : OsCall → Type
  | .mmap _ _ => Except Errno Nat
  | .munmap _ _ => Except Errno Nat
  | .close _ => Except Errno Nat
  | .ioUringSetup _ _ => Except Errno (RawFd × IoUringParams)
  | .registerPbufRing _ _ => Except Errno Nat
  | .unregisterPbufRing _ _ => Except Errno Nat
  | .parseRings _ _ _ _ => ParsedRings
  | .storeCqHead _ => Unit
  | .writePage _ _ => Unit
  | .readPage _ => RingResources
  | .fetchAdd _ => Nat
  | .fetchSub _ => Nat

/-- The signature of the programs that manage resources. -/
abbrev osSig : Sig := ⟨OsCall, OsCall.Ans⟩

abbrev OsProg := Prog osSig

/-- The program that makes one call. -/
def call (c : OsCall) : OsProg c.Ans := Prog.lift (S := osSig) c

/-- What a process can own of the kernel. -/
inductive Resource
  | mapping (region : MappedRegion)
  | file (fd : RawFd)
deriving DecidableEq, Repr

/-- The process. -/
structure Os where
  ledger : Ledger Resource
  /-- The contents of the pages that hold a `RingResources`, by address. -/
  pages : Nat → RingResources
  /-- The address of the buffer ring registered under a group id, for each ring. -/
  groups : RawFd → UInt16 → Option UInt64
  /-- The calls that the kernel answered with an error. -/
  denied : List Errno
  /-- How often an unmapped page or a closed descriptor was used. -/
  faults : Nat

/-- The answer of the kernel to one call. -/
inductive OsReply
  /-- The call fails. -/
  | fail (e : Errno)
  /-- A mapping at `addr`. -/
  | mapped (addr : Nat)
  /-- A ring, with the parameters that the kernel filled in. -/
  | ring (fd : RawFd) (params : IoUringParams)
  /-- The contents of the mapped rings. -/
  | parsed (rings : ParsedRings)
  /-- The call, or the access, does what it is for. -/
  | done
deriving DecidableEq, Repr

namespace Os

/-- The region shares no byte with a live mapping. -/
def apart (os : Os) (region : MappedRegion) : Bool :=
  os.ledger.live.all fun r =>
    match r with
    | .mapping m => decide (m.addr + m.len ≤ region.addr ∨ region.addr + region.len ≤ m.addr)
    | .file _ => true

/-- The address lies in a live mapping. -/
def isMapped (os : Os) (addr : Nat) : Bool :=
  os.ledger.live.any fun r =>
    match r with
    | .mapping m => decide (m.addr ≤ addr ∧ addr < m.addr + m.len)
    | .file _ => false

def isOpen (os : Os) (fd : RawFd) : Bool := decide (.file fd ∈ os.ledger.live)

/-- There is something to map. -/
def backed (os : Os) : Backing → Bool
  | .anonymous => true
  | .ring fd _ => os.isOpen fd

def acquire (os : Os) (r : Resource) : Os := { os with ledger := os.ledger.acquire r }

def release (os : Os) (r : Resource) : Os := { os with ledger := os.ledger.release r }

/-- A call was answered with an error. -/
def deny (os : Os) (e : Errno) : Os := { os with denied := os.denied ++ [e] }

/-- A use of something that should be there. -/
def require (os : Os) (present : Bool) : Os :=
  if present then os else { os with faults := os.faults + 1 }

/-- Put a registration into the group table, or take it out. -/
def setGroup (os : Os) (fd : RawFd) (bgid : UInt16) (reg : Option UInt64) : Os :=
  { os with groups := fun f b => if f = fd ∧ b = bgid then reg else os.groups f b }

/-- Change the count in a page. -/
def setPage (os : Os) (ptr : Nat) (resources : RingResources) : Os :=
  { os with pages := Function.update os.pages ptr resources }

/-- To give back what is live succeeds. -/
def giveBack (os : Os) (r : Resource) : OsReply → Option (Except Errno Nat × Os)
  | .done => some (.ok 0, os.release r)
  | .fail e => if r ∈ os.ledger.live then none else some (.error e, os.release r)
  | _ => none

/-- The meaning of the calls. -/
def access (c : OsCall) (reply : OsReply) (os : Os) : Option (c.Ans × Os) :=
  match c with
  | .mmap len backing =>
      match reply with
      | .fail e => some (.error e, os.deny e)
      | .mapped addr =>
          if 0 < len ∧ os.apart ⟨addr, len⟩ = true ∧ os.backed backing = true then
            some (.ok addr, os.acquire (.mapping ⟨addr, len⟩))
          else none
      | _ => none
  | .munmap addr len => os.giveBack (.mapping ⟨addr, len⟩) reply
  | .close fd => os.giveBack (.file fd) reply
  | .ioUringSetup _ _ =>
      match reply with
      | .fail e => some (.error e, os.deny e)
      | .ring fd params =>
          if os.isOpen fd then none
          else
            -- A new ring has no buffer groups.
            some (.ok (fd, params), { os.acquire (.file fd) with
              groups := fun f b => if f = fd then none else os.groups f b })
      | _ => none
  | .registerPbufRing fd reg =>
      let os := os.require (os.isOpen fd)
      match reply with
      | .fail e => some (.error e, os.deny e)
      | .done =>
          if os.isOpen fd = true ∧ os.groups fd reg.bgid = none then
            some (.ok 0, os.setGroup fd reg.bgid (some reg.ringAddr))
          else none
      | _ => none
  | .unregisterPbufRing fd bgid =>
      let os := os.require (os.isOpen fd)
      let registered := os.isOpen fd && (os.groups fd bgid).isSome
      match reply with
      | .fail e => if registered then none else some (.error e, os.deny e)
      | .done => if registered then some (.ok 0, os.setGroup fd bgid none) else none
      | _ => none
  | .parseRings sqRing cqRing _ _ =>
      match reply with
      | .parsed rings => some (rings, os.require (os.isMapped sqRing && os.isMapped cqRing))
      | _ => none
  | .storeCqHead cqRing =>
      match reply with
      | .done => some ((), os.require (os.isMapped cqRing))
      | _ => none
  | .writePage ptr resources =>
      match reply with
      | .done => some ((), (os.require (os.isMapped ptr)).setPage ptr resources)
      | _ => none
  | .readPage ptr =>
      match reply with
      | .done => some (os.pages ptr, os.require (os.isMapped ptr))
      | _ => none
  | .fetchAdd ptr =>
      match reply with
      | .done =>
          some ((os.pages ptr).refcount,
            (os.require (os.isMapped ptr)).setPage ptr (os.pages ptr).retain)
      | _ => none
  | .fetchSub ptr =>
      match reply with
      | .done =>
          some ((os.pages ptr).refcount,
            (os.require (os.isMapped ptr)).setPage ptr (os.pages ptr).released)
      | _ => none

end Os

/-- The calls over the process. Nobody else acts on its resources meanwhile. -/
abbrev osMachine : Machine osSig where
  State := Os
  Env := Empty
  env := fun e _ => e.elim
  Reply := OsReply
  access := Os.access

/-- The answer to one call. -/
abbrev OsRound := Round osMachine

/-- The kernel's answers to a sequence of calls. -/
def answers (replies : List OsReply) : List OsRound := replies.map fun reply => ⟨[], reply⟩

end Ququmatz
