import Ququmatz.Pool.Register

/-!
# `Ququmatz.Pool.Producer`: a pool's producer ring and the kernel that consumes it

The transition system of one registered pool that is not incremental. The kernel has a
16-bit head of its own. It compares the head with the published tail, which is the reserved
half-word of entry `0`, and takes the buffer that the entry at the masked head names. The
application writes descriptors with `recycle` and publishes them with `commit`, one at a
time or in batches.

`ProducerSys` also records the ids that the kernel took and those that were recycled since
the registration. `disciplined` is the discipline of a caller: an id is recycled only when
the kernel has taken it more often than it was recycled.
-/

set_option autoImplicit false

namespace Ququmatz

/-- A pool, the kernel's head, and what went through the producer ring. -/
structure ProducerSys where
  pool : ProvidedBufferRing
  head : UInt16
  /-- The ids that the kernel took, oldest first. -/
  taken : List UInt16
  /-- The ids that the application recycled, oldest first. -/
  recycled : List UInt16

/-- A step of the application or of the kernel. -/
inductive ProducerStep
  /-- The kernel takes the buffer at its head. -/
  | consume
  | recycle (bufId : UInt16)
  /-- `recycle_raw`, as its callers call it: with the address and the length of the slot. -/
  | recycleRaw (bufId : UInt16)
  | recycleAndCommit (bufId : UInt16)
  | commit
deriving DecidableEq, Repr

namespace ProducerSys

/-- The published tail. -/
def tail (s : ProducerSys) : UInt16 := (s.pool.ring 0).resv

/-- The entry of the producer ring at a 16-bit index. -/
def entryAt (s : ProducerSys) (index : UInt16) : IoUringBuf :=
  s.pool.ring (index.toUInt32 &&& s.pool.mask).toNat

/-- The `n` entries from an index on. -/
def entriesFrom (s : ProducerSys) (index : UInt16) (n : Nat) : List IoUringBuf :=
  (List.range n).map fun i => s.entryAt (index + UInt16.ofNat i)

/-- The entries from the kernel's head to the published tail. -/
def window (s : ProducerSys) : List IoUringBuf := s.entriesFrom s.head (s.tail - s.head).toNat

/-- The entries that are written and not yet published. -/
def batch (s : ProducerSys) : List IoUringBuf :=
  s.entriesFrom s.tail (s.pool.tailLocal.toUInt16 - s.tail).toNat

/-- How often the application holds an id: taken and not recycled, or recycled in a batch
that it has not published. -/
def held (s : ProducerSys) (bufId : UInt16) : Nat :=
  (s.taken.count bufId - s.recycled.count bufId) + (s.batch.map IoUringBuf.bid).count bufId

/-- The pool after the application gave `bufId` back. -/
def gaveBack (s : ProducerSys) (bufId : UInt16) (pool : ProvidedBufferRing) : ProducerSys :=
  { s with pool := pool, recycled := s.recycled ++ [bufId] }

/-- The effect of a step; `none` when there is nothing to take, or when `recycle` panics. -/
def step (s : ProducerSys) : ProducerStep → Option ProducerSys
  | .consume =>
      if s.head = s.tail then none
      else some { s with head := s.head + 1, taken := s.taken ++ [(s.entryAt s.head).bid] }
  | .recycle bufId => (s.pool.recycle bufId).toOption.map (s.gaveBack bufId)
  | .recycleRaw bufId =>
      some (s.gaveBack bufId
        (s.pool.recycleRaw (s.pool.slotAddr bufId.toNat) s.pool.bufSize bufId))
  | .recycleAndCommit bufId => (s.pool.recycleAndCommit bufId).toOption.map (s.gaveBack bufId)
  | .commit => some { s with pool := s.pool.commit }

/-- A run of the system. -/
def run : List ProducerStep → ProducerSys → Option ProducerSys
  | [], s => some s
  | a :: as, s => (s.step a).bind (run as)

/-- A step that recycles an id does so at most once for each time the kernel took it. -/
def entitled (s : ProducerSys) : ProducerStep → Bool
  | .recycle bufId | .recycleRaw bufId | .recycleAndCommit bufId =>
      decide (s.recycled.count bufId < s.taken.count bufId)
  | _ => true

/-- Every step of a run is one that the application is entitled to. -/
def disciplined : List ProducerStep → ProducerSys → Bool
  | [], _ => true
  | a :: as, s =>
      s.entitled a &&
        match s.step a with
        | some s' => disciplined as s'
        | none => true

/-- A pool as it was registered; the kernel starts at index `0`. -/
def init (pool : ProvidedBufferRing) : ProducerSys := ⟨pool, 0, [], []⟩

/-- The invariant of the producer ring. -/
structure Law (s : ProducerSys) : Prop where
  /-- The kernel can see no id twice. -/
  nodup : (s.window.map IoUringBuf.bid).Nodup
  /-- What it can see describes a slot of the pool. -/
  slot : ∀ e ∈ s.window, e.bid.toUInt32 < s.pool.entries ∧ e.len = s.pool.bufSize ∧
    e.addr = s.pool.slotAddr e.bid.toNat
  /-- Each slot is with the kernel or with the application, once. -/
  account : ∀ bufId : UInt16, bufId.toUInt32 < s.pool.entries →
    (s.window.map IoUringBuf.bid).count bufId + s.held bufId = 1

end ProducerSys

end Ququmatz
