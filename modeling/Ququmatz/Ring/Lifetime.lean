import Ququmatz.Ring.Setup
import Ququmatz.Ring.System

/-!
# `Ququmatz.Ring.Lifetime`: the handles of one ring, over its resources

Every handle of a ring holds a share of the page of its `RingResources`: the `IoUring`, after
`split` the two halves, and every provided-buffer pool. `Life` is the process of `Ring.Os`
with the handles that are live. A step makes or drops a handle, or unregisters a buffer group,
and a call of the kernel that can fail may do so.

The programs are those of `Ring.Basic`, `Ring.System` and `Pool.Register`. There `retain`,
`release` and the store to the CQ head are single accesses, and `Access.onOs` and
`PoolCall.onOs` carry them out on the process, call by call.
-/

set_option autoImplicit false

namespace Ququmatz

open Lib

/-- The accesses by which the `IoUring` and its halves are split and dropped. The other
accesses are not made there. -/
def Access.onOs (resources cqRing : Nat) : (a : Access) → OsProg (Option a.Ans)
  | .retain => do
      RingResources.retainAt resources
      return some ()
  | .release => do
      RingResources.releaseAt resources
      return some ()
  | .storeCqHead _ => do
      call (.storeCqHead cqRing)
      return some ()
  | .loadSqHead => return none
  | .storeSqTail _ => return none
  | .loadSqFlags => return none
  | .writeSqe _ _ => return none
  | .loadCqTail => return none
  | .readCqe _ => return none
  | .enter _ _ _ _ => return none

/-- The calls of a registration. -/
def PoolCall.onOs (resources : Nat) : (c : PoolCall) → OsProg c.Ans
  | .mmap len => call (.mmap len .anonymous)
  | .munmap addr len => call (.munmap addr len)
  | .register fd reg => call (.registerPbufRing fd reg)
  | .retain => RingResources.retainAt resources

/-- `register_provided_buffers_on`, on the ring that `resources` points to. -/
def registerOn (usizeBits resources : Nat) (bgid : UInt16) (count bufSize : UInt32)
    (flags : PbufRingFlags) : OsProg (Except Error ProvidedBufferRing) := do
  let fd ← RingResources.fdAt resources
  (registerProvidedBuffersOn usizeBits fd bgid count bufSize flags).translate
    (PoolCall.onOs resources)

/-- `IoUring::unregister_provided_buffers`. -/
def IoUring.unregisterProvidedBuffers (self : IoUring) (bgid : UInt16) :
    OsProg (Except Error Unit) := do
  match ← call (.unregisterPbufRing self.fd bgid) with
  | .error e => return .error (.syscall e)
  | .ok _ => return .ok ()

/-- `Drop for ProvidedBufferRing`, for a pool of the ring that `resources` points to. The
kernel looks the registration up by the group id. -/
def ProvidedBufferRing.dropOn (resources : Nat) (self : ProvidedBufferRing) : OsProg Unit := do
  let _ ← call (.unregisterPbufRing self.fd self.bgid)
  let _ ← call (.munmap self.bufsAddr self.bufsBytes)
  let _ ← call (.munmap self.ringAddr self.ringBytes)
  RingResources.releaseAt resources

/-! ### The transition system -/

/-- A live pool, and whether its group id was explicitly unregistered since it was made. -/
structure LivePool where
  pool : ProvidedBufferRing
  revoked : Bool

/-- The process and the handles of one of its rings. -/
structure Life where
  os : Os
  /-- The page of the ring's `RingResources`. -/
  resources : Nat
  cqRing : Nat
  handles : Handles
  pools : List LivePool

/-- A step, with the kernel's answers to its calls. -/
inductive LifeAction
  | split (rs : List OsRound)
  | dropRing (rs : List OsRound)
  | dropSubmitter (rs : List OsRound)
  | dropCompleter (rs : List OsRound)
  /-- `register_provided_buffers`, or with `PbufRingFlags.INC` `register_incremental_buffers`,
  of the `IoUring` or the `Submitter`. -/
  | register (bgid : UInt16) (count bufSize : UInt32) (flags : PbufRingFlags) (rs : List OsRound)
  | unregister (bgid : UInt16) (rs : List OsRound)
  /-- Drop the pool at index `i`. -/
  | dropPool (i : Nat) (rs : List OsRound)

namespace Life

/-- A ring that `from_params` returned. -/
def start (os : Os) (r : OsRing) : Life where
  os := os
  resources := r.resources
  cqRing := r.cqRingPtr
  handles := .whole r.ring
  pools := []

/-- The number of live handles. -/
def shares (s : Life) : Nat := s.pools.length + s.handles.live

/-- Run a program of the `IoUring` or its halves. -/
def exec {α : Type} (s : Life) (p : Option (RingProg (α × Handles))) (rs : List OsRound) :
    Option Life :=
  p.bind fun p =>
    ((p.translateSome (Access.onOs s.resources s.cqRing)).run osMachine rs s.os).bind fun x =>
      x.1.map fun y => { s with os := x.2, handles := y.2 }

/-- The pools of a group lose their registration. -/
def revoke (pools : List LivePool) (bgid : UInt16) : List LivePool :=
  pools.map fun x => if x.pool.bgid = bgid then { x with revoked := true } else x

variable (usizeBits : Nat)

/-- The effect of a step. -/
def step (s : Life) : LifeAction → Option Life
  | .split rs => s.exec s.handles.split rs
  | .dropRing rs => s.exec s.handles.dropRing rs
  | .dropSubmitter rs => s.exec s.handles.dropSubmitter rs
  | .dropCompleter rs => s.exec s.handles.dropCompleter rs
  | .register bgid count bufSize flags rs =>
      if s.handles.sqSubmitted.isSome then
        ((registerOn usizeBits s.resources bgid count bufSize flags).run osMachine rs s.os).map
          fun x =>
            match x.1 with
            | .ok pool => { s with os := x.2, pools := s.pools ++ [⟨pool, false⟩] }
            | .error _ => { s with os := x.2 }
      else none
  | .unregister bgid rs =>
      match s.handles with
      | .whole r =>
          ((r.unregisterProvidedBuffers bgid).run osMachine rs s.os).map fun x =>
            match x.1 with
            | .ok () => { s with os := x.2, pools := revoke s.pools bgid }
            | .error _ => { s with os := x.2 }
      | _ => none
  | .dropPool i rs =>
      s.pools[i]?.bind fun x =>
        ((x.pool.dropOn s.resources).run osMachine rs s.os).map fun y =>
          { s with os := y.2, pools := s.pools.eraseIdx i }

/-- A run of the system. -/
def run : List LifeAction → Life → Option Life
  | [], s => some s
  | a :: as, s => (s.step usizeBits a).bind (run as)

/-! ### The registrations of the pools -/

/-- Every live pool has its registration under its group id, unless the group id was
explicitly unregistered since the pool was made. -/
def Kept (s : Life) : Prop :=
  ∀ x ∈ s.pools, x.revoked = false →
    s.os.groups x.pool.fd x.pool.bgid = some (UInt64.ofNat x.pool.ringAddr)

instance (s : Life) : Decidable s.Kept :=
  inferInstanceAs (Decidable (∀ x ∈ s.pools, x.revoked = false →
    s.os.groups x.pool.fd x.pool.bgid = some (UInt64.ofNat x.pool.ringAddr)))

/-- A drop of a pool whose group id is not that of another live pool with a registration. -/
def DropsApart (s : Life) : LifeAction → Prop
  | .dropPool i _ => ∀ x, s.pools[i]? = some x →
      ∀ y ∈ s.pools.eraseIdx i, y.revoked = false → y.pool.bgid ≠ x.pool.bgid
  | _ => True

/-- Every drop of the run is apart. -/
def ApartRun : List LifeAction → Life → Prop
  | [], _ => True
  | a :: as, s => ∀ s', s.step usizeBits a = some s' → s.DropsApart a ∧ ApartRun as s'

end Life

end Ququmatz
