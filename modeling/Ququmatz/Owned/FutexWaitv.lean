import Ququmatz.Lib.Layout
import Ququmatz.Owned.MsgRegion
import Ququmatz.Owned.Submitter

/-!
# `Ququmatz.Owned.FutexWaitv`: waits on several futexes

`FutexWaitv` of `src/types/futex.rs`, and `PreparedFutexWaitv`, `PendingFutexWaitv` and
`FutexWaitvDone` of `src/owned/futexwaitv.rs`, over the memory of the process. The kernel reads an
array of waiters from the caller's storage.
-/

set_option autoImplicit false

namespace Ququmatz

open Lib

variable {w : Width}

/-- `FUTEX_WAITV_MAX`. -/
def FUTEX_WAITV_MAX : Nat := 128

abbrev Futex2Flags := Bitflags .futex2

/-- `FutexWaitv`. -/
structure FutexWaitv where
  val : UInt64
  uaddr : UInt64
  flags : UInt32
  reserved : UInt32
deriving DecidableEq, Repr

/-- `FutexWaitv` in memory, without a gap. -/
def FutexWaitv.layout [Native] : Layout FutexWaitv where
  size := 24
  align := 8
  fields := fun waiter =>
    [(0, u64Bytes waiter.val), (8, u64Bytes waiter.uaddr), (16, u32Bytes waiter.flags),
      (20, u32Bytes waiter.reserved)]
  load := fun bytes addr =>
    { val := u64Value (Bytes.load bytes addr 8)
      uaddr := u64Value (Bytes.load bytes (addr + 8) 8)
      flags := u32Value (Bytes.load bytes (addr + 16) 4)
      reserved := u32Value (Bytes.load bytes (addr + 20) 4) }
  apart := fun waiter => by simp [Bytes.FieldsApart]
  inside := fun waiter => by simp
  load_eq := fun waiter bytes addr h => by
    simp only [List.forall_mem_cons, length_u64Bytes, length_u32Bytes] at h
    obtain ⟨hval, huaddr, hflags, hreserved, -⟩ := h
    rw [Nat.add_zero] at hval
    rw [hval, huaddr, hflags, hreserved, u64Value_u64Bytes, u64Value_u64Bytes, u32Value_u32Bytes,
      u32Value_u32Bytes]

/-- `FutexWaitvError`. -/
inductive FutexWaitvError
  | arrayTooSmall (needed got : Nat)
  | arrayMisaligned (needed : Nat)
  | tooManyWaiters (got max : Nat)
  | noWaiters
deriving DecidableEq, Repr

/-- `PreparedFutexWaitv`. -/
structure PreparedFutexWaitv (w : Width) where
  array : Storage w
  count : Nat
  addr : Usize w

/-- `PendingFutexWaitv`. -/
structure PendingFutexWaitv (w : Width) where
  array : Storage w
  ring : RingId
  id : RequestId
  count : Nat
  addr : Usize w

/-- `FutexWaitvDone`. -/
structure FutexWaitvDone (w : Width) where
  array : Storage w
  id : RequestId
  result : Int32

/-- `Sqe::futex_waitv_ptr`. -/
def Sqe.futexWaitvPtr (waiters : UInt64) (count : UInt32) : Sqe :=
  { ZEROED with opcode := Opcode.futexWaitv.toU8, addr := waiters, len := count }

namespace PreparedFutexWaitv

/-- `PreparedFutexWaitv::new`. The size of a slice does not overflow. -/
def new [Native] (waiters : List FutexWaitv) (array : Storage w) (m : Memory) :
    Except (Storage w × FutexWaitvError) (PreparedFutexWaitv w) × Memory :=
  let count := waiters.length
  if count = 0 then (.error (array, .noWaiters), m)
  else if count > FUTEX_WAITV_MAX then (.error (array, .tooManyWaiters count FUTEX_WAITV_MAX), m)
  else
    let slice := FutexWaitv.layout.array count
    let needed := slice.size
    let got := array.len
    if got < needed then (.error (array, .arrayTooSmall needed got), m)
    else
      let base := array.addr
      let align := slice.align
      if base.toNat % align ≠ 0 then (.error (array, .arrayMisaligned align), m)
      else
        (.ok { array := array, count := count, addr := base },
          m.writeAll base.toNat (slice.fields waiters.get))

/-- `PreparedFutexWaitv::into_pending`. -/
def intoPending (self : PreparedFutexWaitv w) (ring : RingId) (id : RequestId) :
    Sqe × PendingFutexWaitv w :=
  let sqe := Sqe.futexWaitvPtr (UInt64.ofNat self.addr.toNat) (UInt32.ofNat self.count)
  (sqe.withUserData id.raw,
    { array := self.array, ring := ring, id := id, count := self.count, addr := self.addr })

end PreparedFutexWaitv

namespace PendingFutexWaitv

/-- `PendingFutexWaitv::reclaim_unsubmitted`. -/
def reclaimUnsubmitted (self : PendingFutexWaitv w) : PreparedFutexWaitv w where
  array := self.array
  count := self.count
  addr := self.addr

/-- `PendingFutexWaitv::redeem`. -/
def redeem (self : PendingFutexWaitv w) (receipt : Receipt) :
    Except (PendingFutexWaitv w × Receipt) (FutexWaitvDone w) :=
  if !receipt.belongsTo self.ring self.id then .error (self, receipt)
  else .ok { array := self.array, id := self.id, result := receipt.result }

end PendingFutexWaitv

end Ququmatz
