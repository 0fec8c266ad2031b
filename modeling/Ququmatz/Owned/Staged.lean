import Ququmatz.Owned.MsgRegion
import Ququmatz.Owned.Outcome
import Ququmatz.Owned.Submitter
import Ququmatz.Lib.Layout

/-!
# `Ququmatz.Owned.Staged`: requests that stage one parameter

`ValuePrepared` and `ValuePending` of `src/owned/staged_value.rs` and `StagedPrepared` and
`StagedPending` of `src/owned/staged_addr.rs` over the memory of the process, with the operations
that use them: timeouts and `epoll_ctl` stage an aligned value, `bind` and `connect` the bytes of
a socket address. A trait of the source is a structure here, and an implementation is a value
of it.
-/

set_option autoImplicit false

namespace Ququmatz

open Lib

variable {w : Width}

/-! ### One aligned value -/

/-- `ValueOp`. The layout of a value is its size, its alignment and its bytes. -/
structure ValueOp where
  Context : Type
  Info : Type
  Value : Type
  Outcome : Type
  Error : Type
  layout : Layout Value
  tooSmall : Nat → Nat → Error
  misaligned : Nat → Error
  value : Context → Value
  buildSqe : Context → UInt64 → Sqe
  info : Context → Info
  classify : Bool → Int32 → Option Outcome

/-- `ValuePrepared`. -/
structure ValuePrepared (w : Width) (Op : ValueOp) where
  store : Storage w
  ctx : Op.Context
  addr : Usize w

/-- `ValuePending`. -/
structure ValuePending (w : Width) (Op : ValueOp) where
  store : Storage w
  ring : RingId
  id : RequestId
  ctx : Op.Context
  addr : Usize w

/-- `ValueDone`. -/
structure ValueDone (w : Width) (Op : ValueOp) where
  store : Storage w
  info : Op.Info
  id : RequestId
  result : Int32

namespace ValuePrepared

variable {Op : ValueOp}

/-- `ValuePrepared::publish`. -/
def publish (self : ValuePrepared w Op) (m : Memory) : Memory :=
  m.writeAll self.addr.toNat (Op.layout.fields (Op.value self.ctx))

/-- `ValuePrepared::new`. -/
def new (ctx : Op.Context) (store : Storage w) (m : Memory) :
    Except (Storage w × Op.Error) (ValuePrepared w Op) × Memory :=
  let needed := Op.layout.size
  let got := store.len
  if got < needed then (.error (store, Op.tooSmall needed got), m)
  else
    let base := store.addr
    let align := Op.layout.align
    if base.toNat % align ≠ 0 then (.error (store, Op.misaligned align), m)
    else
      let prepared : ValuePrepared w Op := { store := store, ctx := ctx, addr := base }
      (.ok prepared, prepared.publish m)

/-- `ValuePrepared::into_pending`. -/
def intoPending (self : ValuePrepared w Op) (ring : RingId) (id : RequestId) :
    Sqe × ValuePending w Op :=
  let sqe := Op.buildSqe self.ctx (UInt64.ofNat self.addr.toNat)
  (sqe.withUserData id.raw,
    { store := self.store, ring := ring, id := id, ctx := self.ctx, addr := self.addr })

end ValuePrepared

namespace ValuePending

variable {Op : ValueOp}

/-- `ValuePending::reclaim_unsubmitted`. -/
def reclaimUnsubmitted (self : ValuePending w Op) : ValuePrepared w Op where
  store := self.store
  ctx := self.ctx
  addr := self.addr

/-- `ValuePending::redeem`. -/
def redeem (self : ValuePending w Op) (receipt : Receipt) :
    Except (ValuePending w Op × Receipt) (ValueDone w Op) :=
  if !receipt.belongsTo self.ring self.id then .error (self, receipt)
  else
    .ok
      { store := self.store
        info := Op.info self.ctx
        id := self.id
        result := receipt.result }

end ValuePending

/-- `ValueDone::into_parts`. -/
def ValueDone.intoParts {Op : ValueOp} (checked : Bool) (self : ValueDone w Op) :
    Option Op.Outcome × Storage w := (Op.classify checked self.result, self.store)

/-! ### Timeouts -/

abbrev TimeoutFlags := Bitflags .timeout

/-- `Timespec`. -/
structure Timespec where
  tvSec : Int64
  tvNsec : Int64
deriving DecidableEq, Repr

/-- `Timespec` in memory: two words of eight bytes. -/
def Timespec.layout [Native] : Layout Timespec where
  size := 16
  align := 8
  fields := fun ts => [(0, u64Bytes ts.tvSec.toUInt64), (8, u64Bytes ts.tvNsec.toUInt64)]
  load := fun bytes addr =>
    { tvSec := (u64Value (Bytes.load bytes addr 8)).toInt64
      tvNsec := (u64Value (Bytes.load bytes (addr + 8) 8)).toInt64 }
  apart := fun ts => by simp [Bytes.FieldsApart]
  inside := fun ts => by simp
  load_eq := fun ts bytes addr h => by
    simp only [List.forall_mem_cons, length_u64Bytes] at h
    obtain ⟨hsec, hnsec, -⟩ := h
    rw [Nat.add_zero] at hsec
    rw [hsec, hnsec, u64Value_u64Bytes, u64Value_u64Bytes, Int64.toInt64_toUInt64,
      Int64.toInt64_toUInt64]

/-- `Count`. -/
inductive Count
  | timer
  | completions (n : UInt32)
deriving DecidableEq, Repr

/-- `Count::raw`. -/
def Count.raw : Count → UInt64
  | .timer => 0
  | .completions n => n.toUInt64

/-- `TimeoutError`. -/
inductive TimeoutError
  | storeTooSmall (needed got : Nat)
  | storeMisaligned (needed : Nat)
deriving DecidableEq, Repr

/-- `TimeoutCtx`. -/
structure TimeoutCtx where
  duration : Timespec
  count : Count
  flags : TimeoutFlags
deriving DecidableEq, Repr

/-- `Sqe::timeout_ptr`: `len` is the number of timespecs. -/
def Sqe.timeoutPtr (ts : UInt64) (count : UInt32) (flags : TimeoutFlags) : Sqe :=
  { ZEROED with
    opcode := Opcode.timeout.toU8, addr := ts, len := 1, off := count.toUInt64,
    opFlags := flags.bits }

/-- `TimeoutOp`. -/
def TimeoutOp [Native] : ValueOp where
  Context := TimeoutCtx
  Info := Count
  Value := Timespec
  Outcome := Expiry
  Error := TimeoutError
  layout := Timespec.layout
  tooSmall := .storeTooSmall
  misaligned := .storeMisaligned
  value := TimeoutCtx.duration
  buildSqe := fun ctx addr => Sqe.timeoutPtr addr ctx.count.raw.toUInt32 ctx.flags
  info := TimeoutCtx.count
  classify := Expiry.fromRaw

/-! ### Changes of an epoll set -/

abbrev EpollEvents := Bitflags .epollEvents

/-- `EpollOp`. -/
inductive EpollOp
  | add
  | del
  | mod
deriving DecidableEq, Repr

/-- The kernel's number of an operation. -/
def EpollOp.toU32 : EpollOp → UInt32
  | .add => 1
  | .del => 2
  | .mod => 3

/-- `EpollEvent`. -/
structure EpollEvent where
  events : UInt32
  data : UInt64
deriving DecidableEq, Repr

/-- `EpollEvent` in memory. It is packed on `x86_64`; elsewhere there is a gap after `events`. -/
def EpollEvent.layout [Native] (packed : Bool) : Layout EpollEvent where
  size := if packed then 12 else 16
  align := if packed then 1 else 8
  fields := fun event =>
    [(0, u32Bytes event.events), (if packed then 4 else 8, u64Bytes event.data)]
  load := fun bytes addr =>
    { events := u32Value (Bytes.load bytes addr 4)
      data := u64Value (Bytes.load bytes (addr + if packed then 4 else 8) 8) }
  apart := fun event => by cases packed <;> simp [Bytes.FieldsApart]
  inside := fun event => by cases packed <;> simp
  load_eq := fun event bytes addr h => by
    simp only [List.forall_mem_cons, length_u64Bytes, length_u32Bytes] at h
    obtain ⟨hevents, hdata, -⟩ := h
    rw [Nat.add_zero] at hevents
    rw [hevents, hdata, u32Value_u32Bytes, u64Value_u64Bytes]

/-- `EpollChange`. -/
inductive EpollChange
  | add (events : EpollEvents) (data : UInt64)
  | mod (events : EpollEvents) (data : UInt64)
  | del
deriving DecidableEq, Repr

namespace EpollChange

/-- `EpollChange::op`. -/
def op : EpollChange → EpollOp
  | .add _ _ => .add
  | .mod _ _ => .mod
  | .del => .del

/-- `EpollChange::event`. -/
def event : EpollChange → EpollEvent
  | .add events data => ⟨events.bits, data⟩
  | .mod events data => ⟨events.bits, data⟩
  | .del => ⟨0, 0⟩

end EpollChange

/-- `EpollError`. -/
inductive EpollError
  | storeTooSmall (needed got : Nat)
  | storeMisaligned (needed : Nat)
deriving DecidableEq, Repr

/-- `EpollCtx`. -/
structure EpollCtx where
  epoll : RawFd
  target : RawFd
  change : EpollChange
deriving DecidableEq, Repr

/-- `Sqe::epoll_ctl_ptr`. -/
def Sqe.epollCtlPtr (epfd : RawFd) (op : EpollOp) (fd : RawFd) (event : UInt64) : Sqe :=
  { ZEROED with
    opcode := Opcode.epollCtl.toU8, fd := epfd.asI32, off := fd.asI32.toInt64.toUInt64,
    addr := event, len := op.toU32 }

/-- `EpollCtlOp`. -/
def EpollCtlOp [Native] (packed : Bool) : ValueOp where
  Context := EpollCtx
  Info := EpollChange
  Value := EpollEvent
  Outcome := EpollOutcome
  Error := EpollError
  layout := EpollEvent.layout packed
  tooSmall := .storeTooSmall
  misaligned := .storeMisaligned
  value := fun ctx => ctx.change.event
  buildSqe := fun ctx addr => Sqe.epollCtlPtr ctx.epoll ctx.change.op ctx.target addr
  info := EpollCtx.change
  classify := EpollOutcome.fromRaw

/-! ### One socket address -/

/-- `SockAddrIn::to_bytes`. The last eight bytes are zero, whatever `sin_zero` holds. -/
def SockAddrIn.stagedBytes [Native] (self : SockAddrIn) : List UInt8 :=
  u16Bytes self.sinFamily ++ u16Bytes self.sinPort ++ u32Bytes self.sinAddr ++ List.replicate 8 0

/-- `ADDR_LEN`. -/
def ADDR_LEN : Nat := sizeofSockAddrIn

/-- `ADDR_LEN_U32`. -/
def ADDR_LEN_U32 : UInt32 := 16

/-- `AddrOp`. -/
structure AddrOp where
  Outcome : Type
  Error : Type
  tooSmall : Nat → Nat → Error
  buildSqe : RawFd → UInt64 → UInt32 → Sqe
  classify : Bool → Int32 → Option Outcome

/-- `StagedPrepared`. -/
structure StagedPrepared (w : Width) (Op : AddrOp) where
  store : Storage w
  fd : RawFd
  addr : SockAddrIn
  staged : Usize w

/-- `StagedPending`. -/
structure StagedPending (w : Width) (Op : AddrOp) where
  store : Storage w
  ring : RingId
  id : RequestId
  fd : RawFd
  addr : SockAddrIn
  staged : Usize w

/-- `StagedDone`. -/
structure StagedDone (w : Width) (Op : AddrOp) where
  store : Storage w
  addr : SockAddrIn
  id : RequestId
  result : Int32

namespace StagedPrepared

variable {Op : AddrOp}

/-- `StagedPrepared::publish`. -/
def publish [Native] (self : StagedPrepared w Op) (m : Memory) : Memory :=
  m.write self.staged.toNat self.addr.stagedBytes

/-- `StagedPrepared::new`. -/
def new [Native] (fd : RawFd) (addr : SockAddrIn) (store : Storage w) (m : Memory) :
    Except (Storage w × Op.Error) (StagedPrepared w Op) × Memory :=
  let got := store.len
  if got < ADDR_LEN then (.error (store, Op.tooSmall ADDR_LEN got), m)
  else
    let prepared : StagedPrepared w Op :=
      { store := store, fd := fd, addr := addr, staged := store.addr }
    (.ok prepared, prepared.publish m)

/-- `StagedPrepared::into_pending`. -/
def intoPending (self : StagedPrepared w Op) (ring : RingId) (id : RequestId) :
    Sqe × StagedPending w Op :=
  let sqe := Op.buildSqe self.fd (UInt64.ofNat self.staged.toNat) ADDR_LEN_U32
  (sqe.withUserData id.raw,
    { store := self.store, ring := ring, id := id, fd := self.fd, addr := self.addr,
      staged := self.staged })

end StagedPrepared

namespace StagedPending

variable {Op : AddrOp}

/-- `StagedPending::reclaim_unsubmitted`. -/
def reclaimUnsubmitted (self : StagedPending w Op) : StagedPrepared w Op where
  store := self.store
  fd := self.fd
  addr := self.addr
  staged := self.staged

/-- `StagedPending::redeem`. -/
def redeem (self : StagedPending w Op) (receipt : Receipt) :
    Except (StagedPending w Op × Receipt) (StagedDone w Op) :=
  if !receipt.belongsTo self.ring self.id then .error (self, receipt)
  else
    .ok { store := self.store, addr := self.addr, id := self.id, result := receipt.result }

end StagedPending

/-- `StagedDone::into_parts`. -/
def StagedDone.intoParts {Op : AddrOp} (checked : Bool) (self : StagedDone w Op) :
    Option Op.Outcome × Storage w := (Op.classify checked self.result, self.store)

/-- `BindError`. -/
inductive BindError
  | storeTooSmall (needed got : Nat)
deriving DecidableEq, Repr

/-- `ConnectError`. -/
inductive ConnectError
  | storeTooSmall (needed got : Nat)
deriving DecidableEq, Repr

/-- `Sqe::bind_ptr`. -/
def Sqe.bindPtr (fd : RawFd) (addr : UInt64) (addrlen : UInt32) : Sqe :=
  { ZEROED with
    opcode := Opcode.bind.toU8, fd := fd.asI32, addr := addr, off := addrlen.toUInt64 }

/-- `Sqe::connect_ptr`. -/
def Sqe.connectPtr (fd : RawFd) (addr : UInt64) (addrlen : UInt32) : Sqe :=
  { ZEROED with
    opcode := Opcode.connect.toU8, fd := fd.asI32, addr := addr, off := addrlen.toUInt64 }

/-- `BindOp`. -/
def BindOp : AddrOp where
  Outcome := BindOutcome
  Error := BindError
  tooSmall := .storeTooSmall
  buildSqe := Sqe.bindPtr
  classify := BindOutcome.fromRaw

/-- `ConnectOp`. -/
def ConnectOp : AddrOp where
  Outcome := ConnectOutcome
  Error := ConnectError
  tooSmall := .storeTooSmall
  buildSqe := Sqe.connectPtr
  classify := ConnectOutcome.fromRaw

end Ququmatz
