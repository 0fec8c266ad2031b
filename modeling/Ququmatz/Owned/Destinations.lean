import Ququmatz.Owned.FilesUpdate
import Ququmatz.Owned.PathRequests
import Ququmatz.Owned.Staged
import Ququmatz.Types.Written

/-!
# `Ququmatz.Owned.Destinations`: requests whose result the kernel writes to memory

`PreparedStatx` of `src/owned/statx.rs`, `PreparedWaitId` of `src/owned/waitid.rs`,
`PreparedEpollWait` of `src/owned/epollwait.rs` and `PreparedPipe` of `src/owned/pipe.rs`, with
their tickets and completions. Each is given storage for the result. The constructor checks its
length and its alignment, in this order, and what it checked is kept as a field of the request.
-/

set_option autoImplicit false

namespace Ququmatz

open Lib

variable {w : Width}

/-- Storage with room for `size` bytes at the alignment, and the address that was taken of it. -/
structure Destination (w : Width) (size align : Nat) where
  store : Storage w
  addr : Usize w
  addr_eq : addr = store.addr
  room : size ≤ store.len
  aligned : addr.toNat % align = 0

/-- The checks of the constructors: the length first, then the alignment. -/
def Destination.check {E : Type} (size align : Nat) (tooSmall : Nat → Nat → E)
    (misaligned : Nat → E) (store : Storage w) :
    Except (Storage w × E) (Destination w size align) :=
  let got := store.len
  if hroom : got < size then .error (store, tooSmall size got)
  else
    let base := store.addr
    if haligned : base.toNat % align ≠ 0 then .error (store, misaligned align)
    else
      .ok
        { store := store
          addr := base
          addr_eq := rfl
          room := Nat.le_of_not_lt hroom
          aligned := Decidable.of_not_not haligned }

/-! ### `statx` -/

/-- `StatxFlags`. -/
structure StatxFlags where
  bits : UInt32
deriving DecidableEq, Repr

/-- `StatxMask`. -/
structure StatxMask where
  bits : UInt32
deriving DecidableEq, Repr

/-- `STATX_RESERVED`. -/
def STATX_RESERVED : UInt32 := 0x80000000

/-- `StatxError`. -/
inductive StatxError
  | destTooSmall (needed got : Nat)
  | destMisaligned (needed : Nat)
  | reservedMaskBit
deriving DecidableEq, Repr

/-- `Sqe::statx_ptr`. -/
def Sqe.statxPtr (dfd : Int32) (path : UInt64) (flags : StatxFlags) (mask : StatxMask)
    (statxBuf : UInt64) : Sqe :=
  { ZEROED with
    opcode := Opcode.STATX, fd := dfd, off := statxBuf, addr := path, len := mask.bits,
    opFlags := flags.bits }

section

variable [Native]

/-- `PreparedStatx`. -/
structure PreparedStatx (w : Width) where
  path : OwnedPath w
  dest : Destination w Statx.layout.size Statx.layout.align
  dir : DirFd
  flags : StatxFlags
  mask : StatxMask
  pathAddr : Usize w
  pathAddr_eq : pathAddr.toNat = path.stablePtr.toNat

/-- `PendingStatx`. -/
abbrev PendingStatx (w : Width) := PendingOf (PreparedStatx w)

/-- `StatxCompleted`. -/
structure StatxCompleted (w : Width) where
  path : OwnedPath w
  dest : Storage w
  id : RequestId
  result : Int32
  destAddr : Usize w

/-- `PreparedStatx::at`. -/
def PreparedStatx.at (dir : DirFd) (path : OwnedPath w) (flags : StatxFlags) (mask : StatxMask)
    (dest : Storage w) : Except (OwnedPath w × Storage w × StatxError) (PreparedStatx w) :=
  if mask.bits &&& STATX_RESERVED ≠ 0 then .error (path, dest, .reservedMaskBit)
  else
    match Destination.check Statx.layout.size Statx.layout.align StatxError.destTooSmall
      StatxError.destMisaligned dest with
    | .error (dest, e) => .error (path, dest, e)
    | .ok dest =>
        .ok
          { path := path
            dest := dest
            dir := dir
            flags := flags
            mask := mask
            pathAddr := path.stablePtr
            pathAddr_eq := rfl }

/-- `PreparedStatx::into_pending`. -/
def PreparedStatx.intoPending (self : PreparedStatx w) (ring : RingId) (id : RequestId) :
    Sqe × PendingStatx w :=
  PendingOf.stamp
    (Sqe.statxPtr self.dir.asRaw (asField self.pathAddr) self.flags self.mask
      (asField self.dest.addr)) self ring id

/-- `PendingStatx::redeem`. -/
def PendingStatx.redeem (self : PendingStatx w) (receipt : Receipt) :
    Except (PendingStatx w × Receipt) (StatxCompleted w) :=
  self.redeemAs (fun q id result =>
    { path := q.path, dest := q.dest.store, id := id, result := result,
      destAddr := q.dest.addr }) receipt

/-- `StatxCompleted::stat`. -/
def StatxCompleted.stat (self : StatxCompleted w) (m : Memory) : Option Statx :=
  if self.result < 0 then none else some (Statx.layout.load m.bytes self.destAddr.toNat)

end

/-! ### `waitid` -/

/-- `IdType`. -/
inductive IdType
  | all
  | pid
  | pgid
  | pidFd
deriving DecidableEq, Repr

/-- `IdType::as_raw`. -/
def IdType.asRaw : IdType → UInt32
  | .all => 0
  | .pid => 1
  | .pgid => 2
  | .pidFd => 3

/-- `WaitOptions`. -/
structure WaitOptions where
  bits : UInt32
deriving DecidableEq, Repr

/-- `WaitIdError`. -/
inductive WaitIdError
  | destTooSmall (needed got : Nat)
  | destMisaligned (needed : Nat)
deriving DecidableEq, Repr

/-- `Sqe::waitid`. -/
def Sqe.waitid (idType : IdType) (id : Int32) (infop : UInt64) (options : WaitOptions) : Sqe :=
  { ZEROED with
    opcode := Opcode.WAIT_ID, fd := id, len := idType.asRaw,
    spliceFdIn := options.bits.toInt32, off := infop }

section

variable [Native]

/-- `PreparedWaitId`. `discard` gives no destination, and its address is null. -/
structure PreparedWaitId (w : Width) where
  dest : Option (Destination w WaitidSiginfo.layout.size WaitidSiginfo.layout.align)
  idType : IdType
  id : Int32
  options : WaitOptions

/-- The field `dest_addr`. -/
def PreparedWaitId.destAddr (self : PreparedWaitId w) : Usize w :=
  match self.dest with
  | some dest => dest.addr
  | none => 0

/-- `PendingWaitId`. -/
abbrev PendingWaitId (w : Width) := PendingOf (PreparedWaitId w)

/-- `WaitIdCompleted`. -/
structure WaitIdCompleted (w : Width) where
  dest : Option (Storage w)
  id : RequestId
  result : Int32
  destAddr : Usize w

/-- `PreparedWaitId::new`. -/
def PreparedWaitId.new (idType : IdType) (id : Int32) (options : WaitOptions)
    (dest : Storage w) : Except (Storage w × WaitIdError) (PreparedWaitId w) :=
  match Destination.check WaitidSiginfo.layout.size WaitidSiginfo.layout.align
    WaitIdError.destTooSmall WaitIdError.destMisaligned dest with
  | .error e => .error e
  | .ok dest => .ok { dest := some dest, idType := idType, id := id, options := options }

/-- `PreparedWaitId::discard`. -/
def PreparedWaitId.discard (idType : IdType) (id : Int32) (options : WaitOptions) :
    PreparedWaitId w where
  dest := none
  idType := idType
  id := id
  options := options

/-- `PreparedWaitId::into_pending`. -/
def PreparedWaitId.intoPending (self : PreparedWaitId w) (ring : RingId) (id : RequestId) :
    Sqe × PendingWaitId w :=
  PendingOf.stamp (Sqe.waitid self.idType self.id (asField self.destAddr) self.options) self
    ring id

/-- `PendingWaitId::redeem`. -/
def PendingWaitId.redeem (self : PendingWaitId w) (receipt : Receipt) :
    Except (PendingWaitId w × Receipt) (WaitIdCompleted w) :=
  self.redeemAs (fun q id result =>
    { dest := q.dest.map Destination.store, id := id, result := result,
      destAddr := q.destAddr }) receipt

/-- `WaitIdCompleted::info`. -/
def WaitIdCompleted.info (self : WaitIdCompleted w) (m : Memory) : Option WaitidSiginfo :=
  if self.result < 0 ∨ self.destAddr = 0 then none
  else some (WaitidSiginfo.layout.load m.bytes self.destAddr.toNat)

end

/-! ### `epoll_wait` -/

/-- `EpollWaitError`. -/
inductive EpollWaitError
  | storeTooSmall (needed got : Nat)
  | storeMisaligned (needed : Nat)
deriving DecidableEq, Repr

/-- `clamp_max_events`. -/
def clampMaxEvents (slots : Nat) : UInt32 :=
  if slots > 4294967295 then 4294967295 else UInt32.ofNat slots

theorem clampMaxEvents_le (slots : Nat) : (clampMaxEvents slots).toNat ≤ slots := by
  unfold clampMaxEvents
  split
  next hover => exact Nat.le_of_lt hover
  next hfits => exact Nat.le_of_eq (UInt32.toNat_ofNat_of_lt' (by show slots < 2 ^ 32; omega))

/-- `Sqe::epoll_wait_ptr`. -/
def Sqe.epollWaitPtr (epfd : RawFd) (events : UInt64) (maxEvents : UInt32) : Sqe :=
  { ZEROED with
    opcode := Opcode.EPOLL_WAIT, fd := epfd.asI32, addr := events, len := maxEvents }

section

variable [Native]

/-- `PreparedEpollWait`. An event is packed on `x86_64`. -/
structure PreparedEpollWait (w : Width) (packed : Bool) where
  store : Destination w (EpollEvent.layout packed).size (EpollEvent.layout packed).align
  epfd : RawFd
  maxEvents : UInt32
  maxEvents_eq : maxEvents = clampMaxEvents (store.store.len / (EpollEvent.layout packed).size)

/-- The store has room for as many events as the kernel is told. -/
theorem PreparedEpollWait.events_fit {packed : Bool} (self : PreparedEpollWait w packed) :
    (EpollEvent.layout packed).size * self.maxEvents.toNat ≤ self.store.store.len := by
  rw [self.maxEvents_eq]
  exact Nat.le_trans (Nat.mul_le_mul_left _ (clampMaxEvents_le _)) (Nat.mul_div_le _ _)

/-- `PendingEpollWait`. -/
abbrev PendingEpollWait (w : Width) (packed : Bool) := PendingOf (PreparedEpollWait w packed)

/-- `EpollWaitCompleted`. -/
structure EpollWaitCompleted (w : Width) where
  store : Storage w
  id : RequestId
  result : Int32
  addr : Usize w

/-- `PreparedEpollWait::new`. -/
def PreparedEpollWait.new (packed : Bool) (epfd : RawFd) (store : Storage w) :
    Except (Storage w × EpollWaitError) (PreparedEpollWait w packed) :=
  let needed := (EpollEvent.layout packed).size
  match Destination.check needed (EpollEvent.layout packed).align EpollWaitError.storeTooSmall
    EpollWaitError.storeMisaligned store with
  | .error e => .error e
  | .ok dest =>
      .ok
        { store := dest
          epfd := epfd
          maxEvents := clampMaxEvents (dest.store.len / needed)
          maxEvents_eq := rfl }

/-- `PreparedEpollWait::into_pending`. -/
def PreparedEpollWait.intoPending {packed : Bool} (self : PreparedEpollWait w packed)
    (ring : RingId) (id : RequestId) : Sqe × PendingEpollWait w packed :=
  PendingOf.stamp (Sqe.epollWaitPtr self.epfd (asField self.store.addr) self.maxEvents) self
    ring id

/-- `PendingEpollWait::redeem`. -/
def PendingEpollWait.redeem {packed : Bool} (self : PendingEpollWait w packed)
    (receipt : Receipt) : Except (PendingEpollWait w packed × Receipt) (EpollWaitCompleted w) :=
  self.redeemAs (fun q id result =>
    { store := q.store.store, id := id, result := result, addr := q.store.addr }) receipt

/-- `EpollWaitCompleted::count`; `none` is the panic of a build with overflow checks. -/
def EpollWaitCompleted.count (checked : Bool) (self : EpollWaitCompleted w) :
    Option (Except Error UInt32) :=
  (Error.fromFailedCqe checked self.result).map fun
    | some e => .error e
    | none => .ok self.result.toUInt32

/-- `EpollWaitCompleted::events`. -/
def EpollWaitCompleted.events (checked packed : Bool) (self : EpollWaitCompleted w)
    (m : Memory) : Option (List EpollEvent) :=
  (self.count checked).map fun
    | .error _ => []
    | .ok n => (List.range n.toNat).map fun i =>
        (EpollEvent.layout packed).load m.bytes
          (self.addr.toNat + (EpollEvent.layout packed).size * i)

end

/-! ### `pipe` -/

/-- `DEST_LEN`. -/
def DEST_LEN : Nat := 2 * sizeofI32

/-- `DEST_ALIGN`. -/
def DEST_ALIGN : Nat := sizeofI32

/-- `PipeFlags`. -/
structure PipeFlags where
  bits : UInt32
deriving DecidableEq, Repr

/-- `PipeError`. -/
inductive PipeError
  | destTooSmall (needed got : Nat)
  | destMisaligned (needed : Nat)
deriving DecidableEq, Repr

/-- `Sqe::pipe_ptr`. -/
def Sqe.pipePtr (fds : UInt64) (flags : PipeFlags) : Sqe :=
  { ZEROED with opcode := Opcode.PIPE, addr := fds, opFlags := flags.bits }

/-- `PreparedPipe`. -/
structure PreparedPipe (w : Width) where
  dest : Destination w DEST_LEN DEST_ALIGN
  flags : PipeFlags

/-- `PendingPipe`. -/
abbrev PendingPipe (w : Width) := PendingOf (PreparedPipe w)

/-- `PipeCreated`. -/
structure PipeCreated (w : Width) where
  dest : Storage w
  id : RequestId
  result : Int32
  addr : Usize w

/-- `PreparedPipe::new`. -/
def PreparedPipe.new (flags : PipeFlags) (dest : Storage w) :
    Except (Storage w × PipeError) (PreparedPipe w) :=
  match Destination.check DEST_LEN DEST_ALIGN PipeError.destTooSmall PipeError.destMisaligned
    dest with
  | .error e => .error e
  | .ok dest => .ok { dest := dest, flags := flags }

/-- `PreparedPipe::into_pending`. -/
def PreparedPipe.intoPending (self : PreparedPipe w) (ring : RingId) (id : RequestId) :
    Sqe × PendingPipe w :=
  PendingOf.stamp (Sqe.pipePtr (asField self.dest.addr) self.flags) self ring id

/-- `PendingPipe::redeem`. -/
def PendingPipe.redeem (self : PendingPipe w) (receipt : Receipt) :
    Except (PendingPipe w × Receipt) (PipeCreated w) :=
  self.redeemAs (fun q id result =>
    { dest := q.dest.store, id := id, result := result, addr := q.dest.addr }) receipt

section

variable [Native]

/-- The word at `index` of the pair, `None` when the request failed. -/
def PipeCreated.word (self : PipeCreated w) (index : Nat) (m : Memory) : Option Int32 :=
  if self.result < 0 then none
  else some (i32Value (Bytes.load m.bytes (self.addr.toNat + sizeofI32 * index) sizeofI32))

/-- `PipeCreated::read_fd`. -/
def PipeCreated.readFd (self : PipeCreated w) (m : Memory) : Option Int32 := self.word 0 m

/-- `PipeCreated::write_fd`. -/
def PipeCreated.writeFd (self : PipeCreated w) (m : Memory) : Option Int32 := self.word 1 m

end

end Ququmatz
