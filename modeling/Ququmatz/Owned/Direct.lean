import Ququmatz.Owned.Accept
import Ququmatz.Owned.Path
import Ququmatz.Types.Fs

/-!
# `Ququmatz.Owned.Direct`: requests that install into the file table of the ring

`PreparedDirectOpen` of `src/owned/direct.rs`, `PreparedDirectSocket` of
`src/owned/direct_socket.rs`, `PreparedDirectAccept` of `src/owned/direct_accept.rs` and the wire
form of `src/owned/slot.rs`. `FileTable` and `KernelOpens` are the kernel's side: how it reads the
`file_index` of an SQE, and what it may do to the table.
-/

set_option autoImplicit false

namespace Ququmatz

/-! ### The wire form of a target -/

/-- `FILE_INDEX_ALLOC`. -/
def FILE_INDEX_ALLOC : UInt32 := 0xFFFFFFFF

namespace SlotTarget

/-- The function `SlotTarget::exact`. -/
def exactAt (index : UInt32) : Option SlotTarget := (SlotIndex.new index).map .exact

/-- `SlotTarget::raw`. -/
def raw : SlotTarget → Int32
  | .auto => FILE_INDEX_ALLOC.toInt32
  | .exact slot => (slot.get + 1).toInt32

end SlotTarget

/-! ### SQEs -/

abbrev AcceptFlags := Bitflags .accept
abbrev SocketFlags := Bitflags .socket

/-- `SocketFlags::CLOEXEC`. -/
def SocketFlags.CLOEXEC : SocketFlags := ⟨0o2000000⟩

/-- `AddressFamily`. -/
inductive AddressFamily
  | inet
  | inet6
deriving DecidableEq, Repr

/-- `AddressFamily::as_raw`. -/
def AddressFamily.asRaw : AddressFamily → Int32
  | .inet => 2
  | .inet6 => 10

/-- `SocketType`. -/
inductive SocketType
  | stream
  | dgram
deriving DecidableEq, Repr

namespace SocketType

/-- `SocketType::as_raw`. -/
def asRaw : SocketType → Int32
  | .stream => 1
  | .dgram => 2

/-- `SocketType::with_flags`. -/
def withFlags (self : SocketType) (flags : SocketFlags) : UInt32 :=
  self.asRaw.toUInt32 ||| flags.bits

end SocketType

namespace Sqe

/-- `IORING_ACCEPT_MULTISHOT`. -/
def IORING_ACCEPT_MULTISHOT : UInt16 := (1 : UInt16) <<< 0

/-- `Sqe::openat_ptr`. -/
def openatPtr (dfd : Int32) (path : UInt64) (flags : OpenFlags) (mode : FileMode) : Sqe :=
  { ZEROED with
    opcode := Opcode.openat.toU8, fd := dfd, addr := path, len := mode.bits,
    opFlags := flags.bits }

/-- `Sqe::openat_direct`. -/
def openatDirect (dfd : Int32) (path : UInt64) (flags : OpenFlags) (mode : FileMode)
    (slot : Int32) : Sqe :=
  { openatPtr dfd path flags mode with spliceFdIn := slot }

/-- `Sqe::socket_direct_at`. -/
def socketDirectAt (domain : AddressFamily) (sockType : SocketType) (protocol : Int32)
    (flags : SocketFlags) (slot : Int32) : Sqe :=
  { ZEROED with
    opcode := Opcode.socket.toU8, fd := domain.asRaw, off := (sockType.withFlags flags).toUInt64,
    len := protocol.toUInt32, spliceFdIn := slot }

/-- `Sqe::accept_multishot`. -/
def acceptMultishot (fd : RawFd) (flags : AcceptFlags) : Sqe :=
  { ZEROED with
    opcode := Opcode.accept.toU8, fd := fd.asI32, opFlags := flags.bits,
    ioprio := IORING_ACCEPT_MULTISHOT }

/-- `Sqe::accept_multishot_direct`. -/
def acceptMultishotDirect (fd : RawFd) (flags : AcceptFlags) : Sqe :=
  { acceptMultishot fd flags with spliceFdIn := -1 }

end Sqe

/-! ### Direct opens -/

/-- `DirectOpenError`. -/
inductive DirectOpenError
  | closeOnExec
deriving DecidableEq, Repr

/-- `PreparedDirectOpen`. -/
structure PreparedDirectOpen (w : Width) where
  path : OwnedPath w
  dir : DirFd
  flags : OpenFlags
  mode : FileMode
  target : SlotTarget
  addr : Usize w

/-- `PendingDirectOpen`. -/
structure PendingDirectOpen (w : Width) where
  path : OwnedPath w
  ring : RingId
  id : RequestId
  dir : DirFd
  flags : OpenFlags
  mode : FileMode
  target : SlotTarget
  addr : Usize w

/-- `DirectOpened`. -/
structure DirectOpened (w : Width) where
  path : OwnedPath w
  slot : Option DirectSlot
  id : RequestId
  result : Int32

variable {w : Width}

/-- `PreparedDirectOpen::into_pending`. -/
def PreparedDirectOpen.intoPending (self : PreparedDirectOpen w) (ring : RingId) (id : RequestId) :
    Sqe × PendingDirectOpen w :=
  let sqe := Sqe.openatDirect self.dir.asRaw (UInt64.ofNat self.addr.toNat) self.flags self.mode
    self.target.raw
  let pending : PendingDirectOpen w :=
    { path := self.path
      ring := ring
      id := id
      dir := self.dir
      flags := self.flags
      mode := self.mode
      target := self.target
      addr := self.addr }
  (sqe.withUserData id.raw, pending)

/-- `PreparedDirectOpen::at`. -/
def PreparedDirectOpen.at (dir : DirFd) (path : OwnedPath w) (flags : OpenFlags) (mode : FileMode)
    (target : SlotTarget) : Except (OwnedPath w × DirectOpenError) (PreparedDirectOpen w) :=
  if flags.contains OpenFlags.CLOEXEC then .error (path, .closeOnExec)
  else
    .ok
      { path := path
        dir := dir
        flags := flags
        mode := mode
        target := target
        addr := path.stablePtr }

/-- `PendingDirectOpen::reclaim_unsubmitted`. -/
def PendingDirectOpen.reclaimUnsubmitted (self : PendingDirectOpen w) : PreparedDirectOpen w where
  path := self.path
  dir := self.dir
  flags := self.flags
  mode := self.mode
  target := self.target
  addr := self.addr

/-- The slot of a request whose completion had the result. -/
def SlotTarget.slotFor (self : SlotTarget) (ring : RingId) (result : Int32) : Option DirectSlot :=
  if result < 0 then none
  else (self.resolve result).map fun index => ⟨index, ring⟩

/-- `PendingDirectOpen::redeem`. -/
def PendingDirectOpen.redeem (self : PendingDirectOpen w) (receipt : Receipt) :
    Except (PendingDirectOpen w × Receipt) (DirectOpened w) :=
  if !receipt.belongsTo self.ring self.id then .error (self, receipt)
  else
    .ok
      { path := self.path
        slot := self.target.slotFor self.ring receipt.result
        id := self.id
        result := receipt.result }

/-! ### Direct sockets -/

/-- `DirectSocketError`. -/
inductive DirectSocketError
  | closeOnExec
deriving DecidableEq, Repr

/-- `PreparedDirectSocket`. -/
structure PreparedDirectSocket where
  domain : AddressFamily
  sockType : SocketType
  protocol : Int32
  flags : SocketFlags
  target : SlotTarget
deriving DecidableEq, Repr

/-- `PendingDirectSocket`. -/
structure PendingDirectSocket where
  ring : RingId
  id : RequestId
  target : SlotTarget
deriving DecidableEq, Repr

/-- `DirectSocketCreated`. -/
structure DirectSocketCreated where
  slot : Option DirectSlot
  id : RequestId
  result : Int32
deriving DecidableEq, Repr

namespace PreparedDirectSocket

/-- `PreparedDirectSocket::new`. -/
def new (domain : AddressFamily) (sockType : SocketType) (protocol : Int32) (flags : SocketFlags)
    (target : SlotTarget) : Except DirectSocketError PreparedDirectSocket :=
  if flags.contains SocketFlags.CLOEXEC then .error .closeOnExec
  else .ok ⟨domain, sockType, protocol, flags, target⟩

/-- `PreparedDirectSocket::into_pending`. -/
def intoPending (self : PreparedDirectSocket) (ring : RingId) (id : RequestId) :
    Sqe × PendingDirectSocket :=
  let sqe := Sqe.socketDirectAt self.domain self.sockType self.protocol self.flags self.target.raw
  (sqe.withUserData id.raw, ⟨ring, id, self.target⟩)

end PreparedDirectSocket

/-- `PendingDirectSocket::redeem`. -/
def PendingDirectSocket.redeem (self : PendingDirectSocket) (receipt : Receipt) :
    Except (PendingDirectSocket × Receipt) DirectSocketCreated :=
  if !receipt.belongsTo self.ring self.id then .error (self, receipt)
  else .ok ⟨self.target.slotFor self.ring receipt.result, self.id, receipt.result⟩

/-! ### Direct accepts -/

/-- `PreparedDirectAccept`. -/
structure PreparedDirectAccept where
  fd : RawFd
  flags : AcceptFlags
deriving DecidableEq, Repr

/-- `PreparedDirectAccept::into_pending`. -/
def PreparedDirectAccept.intoPending (self : PreparedDirectAccept) (ring : RingId)
    (id : RequestId) : Sqe × DirectAccept :=
  ((Sqe.acceptMultishotDirect self.fd self.flags).withUserData id.raw, ⟨ring, id, self.fd⟩)

/-! ### One type of requests -/

/-- The direct requests. -/
inductive DirectRequest (w : Width)
  | openat (request : PreparedDirectOpen w)
  | socket (request : PreparedDirectSocket)
  | accept (request : PreparedDirectAccept)

namespace DirectRequest

/-- Where the request installs. An accept installs many files and names no slot. -/
def target : DirectRequest w → SlotTarget
  | .openat request => request.target
  | .socket request => request.target
  | .accept _ => .auto

/-- The SQE of the request. -/
def sqe (self : DirectRequest w) (ring : RingId) (id : RequestId) : Sqe :=
  match self with
  | .openat request => (request.intoPending ring id).1
  | .socket request => (request.intoPending ring id).1
  | .accept request => (request.intoPending ring id).1

/-- What `redeem` makes of a receipt, and `record` of an event. `none` is an event that the
ticket does not take. -/
def report (self : DirectRequest w) (ring : RingId) (id : RequestId) (event : Event) :
    Option (Option DirectSlot) :=
  match self, event with
  | .openat request, .complete receipt =>
      ((request.intoPending ring id).2.redeem receipt).toOption.map DirectOpened.slot
  | .socket request, .complete receipt =>
      ((request.intoPending ring id).2.redeem receipt).toOption.map DirectSocketCreated.slot
  | .accept request, event =>
      ((request.intoPending ring id).2.record event).toOption.map DirectIncoming.intoSlot
  | _, .part _ => none

end DirectRequest

/-! ### The kernel -/

/-- The registered files of a ring. The kernel reports an index as a result that is not
negative. -/
structure FileTable (F : Type) where
  slots : List (Option F)
  fits : slots.length ≤ 2 ^ 31

/-- Put a file into a slot. -/
def FileTable.install {F : Type} (self : FileTable F) (i : Nat) (file : F) : FileTable F where
  slots := self.slots.set i (some file)
  fits := by rw [List.length_set]; exact self.fits

/-- What `sqe->file_index` asks for. -/
inductive FileIndex
  | descriptor
  | allocate
  | install (i : Nat)
deriving DecidableEq, Repr

/-- The kernel reads `file_index`, which is `splice_fd_in`, as a `u32`. -/
def Sqe.fileIndex (self : Sqe) : FileIndex :=
  let fileSlot := self.spliceFdIn.toUInt32
  if fileSlot = 0 then .descriptor
  else if fileSlot = FILE_INDEX_ALLOC then .allocate
  else .install (fileSlot.toNat - 1)

/-- One completion of a request: the result of the CQE, the slot that was filled, and the table
after it. -/
inductive KernelOpens {F : Type} (table : FileTable F) (index : FileIndex) (file : F) :
    Int32 → Option Nat → FileTable F → Prop
  | failed {result : Int32} (negative : result < 0) :
      KernelOpens table index file result none table
  | descriptor {fd : Int32} (asked : index = .descriptor) (nonneg : 0 ≤ fd) :
      KernelOpens table index file fd none table
  | allocated {i : Nat} (asked : index = .allocate) (free : table.slots[i]? = some none) :
      KernelOpens table index file (Int32.ofNat i) (some i) (table.install i file)
  | installed {i : Nat} (asked : index = .install i) (room : i < table.slots.length) :
      KernelOpens table index file 0 (some i) (table.install i file)

end Ququmatz
