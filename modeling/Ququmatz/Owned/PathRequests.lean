import Ququmatz.Owned.Direct
import Ququmatz.Owned.Openat2
import Ququmatz.Owned.PendingOf

/-!
# `Ququmatz.Owned.PathRequests`: requests over one or two paths

`PreparedOpen` of `src/owned/open.rs`, `PreparedPathOp` of `src/owned/pathop.rs`,
`PreparedRename` of `src/owned/rename.rs` and `PreparedLink` of `src/owned/link.rs`, with their
tickets and completions. Each takes the address of a path when it is made. No method changes or
replaces the path of a request, so that the address in it stays that of its path: the fields
`addr_eq`, `from_addr_eq` and so on.
-/

set_option autoImplicit false

namespace Ququmatz

open Lib

variable {w : Width}

/-! ### Flags and SQEs -/

/-- `UnlinkFlags`. -/
structure UnlinkFlags where
  bits : UInt32
deriving DecidableEq, Repr

def UnlinkFlags.default : UnlinkFlags := ⟨0⟩
def UnlinkFlags.REMOVEDIR : UnlinkFlags := ⟨0x200⟩

/-- `RenameFlags`. -/
structure RenameFlags where
  bits : UInt32
deriving DecidableEq, Repr

def RenameFlags.default : RenameFlags := ⟨0⟩
def RenameFlags.NOREPLACE : RenameFlags := ⟨(1 : UInt32) <<< 0⟩
def RenameFlags.EXCHANGE : RenameFlags := ⟨(1 : UInt32) <<< 1⟩

/-- `LinkFlags`. -/
structure LinkFlags where
  bits : UInt32
deriving DecidableEq, Repr

namespace Sqe

/-- `Sqe::unlinkat_ptr`. -/
def unlinkatPtr (dfd : Int32) (path : UInt64) (flags : UnlinkFlags) : Sqe :=
  { ZEROED with opcode := Opcode.UNLINKAT, fd := dfd, addr := path, opFlags := flags.bits }

/-- `Sqe::mkdirat_ptr`. -/
def mkdiratPtr (dfd : Int32) (path : UInt64) (mode : FileMode) : Sqe :=
  { ZEROED with opcode := Opcode.MKDIRAT, fd := dfd, addr := path, len := mode.bits }

/-- `Sqe::renameat_ptr`. -/
def renameatPtr (oldDfd : Int32) (oldPath : UInt64) (newDfd : Int32) (newPath : UInt64)
    (flags : RenameFlags) : Sqe :=
  { ZEROED with
    opcode := Opcode.RENAMEAT, fd := oldDfd, addr := oldPath, len := newDfd.toUInt32,
    off := newPath, opFlags := flags.bits }

/-- `Sqe::symlinkat_ptr`. -/
def symlinkatPtr (oldPath : UInt64) (newDfd : Int32) (newPath : UInt64) : Sqe :=
  { ZEROED with opcode := Opcode.SYMLINKAT, fd := newDfd, addr := oldPath, off := newPath }

/-- `Sqe::linkat_ptr`. -/
def linkatPtr (oldDfd : Int32) (oldPath : UInt64) (newDfd : Int32) (newPath : UInt64)
    (flags : LinkFlags) : Sqe :=
  { ZEROED with
    opcode := Opcode.LINKAT, fd := oldDfd, addr := oldPath, len := newDfd.toUInt32,
    off := newPath, opFlags := flags.bits }

end Sqe

/-- An address in a field of an SQE. -/
def asField (addr : Usize w) : UInt64 := UInt64.ofNat addr.toNat

/-! ### Opens -/

/-- `PreparedOpen`. -/
structure PreparedOpen (w : Width) where
  path : OwnedPath w
  dir : DirFd
  flags : OpenFlags
  mode : FileMode
  addr : Usize w
  addr_eq : addr = path.stablePtr

/-- `PendingOpen`. -/
abbrev PendingOpen (w : Width) := PendingOf (PreparedOpen w)

/-- `Opened`. -/
structure Opened (w : Width) where
  path : OwnedPath w
  file : Option File
  id : RequestId
  result : Int32

/-- `PreparedOpen::at`. -/
def PreparedOpen.at (dir : DirFd) (path : OwnedPath w) (flags : OpenFlags) (mode : FileMode) :
    PreparedOpen w where
  path := path
  dir := dir
  flags := flags
  mode := mode
  addr := path.stablePtr
  addr_eq := rfl

/-- `PreparedOpen::into_pending`. -/
def PreparedOpen.intoPending (self : PreparedOpen w) (ring : RingId) (id : RequestId) :
    Sqe × PendingOpen w :=
  PendingOf.stamp (Sqe.openatPtr self.dir.asRaw (asField self.addr) self.flags self.mode) self
    ring id

/-- `PendingOpen::redeem`. The claim of the descriptor is that of `openat2`. -/
def PendingOpen.redeem (self : PendingOpen w) (receipt : Receipt) :
    Except (PendingOpen w × Receipt) (Opened w) :=
  self.redeemAs (fun q id result =>
    { path := q.path, file := PendingOpenat2.claim result, id := id, result := result })
    receipt

/-! ### Removals and directories -/

/-- `PathOpKind`. -/
inductive PathOpKind
  | unlink
  | rmdir
  | mkdir (mode : FileMode)
deriving DecidableEq, Repr

/-- `PathOpKind::sqe`. -/
def PathOpKind.sqe (self : PathOpKind) (dir : DirFd) (addr : UInt64) : Sqe :=
  match self with
  | .unlink => Sqe.unlinkatPtr dir.asRaw addr UnlinkFlags.default
  | .rmdir => Sqe.unlinkatPtr dir.asRaw addr UnlinkFlags.REMOVEDIR
  | .mkdir mode => Sqe.mkdiratPtr dir.asRaw addr mode

/-- `PreparedPathOp`. -/
structure PreparedPathOp (w : Width) where
  path : OwnedPath w
  dir : DirFd
  kind : PathOpKind
  addr : Usize w
  addr_eq : addr = path.stablePtr

/-- `PendingPathOp`. -/
abbrev PendingPathOp (w : Width) := PendingOf (PreparedPathOp w)

/-- `PathOpCompleted`. -/
structure PathOpCompleted (w : Width) where
  path : OwnedPath w
  kind : PathOpKind
  id : RequestId
  result : Int32

/-- `PreparedPathOp::new`. -/
def PreparedPathOp.new (dir : DirFd) (path : OwnedPath w) (kind : PathOpKind) :
    PreparedPathOp w where
  path := path
  dir := dir
  kind := kind
  addr := path.stablePtr
  addr_eq := rfl

/-- `PreparedPathOp::into_pending`. -/
def PreparedPathOp.intoPending (self : PreparedPathOp w) (ring : RingId) (id : RequestId) :
    Sqe × PendingPathOp w :=
  PendingOf.stamp (self.kind.sqe self.dir (asField self.addr)) self ring id

/-- `PendingPathOp::redeem`. -/
def PendingPathOp.redeem (self : PendingPathOp w) (receipt : Receipt) :
    Except (PendingPathOp w × Receipt) (PathOpCompleted w) :=
  self.redeemAs (fun q id result =>
    { path := q.path, kind := q.kind, id := id, result := result })
    receipt

/-! ### Renames -/

/-- `RenameMode`. -/
inductive RenameMode
  | replace
  | noReplace
  | exchange
deriving DecidableEq, Repr

/-- `RenameMode::flags`. -/
def RenameMode.flags : RenameMode → RenameFlags
  | .replace => RenameFlags.default
  | .noReplace => RenameFlags.NOREPLACE
  | .exchange => RenameFlags.EXCHANGE

/-- `PreparedRename`. -/
structure PreparedRename (w : Width) where
  fromPath : OwnedPath w
  toPath : OwnedPath w
  fromDir : DirFd
  toDir : DirFd
  mode : RenameMode
  fromAddr : Usize w
  toAddr : Usize w
  fromAddr_eq : fromAddr = fromPath.stablePtr
  toAddr_eq : toAddr = toPath.stablePtr

/-- `PendingRename`. -/
abbrev PendingRename (w : Width) := PendingOf (PreparedRename w)

/-- `RenameCompleted`. -/
structure RenameCompleted (w : Width) where
  fromPath : OwnedPath w
  toPath : OwnedPath w
  mode : RenameMode
  id : RequestId
  result : Int32

/-- `PreparedRename::new`. -/
def PreparedRename.new (fromDir : DirFd) (fromPath : OwnedPath w) (toDir : DirFd)
    (toPath : OwnedPath w) (mode : RenameMode) : PreparedRename w where
  fromPath := fromPath
  toPath := toPath
  fromDir := fromDir
  toDir := toDir
  mode := mode
  fromAddr := fromPath.stablePtr
  toAddr := toPath.stablePtr
  fromAddr_eq := rfl
  toAddr_eq := rfl

/-- `PreparedRename::into_pending`. -/
def PreparedRename.intoPending (self : PreparedRename w) (ring : RingId) (id : RequestId) :
    Sqe × PendingRename w :=
  PendingOf.stamp
    (Sqe.renameatPtr self.fromDir.asRaw (asField self.fromAddr) self.toDir.asRaw
      (asField self.toAddr) self.mode.flags) self ring id

/-- `PendingRename::redeem`. -/
def PendingRename.redeem (self : PendingRename w) (receipt : Receipt) :
    Except (PendingRename w × Receipt) (RenameCompleted w) :=
  self.redeemAs (fun q id result =>
    { fromPath := q.fromPath, toPath := q.toPath, mode := q.mode, id := id, result := result })
    receipt

/-! ### Links -/

/-- `LinkKind`. -/
inductive LinkKind
  | symlink (newDir : DirFd)
  | link (oldDir newDir : DirFd) (flags : LinkFlags)
deriving DecidableEq, Repr

/-- `LinkKind::sqe`. -/
def LinkKind.sqe (self : LinkKind) (oldAddr newAddr : UInt64) : Sqe :=
  match self with
  | .symlink newDir => Sqe.symlinkatPtr oldAddr newDir.asRaw newAddr
  | .link oldDir newDir flags => Sqe.linkatPtr oldDir.asRaw oldAddr newDir.asRaw newAddr flags

/-- `PreparedLink`. -/
structure PreparedLink (w : Width) where
  oldPath : OwnedPath w
  newPath : OwnedPath w
  kind : LinkKind
  oldAddr : Usize w
  newAddr : Usize w
  oldAddr_eq : oldAddr = oldPath.stablePtr
  newAddr_eq : newAddr = newPath.stablePtr

/-- `PendingLink`. -/
abbrev PendingLink (w : Width) := PendingOf (PreparedLink w)

/-- `LinkCompleted`. -/
structure LinkCompleted (w : Width) where
  oldPath : OwnedPath w
  newPath : OwnedPath w
  kind : LinkKind
  id : RequestId
  result : Int32

/-- `PreparedLink::new`. -/
def PreparedLink.new (oldPath newPath : OwnedPath w) (kind : LinkKind) : PreparedLink w where
  oldPath := oldPath
  newPath := newPath
  kind := kind
  oldAddr := oldPath.stablePtr
  newAddr := newPath.stablePtr
  oldAddr_eq := rfl
  newAddr_eq := rfl

/-- `PreparedLink::into_pending`. -/
def PreparedLink.intoPending (self : PreparedLink w) (ring : RingId) (id : RequestId) :
    Sqe × PendingLink w :=
  PendingOf.stamp (self.kind.sqe (asField self.oldAddr) (asField self.newAddr)) self ring id

/-- `PendingLink::redeem`. -/
def PendingLink.redeem (self : PendingLink w) (receipt : Receipt) :
    Except (PendingLink w × Receipt) (LinkCompleted w) :=
  self.redeemAs (fun q id result =>
    { oldPath := q.oldPath, newPath := q.newPath, kind := q.kind, id := id, result := result })
    receipt

end Ququmatz
