import Ququmatz.Owned.Path
import Ququmatz.Owned.Submitter
import Ququmatz.Types.Fs

/-!
# `Ququmatz.Owned.Openat2`: opens whose parameters the kernel reads from memory

`Openat2Mode`, `PreparedOpenat2`, `PendingOpenat2` and `Opened2` of `src/owned/openat2.rs` over the
memory of the process. `PreparedOpenat2.at` checks the mode and the storage of the `open_how`, in
this order, and then writes the `open_how`. `OpenHow.Accepted` is what the module says of a
request that `openat2` does not reject, and `kernelHow` is what the kernel reads for an SQE.
-/

set_option autoImplicit false

namespace Ququmatz

open Lib

/-- `Sqe::openat2_ptr`. -/
def Sqe.openat2Ptr (dfd : Int32) (path how : UInt64) (howSize : UInt32) : Sqe :=
  { ZEROED with
    opcode := Opcode.openat2.toU8, fd := dfd, addr := path, off := how, len := howSize }

/-- `MODE_BITS`. -/
def MODE_BITS : UInt32 := 0o7777

/-- `Openat2Mode`. -/
inductive Openat2Mode
  | existing
  | create (mode : FileMode)
  | createNew (mode : FileMode)
  | tmpfile (mode : FileMode)
deriving DecidableEq, Repr

namespace Openat2Mode

/-- `Openat2Mode::flags`. -/
def flags : Openat2Mode → OpenFlags
  | .existing => ∅
  | .create _ => OpenFlags.CREAT
  | .createNew _ => OpenFlags.CREAT ||| OpenFlags.EXCL
  | .tmpfile _ => OpenFlags.TMPFILE

/-- `Openat2Mode::mode`. -/
def mode : Openat2Mode → FileMode
  | .existing => ∅
  | .create mode => mode
  | .createNew mode => mode
  | .tmpfile mode => mode

end Openat2Mode

/-- `Openat2Error`. -/
inductive Openat2Error
  | howTooSmall (needed got : Nat)
  | howMisaligned (needed : Nat)
  | modeOutsidePermissionBits (stray : UInt32)
deriving DecidableEq, Repr

/-- `PreparedOpenat2`. -/
structure PreparedOpenat2 (w : Width) where
  path : OwnedPath w
  howStore : Storage w
  dir : DirFd
  flags : OpenFlags
  mode : Openat2Mode
  resolve : ResolveFlags
  pathAddr : Usize w
  howAddr : Usize w

/-- `PendingOpenat2`. -/
structure PendingOpenat2 (w : Width) where
  path : OwnedPath w
  howStore : Storage w
  ring : RingId
  id : RequestId
  dir : DirFd
  flags : OpenFlags
  mode : Openat2Mode
  resolve : ResolveFlags
  pathAddr : Usize w
  howAddr : Usize w

/-- `File`, the owner of a descriptor. -/
structure File where
  fd : RawFd
deriving DecidableEq, Repr

/-- `Opened2`. -/
structure Opened2 (w : Width) where
  path : OwnedPath w
  howStore : Storage w
  file : Option File
  id : RequestId
  result : Int32

variable {w : Width}

namespace PreparedOpenat2

variable [Native]

/-- The `open_how` of the request. -/
def how (self : PreparedOpenat2 w) : OpenHow where
  flags := (self.flags.bits ||| self.mode.flags.bits).toUInt64
  mode := self.mode.mode.bits.toUInt64
  resolve := self.resolve.bits

/-- `PreparedOpenat2::publish_how`. -/
def publishHow (self : PreparedOpenat2 w) (m : Memory) : Memory :=
  m.writeAll self.howAddr.toNat (OpenHow.layout.fields self.how)

/-- `PreparedOpenat2::published_how`. -/
def publishedHow (self : PreparedOpenat2 w) (m : Memory) : OpenHow :=
  OpenHow.layout.load m.bytes self.howAddr.toNat

/-- `PreparedOpenat2::HOW_SIZE`. -/
def HOW_SIZE : UInt32 := UInt32.ofNat OpenHow.layout.size

/-- `PreparedOpenat2::into_pending`. -/
def intoPending (self : PreparedOpenat2 w) (ring : RingId) (id : RequestId) :
    Sqe × PendingOpenat2 w :=
  let sqe := Sqe.openat2Ptr self.dir.asRaw (UInt64.ofNat self.pathAddr.toNat)
    (UInt64.ofNat self.howAddr.toNat) HOW_SIZE
  let pending : PendingOpenat2 w :=
    { path := self.path
      howStore := self.howStore
      ring := ring
      id := id
      dir := self.dir
      flags := self.flags
      mode := self.mode
      resolve := self.resolve
      pathAddr := self.pathAddr
      howAddr := self.howAddr }
  (sqe.withUserData id.raw, pending)

end PreparedOpenat2

/-- `PreparedOpenat2::at`. -/
def PreparedOpenat2.at [Native] (dir : DirFd) (path : OwnedPath w) (flags : OpenFlags)
    (mode : Openat2Mode) (resolve : ResolveFlags) (howStore : Storage w) (m : Memory) :
    Except (OwnedPath w × Storage w × Openat2Error) (PreparedOpenat2 w) × Memory :=
  let stray := mode.mode.bits &&& ~~~MODE_BITS
  if stray ≠ 0 then (.error (path, howStore, .modeOutsidePermissionBits stray), m)
  else
    let needed := OpenHow.layout.size
    let got := howStore.len
    if got < needed then (.error (path, howStore, .howTooSmall needed got), m)
    else
      let base := howStore.addr
      let align := OpenHow.layout.align
      if base.toNat % align ≠ 0 then (.error (path, howStore, .howMisaligned align), m)
      else
        let prepared : PreparedOpenat2 w :=
          { path := path
            howStore := howStore
            dir := dir
            flags := flags
            mode := mode
            resolve := resolve
            pathAddr := path.stablePtr
            howAddr := base }
        (.ok prepared, prepared.publishHow m)

namespace PendingOpenat2

/-- `PendingOpenat2::reclaim_unsubmitted`. -/
def reclaimUnsubmitted (self : PendingOpenat2 w) : PreparedOpenat2 w where
  path := self.path
  howStore := self.howStore
  dir := self.dir
  flags := self.flags
  mode := self.mode
  resolve := self.resolve
  pathAddr := self.pathAddr
  howAddr := self.howAddr

/-- `PendingOpenat2::claim`. -/
def claim (result : Int32) : Option File :=
  if 0 ≤ result then some ⟨⟨result.toUInt32.toNat⟩⟩ else none

/-- `PendingOpenat2::redeem`. -/
def redeem (self : PendingOpenat2 w) (receipt : Receipt) :
    Except (PendingOpenat2 w × Receipt) (Opened2 w) :=
  if !receipt.belongsTo self.ring self.id then .error (self, receipt)
  else
    .ok
      { path := self.path
        howStore := self.howStore
        file := claim receipt.result
        id := self.id
        result := receipt.result }

end PendingOpenat2

/-! ### What `openat2` does not reject -/

/-- The kernel reads an `open_how` of the size it knows. -/
def kernelHow [Native] (bytes : Nat → UInt8) (sqe : Sqe) : Option OpenHow :=
  if sqe.len.toNat = OpenHow.layout.size then some (OpenHow.layout.load bytes sqe.off.toNat)
  else none

/-- The bits of the table in the module's documentation. -/
structure OpenHow.Accepted (how : OpenHow) : Prop where
  flags : ∀ i, how.flags.toNat.testBit i = true →
    ∃ flag ∈ OpenFlags.named, flag.bits.toNat.testBit i = true
  resolve : ∀ i, how.resolve.toNat.testBit i = true →
    ∃ flag ∈ ResolveFlags.named, flag.bits.toNat.testBit i = true
  mode : how.mode.toNat ≤ 0o7777
  /-- A mode comes with a flag that gives it meaning. -/
  meaning : how.mode ≠ 0 → ∃ flag ∈ [OpenFlags.CREAT, OpenFlags.TMPFILE],
    how.flags &&& flag.bits.toUInt64 = flag.bits.toUInt64

end Ququmatz
