import Ququmatz.Owned.Accept
import Ququmatz.Owned.MsgRegion
import Ququmatz.Owned.Submitter

/-!
# `Ququmatz.Owned.FilesUpdate`: an update of the table of registered files

`TableEntry`, `PreparedFilesUpdate` and `PendingFilesUpdate` of `src/owned/filesupdate.rs`, over
the memory of the process, and `OwnedSubmitter::push_files_update` of `src/owned/queue.rs`. The
request writes one `i32` for each entry into its storage, and the kernel reads as many of them
as the SQE says (`kernelFds`).
-/

set_option autoImplicit false

namespace Ququmatz

open Lib

/-- `CLEAR`. -/
def CLEAR : Int32 := -1

/-- `size_of::<i32>()`, which is its alignment too. -/
def sizeofI32 : Nat := 4

/-- `TableEntry`. -/
inductive TableEntry
  | install (fd : RawFd)
  | clear
deriving DecidableEq, Repr

/-- `TableEntry::raw`. -/
def TableEntry.raw : TableEntry → Int32
  | .install fd => fd.asI32
  | .clear => CLEAR

/-- `FilesUpdateError`. -/
inductive FilesUpdateError
  | storeTooSmall (needed got : Nat)
  | storeMisaligned (needed : Nat)
  | empty
deriving DecidableEq, Repr

/-- `PreparedFilesUpdate`. -/
structure PreparedFilesUpdate (w : Width) (N : Nat) where
  store : Storage w
  entries : Fin N → TableEntry
  offset : SlotIndex
  addr : Usize w

/-- `PendingFilesUpdate`. -/
structure PendingFilesUpdate (w : Width) (N : Nat) where
  store : Storage w
  ring : RingId
  id : RequestId
  entries : Fin N → TableEntry
  offset : SlotIndex
  addr : Usize w

/-- `FilesUpdated`. -/
structure FilesUpdated (w : Width) (N : Nat) where
  store : Storage w
  entries : Fin N → TableEntry
  offset : SlotIndex
  id : RequestId
  result : Int32

variable {w : Width} {N : Nat}

namespace PreparedFilesUpdate

/-- `PreparedFilesUpdate::slots`. -/
def slots (_self : PreparedFilesUpdate w N) : UInt32 := UInt32.ofNat N

/-- `PreparedFilesUpdate::into_pending`. -/
def intoPending (self : PreparedFilesUpdate w N) (ring : RingId) (id : RequestId) :
    Sqe × PendingFilesUpdate w N :=
  let sqe := Sqe.filesUpdatePtr (UInt64.ofNat self.addr.toNat) self.slots self.offset.get
  (sqe.withUserData id.raw,
    { store := self.store, ring := ring, id := id, entries := self.entries,
      offset := self.offset, addr := self.addr })

variable [Native]

/-- The words of the array, each at its offset. -/
def words (self : PreparedFilesUpdate w N) : List (Nat × List UInt8) :=
  (List.finRange N).map fun i => (sizeofI32 * i.val, i32Bytes (self.entries i).raw)

/-- `PreparedFilesUpdate::publish`: one `i32` after the other. -/
def publish (self : PreparedFilesUpdate w N) (m : Memory) : Memory :=
  m.writeAll self.addr.toNat self.words

/-- `PreparedFilesUpdate::published`. -/
def published (self : PreparedFilesUpdate w N) (m : Memory) : Fin N → Int32 := fun i =>
  i32Value (Bytes.load m.bytes (self.addr.toNat + sizeofI32 * i) sizeofI32)

end PreparedFilesUpdate

/-- `PreparedFilesUpdate::at`. The size of the words does not overflow: the entries themselves
take more room. -/
def PreparedFilesUpdate.at [Native] (offset : SlotIndex) (entries : Fin N → TableEntry)
    (store : Storage w) (m : Memory) :
    Except (Storage w × FilesUpdateError) (PreparedFilesUpdate w N) × Memory :=
  if N = 0 then (.error (store, .empty), m)
  else
    let needed := sizeofI32 * N
    let got := store.len
    if got < needed then (.error (store, .storeTooSmall needed got), m)
    else
      let base := store.addr
      let align := sizeofI32
      if base.toNat % align ≠ 0 then (.error (store, .storeMisaligned align), m)
      else
        let prepared : PreparedFilesUpdate w N :=
          { store := store, entries := entries, offset := offset, addr := base }
        (.ok prepared, prepared.publish m)

/-- `PendingFilesUpdate::reclaim_unsubmitted`. -/
def PendingFilesUpdate.reclaimUnsubmitted (self : PendingFilesUpdate w N) :
    PreparedFilesUpdate w N where
  store := self.store
  entries := self.entries
  offset := self.offset
  addr := self.addr

/-- `PendingFilesUpdate::redeem`. -/
def PendingFilesUpdate.redeem (self : PendingFilesUpdate w N) (receipt : Receipt) :
    Except (PendingFilesUpdate w N × Receipt) (FilesUpdated w N) :=
  if !receipt.belongsTo self.ring self.id then .error (self, receipt)
  else
    .ok
      { store := self.store
        entries := self.entries
        offset := self.offset
        id := self.id
        result := receipt.result }

/-- `OwnedSubmitter::push_files_update`. -/
def OwnedSubmitter.pushFilesUpdate (self : OwnedSubmitter) (request : PreparedFilesUpdate w N) :
    RingProg (Except (PreparedFilesUpdate w N × Error) (PendingFilesUpdate w N)
      × OwnedSubmitter) :=
  self.pushWith request.intoPending PendingFilesUpdate.reclaimUnsubmitted

/-- The descriptors that the kernel reads for an SQE. -/
def kernelFds [Native] (bytes : Nat → UInt8) (sqe : Sqe) : List Int32 :=
  (List.range sqe.len.toNat).map fun i =>
    i32Value (Bytes.load bytes (sqe.addr.toNat + sizeofI32 * i) sizeofI32)

end Ququmatz
