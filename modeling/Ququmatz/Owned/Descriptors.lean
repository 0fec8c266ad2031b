import Ququmatz.Lib.Ledger
import Ququmatz.Owned.Custody
import Ququmatz.Owned.Kinds

/-!
# `Ququmatz.Owned.Descriptors`: who owns the descriptors of the process

`File` of `src/fs.rs`, `Socket` of `src/net.rs`, `EventFd` of `src/eventfd.rs` and `Inotify` of
`src/inotify.rs` close their descriptor when they are dropped. Three requests adopt one from a
completion (`PendingOpen::claim`, `PendingOpenat2::claim`, `PendingFixedFdInstall::claim`): the
comments there say that the kernel installed the descriptor and that the claim is the only one.

`Descriptors` is a `Custody` with the descriptors of the process: those that are open, those that
the kernel installed for a request, and what the program holds. The kernel opens a descriptor
that is not open, for a request in flight, and a success names what was installed
(`Descriptors.Honest`). The sockets of a multishot accept are not followed here, since the owned
ring of `Ququmatz.Owned.Queue` gives no events that are not terminal to its owner.
-/

set_option autoImplicit false

namespace Ququmatz

open Lib

/-! ### Owners of a descriptor -/

/-- The open descriptors of the process. -/
abbrev FdTable := Ledger RawFd

/-- `syscall::close`, with the answer of the kernel. A descriptor is released whatever the answer
is; one that is not open is a stray. -/
def FdTable.close (self : FdTable) (fd : RawFd) (answer : Except Errno Unit) :
    Except Errno Unit × FdTable :=
  (answer, self.release fd)

/-- `close` of an owner: it is forgotten, so that it is not dropped in addition. -/
def closeOwned (fd : RawFd) (table : FdTable) (answer : Except Errno Unit) :
    Except Error Unit × FdTable :=
  let (res, table) := table.close fd answer
  (res.mapError .syscall, table)

/-- `Drop` of an owner, which ignores what the call returns. -/
def dropOwned (fd : RawFd) (table : FdTable) (answer : Except Errno Unit) : FdTable :=
  (table.close fd answer).2

/-- `EventFd`, the owner of a descriptor. -/
structure EventFd where
  fd : RawFd
deriving DecidableEq, Repr

/-- `Inotify`, the owner of a descriptor. -/
structure Inotify where
  fd : RawFd
deriving DecidableEq, Repr

namespace File

/-- `File::from_fd`. That the descriptor is open and has no other owner is what it asks of its
caller. -/
def fromFd (fd : RawFd) : File := ⟨fd⟩

/-- `File::into_fd`. -/
def intoFd (self : File) : RawFd := self.fd

/-- `File::close`. -/
def close (self : File) : FdTable → Except Errno Unit → Except Error Unit × FdTable :=
  closeOwned self.fd

/-- `Drop for File`. -/
def drop (self : File) : FdTable → Except Errno Unit → FdTable := dropOwned self.fd

end File

namespace Socket

/-- `Socket::new` and `Socket::with_typed_flags`, with the answer of `socket`. -/
def new (answer : Except Errno RawFd) : Except Error Socket :=
  (answer.mapError .syscall).map fun fd => ⟨fd⟩

/-- `Socket::accept`, with the answer of `accept4`. -/
def accept (_self : Socket) (answer : Except Errno RawFd) : Except Error Socket :=
  (answer.mapError .syscall).map fun fd => ⟨fd⟩

/-- `Socket::from_fd`, with the same contract as `File::from_fd`. -/
def fromFd (fd : RawFd) : Socket := ⟨fd⟩

/-- `Socket::into_fd`. -/
def intoFd (self : Socket) : RawFd := self.fd

/-- `Socket::close`. -/
def close (self : Socket) : FdTable → Except Errno Unit → Except Error Unit × FdTable :=
  closeOwned self.fd

/-- `Drop for Socket`. -/
def drop (self : Socket) : FdTable → Except Errno Unit → FdTable := dropOwned self.fd

end Socket

namespace EventFd

/-- `EventFd::new` and `EventFd::with_flags`, with the answer of `eventfd2`. -/
def new (answer : Except Errno RawFd) : Except Error EventFd :=
  (answer.mapError .syscall).map fun fd => ⟨fd⟩

/-- `EventFd::into_fd`. -/
def intoFd (self : EventFd) : RawFd := self.fd

/-- `EventFd::close`. -/
def close (self : EventFd) : FdTable → Except Errno Unit → Except Error Unit × FdTable :=
  closeOwned self.fd

/-- `Drop for EventFd`. -/
def drop (self : EventFd) : FdTable → Except Errno Unit → FdTable := dropOwned self.fd

end EventFd

namespace Inotify

/-- `Inotify::new` and `Inotify::with_flags`, with the answer of `inotify_init1`. -/
def new (answer : Except Errno RawFd) : Except Error Inotify :=
  (answer.mapError .syscall).map fun fd => ⟨fd⟩

/-- `Inotify::into_fd`. -/
def intoFd (self : Inotify) : RawFd := self.fd

/-- `Drop for Inotify`. It is the one that has no `close`. -/
def drop (self : Inotify) : FdTable → Except Errno Unit → FdTable := dropOwned self.fd

end Inotify

/-- What owns a descriptor. -/
inductive Owner
  | file (file : File)
  | socket (socket : Socket)
  | eventFd (eventFd : EventFd)
  | inotify (inotify : Inotify)
deriving DecidableEq, Repr

namespace Owner

/-- `fd`, of each of them. -/
def fd : Owner → RawFd
  | .file f => f.fd
  | .socket s => s.fd
  | .eventFd e => e.fd
  | .inotify i => i.fd

/-- `into_fd`, of each of them. -/
def intoFd : Owner → RawFd
  | .file f => f.intoFd
  | .socket s => s.intoFd
  | .eventFd e => e.intoFd
  | .inotify i => i.intoFd

/-- `close`, of those that have it. -/
def close (self : Owner) (table : FdTable) (answer : Except Errno Unit) :
    Option (Except Error Unit × FdTable) :=
  match self with
  | .file f => some (f.close table answer)
  | .socket s => some (s.close table answer)
  | .eventFd e => some (e.close table answer)
  | .inotify _ => none

/-- `Drop`, of each of them. -/
def drop (self : Owner) (table : FdTable) (answer : Except Errno Unit) : FdTable :=
  match self with
  | .file f => f.drop table answer
  | .socket s => s.drop table answer
  | .eventFd e => e.drop table answer
  | .inotify i => i.drop table answer

@[simp] theorem intoFd_eq (self : Owner) : self.intoFd = self.fd := by cases self <;> rfl

@[simp] theorem drop_eq (self : Owner) (table : FdTable) (answer : Except Errno Unit) :
    self.drop table answer = table.release self.fd := by cases self <;> rfl

theorem close_eq {self : Owner} {table table' : FdTable} {answer : Except Errno Unit}
    {res : Except Error Unit} (h : self.close table answer = some (res, table')) :
    table' = table.release self.fd := by
  cases self <;> cases h <;> rfl

end Owner

/-- The calls that open a descriptor and give it to an owner. -/
inductive OpenCall
  | socket
  | accept (listener : Socket)
  | eventfd2
  | inotifyInit1
deriving DecidableEq, Repr

/-- The owner that a call returns. -/
def OpenCall.owner (self : OpenCall) (answer : Except Errno RawFd) : Except Error Owner :=
  match self with
  | .socket => (Socket.new answer).map .socket
  | .accept listener => (listener.accept answer).map .socket
  | .eventfd2 => (EventFd.new answer).map .eventFd
  | .inotifyInit1 => (Inotify.new answer).map .inotify

theorem OpenCall.owner_ok (self : OpenCall) (fd : RawFd) :
    ∃ o, self.owner (.ok fd) = .ok o ∧ o.fd = fd := by
  cases self <;> exact ⟨_, rfl, rfl⟩

/-- The owners that adopt a descriptor of the program by `from_fd`. -/
inductive Adopter
  | file
  | socket
deriving DecidableEq, Repr

/-- `from_fd`, of those that have it. -/
def Adopter.fromFd : Adopter → RawFd → Owner
  | .file, fd => .file (File.fromFd fd)
  | .socket, fd => .socket (Socket.fromFd fd)

@[simp] theorem Adopter.fd_fromFd (self : Adopter) (fd : RawFd) : (self.fromFd fd).fd = fd := by
  cases self <;> rfl

/-! ### Requests that open a descriptor -/

/-- What a kind of request adopts from its completion. -/
structure RequestKind.Yields (K : RequestKind) where
  opens : Bool
  file : K.Done → Option File
  file_redeem : ∀ q ring id receipt d, K.redeem (K.intoPending q ring id).2 receipt = .ok d →
    file d = if opens then PendingOpenat2.claim receipt.result else none

/-- A request that opens no descriptor. -/
def RequestKind.Yields.none (K : RequestKind) : K.Yields where
  opens := false
  file := fun _ => .none
  file_redeem := fun _ _ _ _ _ _ => rfl

section Kinds

variable [Native] (w : Width)

variable (B R : Type) [StableBuffer B] [StableBuffer R] (packed : Bool)

end Kinds

/-! ### The descriptors of a program -/

section System

variable {ι : Type} (K : ι → RequestKind)

/-- The requests of a program, and the descriptors of its process. -/
structure Descriptors where
  custody : Custody K
  table : FdTable
  /-- The descriptors that the kernel installed, with the place of the request. -/
  installs : List (Nat × RawFd)
  /-- The places of the requests whose descriptor was adopted. -/
  claimed : List Nat
  owners : List Owner
  /-- The descriptors that `into_fd` gave out. -/
  raws : List RawFd

/-- A step of the program or of the kernel. -/
inductive DescriptorAction
  | custody (a : CustodyAction K)
  /-- The kernel installs a descriptor for the request at the place. -/
  | install (slot : Nat) (fd : RawFd)
  | openCall (call : OpenCall) (answer : Except Errno RawFd)
  | close (i : Nat) (answer : Except Errno Unit)
  | drop (i : Nat) (answer : Except Errno Unit)
  | intoFd (i : Nat)
  | fromFd (adopter : Adopter) (i : Nat)
  /-- The program closes a descriptor that `into_fd` gave it. -/
  | closeRaw (i : Nat) (answer : Except Errno Unit)

variable {K}

namespace Descriptors

/-- A program that has no owners yet, in a process with some descriptors of others. -/
def ofSys (sys : Sys) (others : List RawFd) : Descriptors K where
  custody := Custody.ofSys sys
  table := { live := others, acquired := [], released := [], strays := [] }
  installs := []
  claimed := []
  owners := []
  raws := []

/-- The descriptors that were installed and not adopted. -/
def unclaimed (s : Descriptors K) : List RawFd :=
  (s.installs.filter fun x => decide (x.1 ∉ s.claimed)).map Prod.snd

/-- The descriptors of the program: those of its owners, those that `into_fd` gave out, and those
that wait in the completion of a request. -/
def held (s : Descriptors K) : List RawFd := s.owners.map Owner.fd ++ s.raws ++ s.unclaimed

variable (Y : ∀ k, (K k).Yields)

/-- The terminal CQE of a request that opens a descriptor names the one that was installed for it,
or none was. -/
def Honest (s : Descriptors K) : Prop :=
  ∀ p ∈ s.custody.own.sys.world.posted, ∀ t ∈ s.custody.taken,
    p.1 = .request t.slot → World.isTerminal p.2 = true → (Y t.kind).opens = true →
      s.installs.lookup t.slot
        = (PendingOpenat2.claim (Completion.ofCqe p.2).result).map File.fd

instance (s : Descriptors K) : Decidable (s.Honest Y) :=
  inferInstanceAs (Decidable (∀ p ∈ _, ∀ t ∈ _, _ → _ → _ → _))

/-- What a step adopts: the place of the request, and the file. -/
def adopted (s : Descriptors K) : CustodyAction K → Option (Nat × File)
  | .redeem ticket receipt =>
      match s.custody.tickets[ticket]?, s.custody.own.receipts[receipt]? with
      | some t, some r =>
          match (K t.kind).redeem t.pending r with
          | .ok done => ((Y t.kind).file done).map fun file => (t.slot, file)
          | .error _ => none
      | _, _ => none
  | _ => none

/-- The program has what the step adopts. -/
def adopt (s : Descriptors K) (custody : Custody K) : Option (Nat × File) → Descriptors K
  | some (slot, file) =>
      { s with
        custody := custody
        claimed := slot :: s.claimed
        owners := s.owners ++ [.file file] }
  | none => { s with custody := custody }

/-- The kernel may install a descriptor for the request at the place. -/
def mayInstall (s : Descriptors K) (slot : Nat) (fd : RawFd) : Prop :=
  (∃ t ∈ s.custody.taken, t.slot = slot ∧ (Y t.kind).opens = true) ∧
    s.custody.own.sys.world.finished slot = false ∧
    slot ∉ s.installs.map Prod.fst ∧ fd ∉ s.table.live

instance (s : Descriptors K) (slot : Nat) (fd : RawFd) : Decidable (s.mayInstall Y slot fd) :=
  inferInstanceAs (Decidable (_ ∧ _))

/-- The effect of a step. -/
def effect (s : Descriptors K) : DescriptorAction K → Option (Descriptors K)
  | .custody a =>
      (s.custody.step a).map fun custody => s.adopt custody (s.adopted Y a)
  | .install slot fd =>
      if s.mayInstall Y slot fd then
        some { s with table := s.table.acquire fd, installs := s.installs ++ [(slot, fd)] }
      else none
  | .openCall call answer =>
      match answer with
      | .ok fd =>
          if fd ∈ s.table.live then none
          else
            match call.owner (.ok fd) with
            | .ok o => some { s with table := s.table.acquire fd, owners := s.owners ++ [o] }
            | .error _ => none
      | .error _ => some s
  | .close i answer =>
      (s.owners[i]?).bind fun o => (o.close s.table answer).map fun x =>
        { s with table := x.2, owners := s.owners.eraseIdx i }
  | .drop i answer =>
      (s.owners[i]?).map fun o =>
        { s with table := o.drop s.table answer, owners := s.owners.eraseIdx i }
  | .intoFd i =>
      (s.owners[i]?).map fun o =>
        { s with owners := s.owners.eraseIdx i, raws := s.raws ++ [o.intoFd] }
  | .fromFd adopter i =>
      (s.raws[i]?).map fun fd =>
        { s with owners := s.owners ++ [adopter.fromFd fd], raws := s.raws.eraseIdx i }
  | .closeRaw i answer =>
      (s.raws[i]?).map fun fd =>
        { s with table := (s.table.close fd answer).2, raws := s.raws.eraseIdx i }

/-- A step of a kernel that is honest. -/
def step (s : Descriptors K) (a : DescriptorAction K) : Option (Descriptors K) :=
  (s.effect Y a).filter fun s' => decide (s'.Honest Y)

/-- A run. -/
def run : List (DescriptorAction K) → Descriptors K → Option (Descriptors K)
  | [], s => some s
  | a :: as, s => (s.step Y a).bind (run as)

end Descriptors

end System

end Ququmatz
