import Ququmatz.Lib.Cells
import Ququmatz.Ring.Layout
import Ququmatz.Types.Entries

/-!
# `Ququmatz.Ring.Bytes`: a ring in the bytes of its mappings

The queues of a ring as they lie in memory. `ByteWorld` has the bytes, and the addresses that
`parse_sq` and `parse_cq` of `src/ring/layout.rs` hand to the handles. Every access of the crate and
every move of the kernel is a load or a store at one of them: four bytes for an index, a flags word
or a word of the SQ array, 64 for an SQE, 16 for a CQE. The histories are those of `World`.

`SysOn` is an owner of a ring with its calls, as `Sys` is, over any machine that gives the accesses
a meaning.
-/

set_option autoImplicit false

namespace Ququmatz

open Lib

/-! ### The cells of a ring -/

/-- What the crate and the kernel share, word by word and slot by slot. -/
inductive RingCell
  | sqHead
  | sqTail
  | sqFlags
  | sqArray (i : Nat)
  | sqe (i : Nat)
  | cqHead
  | cqTail
  | cqe (i : Nat)
deriving DecidableEq, Repr

/-- What the cell holds. -/
def RingCell.Val : RingCell → Type
  | .sqe _ => Sqe
  | .cqe _ => Cqe
  | _ => UInt32

/-- The bytes of the cell. -/
def RingCell.size : RingCell → Nat
  | .sqe _ => sizeofIoUringSqe
  | .cqe _ => sizeofIoUringCqe
  | _ => 4

/-- The pointers of the handles into the mappings, and the SQ array that only `parse_sq` writes. -/
structure RingPointers where
  sqHead : Nat
  sqTail : Nat
  sqFlags : Nat
  sqArray : Nat
  sqes : Nat
  cqHead : Nat
  cqTail : Nat
  cqes : Nat
deriving DecidableEq, Repr

/-- The address of a cell. The slots are indexed by the offset from their array. -/
def RingPointers.addr (p : RingPointers) : RingCell → Nat
  | .sqHead => p.sqHead
  | .sqTail => p.sqTail
  | .sqFlags => p.sqFlags
  | .sqArray i => p.sqArray + 4 * i
  | .sqe i => p.sqes + sizeofIoUringSqe * i
  | .cqHead => p.cqHead
  | .cqTail => p.cqTail
  | .cqe i => p.cqes + sizeofIoUringCqe * i

/-- The cells that a ring has. -/
def RingParams.Has (params : RingParams) : RingCell → Prop
  | .sqArray i => params.flags.contains SetupFlags.NO_SQARRAY = false ∧ i < params.sq.size
  | .sqe i => i < params.sq.size
  | .cqe i => i < params.cq.size
  | _ => True

/-- A ring in memory: no two of its cells share a byte. -/
structure RingMap where
  params : RingParams
  pointers : RingPointers
  apart : ∀ c d, params.Has c → params.Has d → c ≠ d →
    Range.Disjoint ⟨pointers.addr c, c.size⟩ ⟨pointers.addr d, d.size⟩

/-! ### The kernel and the crate on the bytes -/

section Machine

variable [Native]

/-- How the cell lies in memory. -/
def RingCell.layout : (c : RingCell) → Layout c.Val
  | .sqe _ => Sqe.layout
  | .cqe _ => Cqe.layout
  | .sqHead => u32Layout
  | .sqTail => u32Layout
  | .sqFlags => u32Layout
  | .sqArray _ => u32Layout
  | .cqHead => u32Layout
  | .cqTail => u32Layout

/-- The memory of one ring, and the histories of its queues. -/
structure ByteWorld where
  map : RingMap
  bytes : Nat → UInt8
  resources : RingResources
  written : List Sqe
  consumed : List Sqe
  posted : List (Origin × Cqe)
  read : List Cqe
  syscalls : List Syscall

namespace ByteWorld

def load (b : ByteWorld) (c : RingCell) : c.Val := c.layout.load b.bytes (b.map.pointers.addr c)

def store (b : ByteWorld) (c : RingCell) (x : c.Val) : ByteWorld :=
  { b with bytes := Bytes.storeAll b.bytes (b.map.pointers.addr c) (c.layout.fields x) }

/-- All that can be loaded. -/
def view (b : ByteWorld) : World where
  params := b.map.params
  resources := b.resources
  sqHead := b.load .sqHead
  sqTail := b.load .sqTail
  sqFlags := b.load .sqFlags
  sqArray i := b.load (.sqArray i)
  sqes i := b.load (.sqe i)
  cqHead := b.load .cqHead
  cqTail := b.load .cqTail
  cqes i := b.load (.cqe i)
  written := b.written
  consumed := b.consumed
  posted := b.posted
  read := b.read
  syscalls := b.syscalls

/-- The kernel reads one published SQE, and stores the new head. -/
def consumeOne (b : ByteWorld) : Option ByteWorld :=
  let head : UInt32 := b.load .sqHead
  let tail : UInt32 := b.load .sqTail
  let sqe : Sqe := b.load (.sqe b.view.sqIndex)
  if head = tail then none
  else some { b.store .sqHead (head + 1) with consumed := b.consumed ++ [sqe] }

def consumeN : Nat → ByteWorld → Option ByteWorld
  | 0, b => some b
  | n + 1, b => b.consumeOne.bind (consumeN n)

/-- The kernel stores a CQE into a free slot, and then the new tail. -/
def post (b : ByteWorld) (o : Origin) (cqe : Cqe) : Option ByteWorld :=
  let head : UInt32 := b.load .cqHead
  let tail : UInt32 := b.load .cqTail
  if tail - head < b.map.params.cq.val ∧ b.view.mayPost o cqe = true then
    some
      { (b.store (.cqe (tail &&& b.map.params.cq.mask).toNat) cqe).store .cqTail (tail + 1) with
        posted := b.posted ++ [(o, cqe)] }
  else none

def env : KStep → ByteWorld → Option ByteWorld
  | .consume, b => if b.view.sqpoll then b.consumeOne else none
  | .post o cqe, b => b.post o cqe
  | .setSqFlags v, b => some (b.store .sqFlags v)

def takeEntries (b : ByteWorld) (n : Nat) : Option ByteWorld :=
  if b.view.sqpoll then some b else b.consumeN n

/-- `io_uring_enter`. -/
def enter (b : ByteWorld) (toSubmit minComplete : UInt32) (flags : EnterFlags)
    (r : EnterReply) : Option (Except Errno Nat × ByteWorld) :=
  match r.outcome with
  | .err e => (envSteps ByteWorld.env r.during b).map fun b' => (.error e, b')
  | .ok n =>
      if n ≤ toSubmit.toNat then
        (b.takeEntries n).bind fun b1 => (envSteps ByteWorld.env r.during b1).bind fun b2 =>
          if b2.view.waitSatisfied minComplete flags then some (.ok n, b2) else none
      else none
  | .early n =>
      if n ≤ toSubmit.toNat then
        (b.takeEntries n).bind fun b1 => (envSteps ByteWorld.env r.during b1).map fun b2 =>
          (.ok n, b2)
      else none

def memory {α : Type} (x : α × ByteWorld) : Option EnterReply → Option (α × ByteWorld)
  | none => some x
  | some _ => none

/-- The accesses of the crate, each through the pointer that its handle has for it. -/
def access (a : Access) (r : Option EnterReply) (b : ByteWorld) : Option (a.Ans × ByteWorld) :=
  match a with
  | .loadSqHead => memory (b.load .sqHead, b) r
  | .storeSqTail v => memory ((), b.store .sqTail v) r
  | .loadSqFlags => memory (b.load .sqFlags, b) r
  | .writeSqe idx sqe =>
      memory ((), { b.store (.sqe idx.toNat) sqe with written := b.written ++ [sqe] }) r
  | .loadCqTail => memory (b.load .cqTail, b) r
  | .readCqe idx =>
      let cqe : Cqe := b.load (.cqe idx.toNat)
      memory (cqe, { b with read := b.read ++ [cqe] }) r
  | .storeCqHead v => memory ((), b.store .cqHead v) r
  | .enter _ toSubmit minComplete flags => r.bind (b.enter toSubmit minComplete flags)
  | .retain => memory ((), { b with resources := b.resources.retain }) r
  | .release =>
      memory ((), { b with
        resources := b.resources.released
        syscalls := b.syscalls ++ b.resources.cleanup }) r

end ByteWorld

/-- The crate's accesses and the kernel, over the bytes of one ring. -/
abbrev byteMachine : Machine ringSig where
  State := ByteWorld
  Env := KStep
  env := ByteWorld.env
  Reply := Option EnterReply
  access := ByteWorld.access

end Machine

/-! ### The owner of a ring on any machine -/

/-- A ring, its owner and the record of the owner's calls. -/
structure SysOn (M : Machine ringSig) where
  state : M.State
  handles : Handles
  pools : Nat
  accepted : List Sqe
  reaped : List Completion

namespace SysOn

variable {M : Machine ringSig}

def exec {α : Type} (s : SysOn M) (p : Option (RingProg (α × Handles))) (rs : List (Round M))
    (record : α → SysOn M → SysOn M) : Option (SysOn M) :=
  p.bind fun p => (p.run M rs s.state).map fun x =>
    record x.1.1 { s with state := x.2, handles := x.1.2 }

def recordPush (sqe : Sqe) : Except Error Unit → SysOn M → SysOn M
  | .ok (), s => { s with accepted := s.accepted ++ [sqe] }
  | .error _, s => s

def recordReap : Option Completion → SysOn M → SysOn M
  | some c, s => { s with reaped := s.reaped ++ [c] }
  | none, s => s

def recordNothing {α : Type} (_ : α) (s : SysOn M) : SysOn M := s

/-- One call of the owner. -/
def call (s : SysOn M) (c : Call) (rs : List (Round M)) : Option (SysOn M) :=
  match c with
  | .push sqe => s.exec (s.handles.push sqe) rs (recordPush sqe)
  | .flushSqTail => s.exec s.handles.flushSqTail rs recordNothing
  | .submit => s.exec s.handles.submit rs recordNothing
  | .submitAndWait n => s.exec (s.handles.submitAndWait n) rs recordNothing
  | .submitSqpoll => s.exec s.handles.submitSqpoll rs recordNothing
  | .complete => s.exec s.handles.complete rs recordReap
  | .syncCq => s.exec s.handles.syncCq rs recordNothing
  | .wait n => s.exec (s.handles.wait n) rs recordNothing
  | .nextDoTag => s.exec s.handles.nextDoTag rs recordNothing
  | .split => s.exec s.handles.split rs recordNothing
  | .dropRing => s.exec s.handles.dropRing rs recordNothing
  | .dropSubmitter => s.exec s.handles.dropSubmitter rs recordNothing
  | .dropCompleter => s.exec s.handles.dropCompleter rs recordNothing
  | .registerPool =>
      if s.handles.sqSubmitted.isSome then
        s.exec (some (do perform .retain; return ((), s.handles))) rs fun _ s =>
          { s with pools := s.pools + 1 }
      else none
  | .dropPool =>
      if 0 < s.pools then
        s.exec (some (do perform .release; return ((), s.handles))) rs fun _ s =>
          { s with pools := s.pools - 1 }
      else none

end SysOn

/-- A step of the owner, or of the environment on its own. -/
inductive ActionOn (M : Machine ringSig)
  | call (c : Call) (rs : List (Round M))
  | kernel (k : M.Env)

namespace SysOn

variable {M : Machine ringSig}

/-- The effect of a step. -/
def step (s : SysOn M) : ActionOn M → Option (SysOn M)
  | .call c rs => s.call c rs
  | .kernel k => (M.env k s.state).map fun w => { s with state := w }

def run : List (ActionOn M) → SysOn M → Option (SysOn M)
  | [], s => some s
  | a :: as, s => (s.step a).bind (run as)

end SysOn

/-! ### The first state -/

/-- What `from_params` leaves when the rings are parsed and the resources page is written. -/
def ByteWorld.fresh (map : RingMap) (bytes : Nat → UInt8) (resources : RingResources) :
    ByteWorld where
  map := map
  bytes := bytes
  resources := { resources with refcount := 1 }
  written := []
  consumed := []
  posted := []
  read := []
  syscalls := []

/-- The `IoUring` that `from_params` builds of what `parse_sq` and `parse_cq` return. -/
def IoUring.ofParsed (params : RingParams) (fd : RawFd) (sq : ParsedSq) (cq : ParsedCq) :
    IoUring where
  fd := fd
  sqMask := sq.sqMask
  sqTailLocal := sq.sqTailLocal
  sqSubmitted := sq.sqTailLocal
  cqMask := cq.cqMask
  cqHeadLocal := cq.cqHeadLocal
  features := params.features
  setupFlags := params.flags.bits
  doTagNext := IoUring.DO_TAG_MARKER

/-- The ring as `from_params` returns it, in the bytes that the parse leaves. -/
def SysOn.start [Native] (map : RingMap) (bytes : Nat → UInt8) (resources : RingResources)
    (sq : ParsedSq) (cq : ParsedCq) : SysOn byteMachine where
  state := ByteWorld.fresh map bytes resources
  handles := .whole (IoUring.ofParsed map.params resources.fd sq cq)
  pools := 0
  accepted := []
  reaped := []

end Ququmatz
