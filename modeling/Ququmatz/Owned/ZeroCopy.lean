import Ququmatz.Owned.Vectored

/-!
# `Ququmatz.Owned.ZeroCopy`: what becomes of the completions of a zero-copy send

`record_sent`, `redeem` and `result` of `PendingZc` (`src/owned/zerocopy.rs`) and of
`PendingSendmsgZc` (`src/owned/sendmsg_zc.rs`). The two implementations are the same text over
different storage, so `ZcTicket` is one of the two tickets and `reapAll` is what an owner does
with either: it passes the events of the ring to the ticket, until one releases the storage.

`checked` says whether the build has overflow checks, which decides what the negation of the
least `i32` does.
-/

set_option autoImplicit false

namespace Ququmatz

/-- `Error::from_failed_cqe`; `none` is the panic of a build with overflow checks. -/
def Error.fromFailedCqe (checked : Bool) (result : Int32) : Option (Option Error) :=
  if result < 0 then
    if checked && result == Int32.minValue then none
    else some (some (.completion (.failed ⟨-result⟩)))
  else some none

/-- `result` of both finished sends. -/
def zcResult (checked : Bool) (sent : Option Int32) (notified : Int32) :
    Option (Except Error UInt32) :=
  let raw :=
    match sent with
    | some sent => sent
    | none => notified
  (Error.fromFailedCqe checked raw).map fun
    | some e => .error e
    | none => .ok raw.toUInt32

/-- `ZcCompleted::result`. -/
def ZcCompleted.result {B : Type} (checked : Bool) (self : ZcCompleted B) :
    Option (Except Error UInt32) :=
  zcResult checked self.sent self.notified

/-- `SendmsgZcCompleted::result`. -/
def SendmsgZcCompleted.result {B R : Type} {N : Nat} (checked : Bool)
    (self : SendmsgZcCompleted B R N) : Option (Except Error UInt32) :=
  zcResult checked self.sent self.notified

/-- `PendingZc::record_sent`. -/
def PendingZc.recordSent {B : Type} (self : PendingZc B) (notice : PartialReceipt) :
    Except (PendingZc B × PartialReceipt) (PendingZc B) :=
  if !notice.belongsTo self.ring self.id then .error (self, notice)
  else .ok { self with sent := some notice.result }

/-- `PendingSendmsgZc::record_sent`. -/
def PendingSendmsgZc.recordSent {B R : Type} {N : Nat} (self : PendingSendmsgZc B R N)
    (notice : PartialReceipt) :
    Except (PendingSendmsgZc B R N × PartialReceipt) (PendingSendmsgZc B R N) :=
  if !notice.belongsTo self.ring self.id then .error (self, notice)
  else .ok { self with sent := some notice.result }

/-! ### Either ticket -/

/-- A ticket of a zero-copy send. -/
inductive ZcTicket (B R : Type) (N : Nat)
  | zc (pending : PendingZc B)
  | sendmsgZc (pending : PendingSendmsgZc B R N)

/-- A finished zero-copy send. -/
inductive ZcFinished (B R : Type) (N : Nat)
  | zc (completed : ZcCompleted B)
  | sendmsgZc (completed : SendmsgZcCompleted B R N)

/-- What the owner holds. -/
inductive ZcProgress (B R : Type) (N : Nat)
  | inFlight (ticket : ZcTicket B R N)
  | released (done : ZcFinished B R N)

/-- The storage of a zero-copy send: a buffer, or buffers and a region. -/
abbrev ZcStorage (B R : Type) (N : Nat) := B ⊕ ((Fin N → B) × MsgRegion R)

/-- A completion reaped with `reap_event` of the ring `ring`. -/
structure ZcReaped where
  ring : RingId
  cqe : Completion
  /-- The owner passes the event to the ticket. -/
  passed : Bool
deriving DecidableEq, Repr

section

variable {B R : Type} {N : Nat}

namespace ZcTicket

def ring : ZcTicket B R N → RingId
  | .zc pending => pending.ring
  | .sendmsgZc pending => pending.ring

def id : ZcTicket B R N → RequestId
  | .zc pending => pending.id
  | .sendmsgZc pending => pending.id

/-- `send_result` of the ticket. -/
def sendResult : ZcTicket B R N → Option Int32
  | .zc pending => pending.sent
  | .sendmsgZc pending => pending.sent

def storage : ZcTicket B R N → ZcStorage B R N
  | .zc pending => .inl pending.buf
  | .sendmsgZc pending => .inr (pending.bufs, pending.region)

/-- `record_sent` of the ticket. -/
def recordSent (self : ZcTicket B R N) (notice : PartialReceipt) :
    Except (ZcTicket B R N × PartialReceipt) (ZcTicket B R N) :=
  match self with
  | .zc pending =>
      match pending.recordSent notice with
      | .ok pending => .ok (.zc pending)
      | .error (pending, notice) => .error (.zc pending, notice)
  | .sendmsgZc pending =>
      match pending.recordSent notice with
      | .ok pending => .ok (.sendmsgZc pending)
      | .error (pending, notice) => .error (.sendmsgZc pending, notice)

/-- `redeem` of the ticket. -/
def redeem (self : ZcTicket B R N) (receipt : Receipt) :
    Except (ZcTicket B R N × Receipt) (ZcFinished B R N) :=
  match self with
  | .zc pending =>
      match pending.redeem receipt with
      | .ok completed => .ok (.zc completed)
      | .error (pending, receipt) => .error (.zc pending, receipt)
  | .sendmsgZc pending =>
      match pending.redeem receipt with
      | .ok completed => .ok (.sendmsgZc completed)
      | .error (pending, receipt) => .error (.sendmsgZc pending, receipt)

/-- An event goes to `record_sent` or to `redeem`. -/
def handle (self : ZcTicket B R N) (event : Event) :
    Except (ZcTicket B R N × Event) (ZcProgress B R N) :=
  match event with
  | .part notice =>
      match self.recordSent notice with
      | .ok ticket => .ok (.inFlight ticket)
      | .error (ticket, notice) => .error (ticket, .part notice)
  | .complete receipt =>
      match self.redeem receipt with
      | .ok done => .ok (.released done)
      | .error (ticket, receipt) => .error (ticket, .complete receipt)

/-- Reap a sequence of completions. -/
def reapAll : List ZcReaped → ZcTicket B R N → ZcProgress B R N
  | [], self => .inFlight self
  | reaped :: rest, self =>
      if reaped.passed then
        match self.handle (Event.ofCompletion reaped.ring reaped.cqe) with
        | .ok (.inFlight ticket) => reapAll rest ticket
        | .ok (.released done) => .released done
        | .error (ticket, _) => reapAll rest ticket
      else reapAll rest self

end ZcTicket

namespace ZcFinished

def storage : ZcFinished B R N → ZcStorage B R N
  | .zc completed => .inl completed.buf
  | .sendmsgZc completed => .inr (completed.bufs, completed.region)

/-- `result` of the finished send. -/
def result (checked : Bool) : ZcFinished B R N → Option (Except Error UInt32)
  | .zc completed => completed.result checked
  | .sendmsgZc completed => completed.result checked

end ZcFinished

end

/-! ### The completions of one request -/

/-- The completion belongs to the request `id` on `ring`. -/
def ZcReaped.isOf (self : ZcReaped) (ring : RingId) (id : RequestId) : Bool :=
  (Event.ofCompletion self.ring self.cqe).belongsTo ring id

/-- The result of the last of these completions that was passed to the ticket and is its own, or
else `sent`. -/
def ZcReaped.recorded (ring : RingId) (id : RequestId) (all : List ZcReaped)
    (sent : Option Int32) : Option Int32 :=
  (((all.filter fun r => r.passed && r.isOf ring id).map (·.cqe.result)).getLast?).or sent

/-- The completions of the request `id` on `ring`, among those of other requests: any number
with `MORE`, then one without. -/
structure ZcSequence (ring : RingId) (id : RequestId) where
  before : List ZcReaped
  last : Completion
  more : ∀ r ∈ before, r.isOf ring id = true → r.cqe.flags.contains CqeFlags.MORE = true
  own : last.userData = id.raw
  ends : last.flags.contains CqeFlags.MORE = false

namespace ZcSequence

variable {ring : RingId} {id : RequestId}

/-- All of them, the last one passed to the ticket. -/
def all (s : ZcSequence ring id) : List ZcReaped := s.before ++ [⟨ring, s.last, true⟩]

/-- The send result that the ticket of the request has when the last completion comes. -/
def recorded (s : ZcSequence ring id) (sent : Option Int32) : Option Int32 :=
  ZcReaped.recorded ring id s.before sent

/-- One of the two CQEs carried an error. -/
def Failed (s : ZcSequence ring id) (sent : Option Int32) : Prop :=
  (∃ r ∈ s.recorded sent, r < 0) ∨ s.last.result < 0

/-- No recorded count hides a failed last CQE, and no negation overflows. -/
def Decided (checked : Bool) (s : ZcSequence ring id) (sent : Option Int32) : Prop :=
  (∀ r ∈ s.recorded sent, 0 ≤ r → 0 ≤ s.last.result) ∧
    (checked = true → (s.recorded sent).getD s.last.result ≠ Int32.minValue)

end ZcSequence

end Ququmatz
