import Ququmatz.Owned.ZeroCopy

/-!
# `Ququmatz.Owned.Outcome`: what the decoders read in a result

The result of a CQE is an `i32`, and every operation reads it on its own: `Error::from_failed_cqe`
and `Error::cqe_is_ok` of `src/error.rs`, and the `from_raw` of `CancelOutcome`, `Expiry`,
`FutexWaitOutcome`, `EpollOutcome`, `BindOutcome`, `ConnectOutcome` and `Update`. Most name some
errnos and negate any other negative result (`classify`). `Decoder` puts the decoders of these
results into one type.
-/

set_option autoImplicit false

namespace Ququmatz

/-- `Errno::new(-result)`; `none` is the panic of a build with overflow checks. -/
def Errno.ofNegated (checked : Bool) (result : Int32) : Option Errno :=
  if checked && result == Int32.minValue then none else some ⟨-result⟩

/-- The results with a name come first, then the negative ones, and the others are successes. -/
def classify {O : Type} (checked : Bool) (named : List (Int32 × O)) (failed : Errno → O)
    (success : Int32 → O) (result : Int32) : Option O :=
  match named.lookup result with
  | some outcome => some outcome
  | none =>
      if result < 0 then (Errno.ofNegated checked result).map failed else some (success result)

/-- `Error::cqe_is_ok`. -/
def Error.cqeIsOk (result : Int32) : Bool := 0 ≤ result

/-- `CancelOutcome`. -/
inductive CancelOutcome
  | applied (n : UInt32)
  | notFound
  | alreadyCompleting
  | failed (e : Errno)
deriving DecidableEq, Repr

namespace CancelOutcome

def ENOENT : Int32 := -2
def EALREADY : Int32 := -114

/-- `CancelOutcome::from_raw`. -/
def fromRaw (checked : Bool) (result : Int32) : Option CancelOutcome :=
  classify checked [(ENOENT, notFound), (EALREADY, alreadyCompleting)] failed
    (fun other => applied other.toUInt32) result

/-- The errno of a failure. -/
def errno : CancelOutcome → Option Errno
  | .failed e => some e
  | _ => none

end CancelOutcome

/-- `Expiry`. -/
inductive Expiry
  | expired
  | countReached
  | cancelled
  | failed (e : Errno)
deriving DecidableEq, Repr

namespace Expiry

def EXPIRED : Int32 := -62
def CANCELLED : Int32 := -125

/-- `Expiry::from_raw`. -/
def fromRaw (checked : Bool) (result : Int32) : Option Expiry :=
  classify checked [(EXPIRED, expired), (CANCELLED, cancelled)] failed (fun _ => countReached)
    result

/-- The errno of a failure. -/
def errno : Expiry → Option Errno
  | .failed e => some e
  | _ => none

end Expiry

/-- `FutexWaitOutcome`. -/
inductive FutexWaitOutcome
  | woken
  | valueMismatch
  | cancelled
  | failed (e : Errno)
deriving DecidableEq, Repr

namespace FutexWaitOutcome

def EAGAIN : Int32 := -11
def ECANCELED : Int32 := -125

/-- `FutexWaitOutcome::from_raw`. What has no name is negated, whatever its sign. -/
def fromRaw (checked : Bool) (result : Int32) : Option FutexWaitOutcome :=
  if result = 0 then some woken
  else if result = EAGAIN then some valueMismatch
  else if result = ECANCELED then some cancelled
  else (Errno.ofNegated checked result).map failed

/-- The errno of a failure. -/
def errno : FutexWaitOutcome → Option Errno
  | .failed e => some e
  | _ => none

end FutexWaitOutcome

/-- `EpollOutcome`. -/
inductive EpollOutcome
  | applied
  | alreadyRegistered
  | notRegistered
  | failed (e : Errno)
deriving DecidableEq, Repr

namespace EpollOutcome

def EEXIST : Int32 := -17
def ENOENT : Int32 := -2

/-- `EpollOutcome::from_raw`. -/
def fromRaw (checked : Bool) (result : Int32) : Option EpollOutcome :=
  classify checked [(EEXIST, alreadyRegistered), (ENOENT, notRegistered)] failed
    (fun _ => applied) result

/-- The errno of a failure. -/
def errno : EpollOutcome → Option Errno
  | .failed e => some e
  | _ => none

end EpollOutcome

/-- `BindOutcome`. -/
inductive BindOutcome
  | bound
  | addressInUse
  | alreadyBound
  | permissionDenied
  | failed (e : Errno)
deriving DecidableEq, Repr

namespace BindOutcome

def EADDRINUSE : Int32 := -98
def EINVAL : Int32 := -22
def EACCES : Int32 := -13

/-- `BindOutcome::from_raw`. -/
def fromRaw (checked : Bool) (result : Int32) : Option BindOutcome :=
  classify checked
    [(EADDRINUSE, addressInUse), (EINVAL, alreadyBound), (EACCES, permissionDenied)] failed
    (fun _ => bound) result

/-- The errno of a failure. -/
def errno : BindOutcome → Option Errno
  | .failed e => some e
  | _ => none

end BindOutcome

/-- `ConnectOutcome`. -/
inductive ConnectOutcome
  | connected
  | connectionRefused
  | alreadyConnected
  | timedOut
  | networkUnreachable
  | failed (e : Errno)
deriving DecidableEq, Repr

namespace ConnectOutcome

def ECONNREFUSED : Int32 := -111
def EISCONN : Int32 := -106
def ETIMEDOUT : Int32 := -110
def ENETUNREACH : Int32 := -101

/-- `ConnectOutcome::from_raw`. -/
def fromRaw (checked : Bool) (result : Int32) : Option ConnectOutcome :=
  classify checked
    [(ECONNREFUSED, connectionRefused), (EISCONN, alreadyConnected), (ETIMEDOUT, timedOut),
      (ENETUNREACH, networkUnreachable)] failed (fun _ => connected) result

/-- The errno of a failure. -/
def errno : ConnectOutcome → Option Errno
  | .failed e => some e
  | _ => none

end ConnectOutcome

/-- `Update`. -/
inductive Update
  | all (count : UInt32)
  /-- `Update::Partial`. -/
  | part (installed requested : UInt32)
  | failed (e : Errno)
deriving DecidableEq, Repr

namespace Update

/-- `Update::from_raw`. -/
def fromRaw (checked : Bool) (result : Int32) (requested : UInt32) : Option Update :=
  if result < 0 then (Errno.ofNegated checked result).map failed
  else
    let installed := result.toUInt32
    if installed ≥ requested then some (all requested) else some (part installed requested)

/-- The errno of a failure. -/
def errno : Update → Option Errno
  | .failed e => some e
  | _ => none

end Update

/-- The errno of a failed completion. -/
def Error.errno : Error → Option Errno
  | .completion (.failed e) => some e
  | _ => none

/-! ### The decoders together -/

/-- The decoders, each with what it is asked for beside the result. -/
inductive Decoder
  | error
  | cancel
  | expiry
  | futexWait
  | epoll
  | bind
  | connect
  | update (requested : UInt32)
deriving DecidableEq, Repr

namespace Decoder

/-- The failure that the decoder reads in the result, if it reads one. -/
def failure (checked : Bool) (result : Int32) : Decoder → Option (Option Errno)
  | .error => (Error.fromFailedCqe checked result).map (·.bind Error.errno)
  | .cancel => (CancelOutcome.fromRaw checked result).map CancelOutcome.errno
  | .expiry => (Expiry.fromRaw checked result).map Expiry.errno
  | .futexWait => (FutexWaitOutcome.fromRaw checked result).map FutexWaitOutcome.errno
  | .epoll => (EpollOutcome.fromRaw checked result).map EpollOutcome.errno
  | .bind => (BindOutcome.fromRaw checked result).map BindOutcome.errno
  | .connect => (ConnectOutcome.fromRaw checked result).map ConnectOutcome.errno
  | .update requested => (Update.fromRaw checked result requested).map Update.errno

end Decoder

end Ququmatz
