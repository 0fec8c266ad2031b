import Ququmatz.Pool.Register

/-!
# `Ququmatz.Pool.Ledger`: acknowledgement tokens over several pools

The transition system of any family of pools whose deliveries are acknowledged. A token
that `acknowledge` returns is a plain value: the owner keeps it, hands it to
`recycle_acknowledged` of any pool, or loses it (`AcknowledgedBuffer` has no destructor,
so dropping it and forgetting it are the same). `LedgerSys` keeps every token ever minted,
with the pool that minted it; the code has no such field.

`Law` is what the ledger is for, and `Lawful` asks it of every state of a run.
-/

set_option autoImplicit false

namespace Ququmatz

/-- Where a token is. -/
inductive TokenState
  | held
  /-- Dropped or forgotten. -/
  | lost
  /-- Given to `recycle_acknowledged`. -/
  | spent
deriving DecidableEq, Repr

/-- A token with the pool that minted it. -/
structure Token (ι : Type) where
  mintedBy : ι
  token : AcknowledgedBuffer
  state : TokenState
deriving DecidableEq, Repr

/-- Whether a token stands for slot `b` of pool `i`. -/
def Token.names {ι : Type} [DecidableEq ι] (i : ι) (b : UInt16) (t : Token ι) : Bool :=
  decide (t.mintedBy = i) && t.token.bufId == b

/-- A family of pools and the tokens they minted, oldest first. -/
structure LedgerSys (ι : Type) where
  pools : ι → ProvidedBufferRing
  tokens : List (Token ι)

/-- The calls of the owner. Tokens are named by their place in `tokens`. -/
inductive LedgerAction (ι : Type)
  | acknowledge (pool : ι) (bufId : UInt16) (len : UInt32)
  | recycleAcknowledged (pool : ι) (tok : Nat)
  | recycleAcknowledgedAndCommit (pool : ι) (tok : Nat)
  | lose (tok : Nat)
deriving DecidableEq, Repr

namespace LedgerSys

variable {ι : Type}

/-- The token at `tok`, if the owner still has it. -/
def heldToken (s : LedgerSys ι) (tok : Nat) : Option (Token ι) :=
  s.tokens[tok]?.filter fun t => decide (t.state = .held)

/-- Change the state of a token. -/
def setState (s : LedgerSys ι) (tok : Nat) (t : Token ι) (state : TokenState) :
    LedgerSys ι :=
  { s with tokens := s.tokens.set tok { t with state := state } }

variable [DecidableEq ι]

/-- Replace a pool. -/
def setPool (s : LedgerSys ι) (i : ι) (p : ProvidedBufferRing) : LedgerSys ι :=
  { s with pools := Function.update s.pools i p }

/-- Hand a held token to a call of pool `i`. Without such a token there is no call. -/
def giveBack (s : LedgerSys ι) (i : ι) (tok : Nat)
    (call : AcknowledgedBuffer → Except Panic ProvidedBufferRing) :
    Except Panic (LedgerSys ι) :=
  match s.heldToken tok with
  | none => .ok s
  | some t => do
      let p ← call t.token
      return (s.setPool i p).setState tok t .spent

/-- One call of the owner. -/
def step (s : LedgerSys ι) : LedgerAction ι → Except Panic (LedgerSys ι)
  | .acknowledge i bufId len => do
      match ← (s.pools i).acknowledge bufId len with
      | (.ok token, p) =>
          let s' := s.setPool i p
          return { s' with tokens := s'.tokens ++ [⟨i, token, .held⟩] }
      | (.error _, p) => return s.setPool i p
  | .recycleAcknowledged i tok => s.giveBack i tok (s.pools i).recycleAcknowledged
  | .recycleAcknowledgedAndCommit i tok =>
      s.giveBack i tok (s.pools i).recycleAcknowledgedAndCommit
  | .lose tok =>
      match s.heldToken tok with
      | none => .ok s
      | some t => .ok (s.setState tok t .lost)

/-- How often slot `b` went back to pool `i`'s producer ring after the registration. -/
def returned (s : LedgerSys ι) (i : ι) (b : UInt16) : Nat :=
  ((s.pools i).produced.drop (s.pools i).entries.toNat).countP fun e => e.bid == b

/-- How often slot `b` was acknowledged on pool `i`. -/
def acknowledged (s : LedgerSys ι) (i : ι) (b : UInt16) : Nat :=
  s.tokens.countP (Token.names i b)

/-- No slot went back more often than it was acknowledged, and the slot of a token that
was not given back, lost or not, cannot be acknowledged. -/
structure Law (s : LedgerSys ι) : Prop where
  once : ∀ i b, s.returned i b ≤ s.acknowledged i b
  guarded : ∀ t ∈ s.tokens, t.state ≠ .spent → ∀ len,
    ∃ e, (s.pools t.mintedBy).acknowledge t.token.bufId len
      = .ok (.error e, s.pools t.mintedBy)

/-- `Law` in every state of a run, and no panic. -/
def Lawful : List (LedgerAction ι) → LedgerSys ι → Prop
  | [], s => s.Law
  | a :: as, s => s.Law ∧ ∃ s', s.step a = .ok s' ∧ Lawful as s'

/-- A call that takes a token is a call of the pool that minted it. -/
def homed (s : LedgerSys ι) : LedgerAction ι → Bool
  | .recycleAcknowledged i tok | .recycleAcknowledgedAndCommit i tok =>
      (s.heldToken tok).all fun t => decide (t.mintedBy = i)
  | _ => true

/-- Every call of a run that takes a token is a call of the pool that minted it. -/
def allHomed : List (LedgerAction ι) → LedgerSys ι → Bool
  | [], _ => true
  | a :: as, s =>
      s.homed a &&
        match s.step a with
        | .ok s' => allHomed as s'
        | .error _ => true

/-- Pools as they were registered, and no token. -/
def init (pools : ι → ProvidedBufferRing) : LedgerSys ι := ⟨pools, []⟩

end LedgerSys

end Ququmatz
