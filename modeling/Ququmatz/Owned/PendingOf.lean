import Ququmatz.Owned.Event
import Ququmatz.Types

/-!
# `Ququmatz.Owned.PendingOf`: tickets that keep their request

Most requests of `src/owned/` go through the same three functions. `into_pending` moves what the
request was made of into the ticket, beside the identity, `reclaim_unsubmitted` moves it back, and
`redeem` compares the receipt with the identity and builds the completion. `PendingOf K` is the
ticket of a request that keeps a `K`. The tickets of the source whose fields are those of the
request and the two identities are `PendingOf` of it.
-/

set_option autoImplicit false

namespace Ququmatz

/-- What a ticket keeps, and the identity of the push. -/
structure PendingOf (K : Type) where
  kept : K
  ring : RingId
  id : RequestId
deriving DecidableEq, Repr

namespace PendingOf

variable {K D : Type}

/-- `into_pending` of a request with the SQE and what it keeps. -/
def stamp (sqe : Sqe) (kept : K) (ring : RingId) (id : RequestId) : Sqe × PendingOf K :=
  (sqe.withUserData id.raw, { kept := kept, ring := ring, id := id })

/-- `redeem` with the completion that it builds. -/
def redeemAs (done : K → RequestId → Int32 → D) (self : PendingOf K) (receipt : Receipt) :
    Except (PendingOf K × Receipt) D :=
  if !receipt.belongsTo self.ring self.id then .error (self, receipt)
  else .ok (done self.kept self.id receipt.result)

end PendingOf

end Ququmatz
