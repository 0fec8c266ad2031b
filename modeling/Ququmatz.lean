import Ququmatz.Lib.Prog
import Ququmatz.Lib.Wrap
import Ququmatz.Lib.Spsc
import Ququmatz.Types
import Ququmatz.Ring.Basic
import Ququmatz.Ring.Resources
import Ququmatz.Ring.Kernel
import Ququmatz.Ring.System
import Ququmatz.Ring.Ops
import Ququmatz.Ring.DoCalls
import Ququmatz.Ring.Sqpoll
import Ququmatz.Proofs.Ring.Queues
import Ququmatz.Proofs.Ring.Histories
import Ququmatz.Proofs.Ring.Calls
import Ququmatz.Proofs.Ring.System
import Ququmatz.Proofs.Ring.Fifo
import Ququmatz.Proofs.Ring.Counts
import Ququmatz.Proofs.Ring.Ops
import Ququmatz.Proofs.Ring.Sqpoll
import Ququmatz.Pool.Basic
import Ququmatz.Pool.Register
import Ququmatz.Pool.Ledger
import Ququmatz.Lib.Bitmap
import Ququmatz.Proofs.Pool.Basic
import Ququmatz.Proofs.Pool.Ledger
import Ququmatz.Owned.Event
import Ququmatz.Owned.Multishot
import Ququmatz.Pool.Guards
import Ququmatz.Proofs.Pool.Guards
import Ququmatz.Pool.Incremental
import Ququmatz.Lib.Bytes
import Ququmatz.Proofs.Pool.Incremental
import Ququmatz.Lib.Range
import Ququmatz.Op
import Ququmatz.Owned.Buffer
import Ququmatz.Owned.Request
import Ququmatz.Owned.Footprint
import Ququmatz.Proofs.Owned.Footprint
import Ququmatz.Owned.Queue
import Ququmatz.Proofs.Owned.Queue
import Ququmatz.Proofs.Ring.DoCalls
import Ququmatz.Pool.Producer
import Ququmatz.Proofs.Pool.Producer
import Ququmatz.Owned.Accept
import Ququmatz.Owned.Delivery
import Ququmatz.Proofs.Owned.Delivery
import Ququmatz.Owned.Submitter
import Ququmatz.Owned.Identity
import Ququmatz.Proofs.Owned.Identity
import Ququmatz.Proofs.Owned.Submitter
import Ququmatz.Lib.Ledger
import Ququmatz.Ring.Os
import Ququmatz.Proofs.Ring.Os
import Ququmatz.Ring.Setup
import Ququmatz.Proofs.Ring.Setup
import Ququmatz.Ring.Lifetime
import Ququmatz.Proofs.Ring.Lifetime
import Ququmatz.Proofs.Ring.Groups
import Ququmatz.Lib.FlagWord
import Ququmatz.Op.SendRecv
import Ququmatz.Proofs.Op.SendRecv
import Ququmatz.Lib.Round
import Ququmatz.Ring.NoMmap
import Ququmatz.Proofs.Ring.NoMmap
import Ququmatz.Lib.Words
import Ququmatz.Native
import Ququmatz.Ring.Layout
import Ququmatz.Proofs.Ring.Layout
import Ququmatz.Proofs.Ring.Masks
import Ququmatz.Owned.ZeroCopy
import Ququmatz.Proofs.Owned.ZeroCopy
import Ququmatz.Owned.MsgRegion
import Ququmatz.Lib.Record
import Ququmatz.Proofs.Owned.MsgRegion
import Ququmatz.Owned.Recvmsg
import Ququmatz.Proofs.Owned.Recvmsg
import Ququmatz.Lib.Indexing
import Ququmatz.Pool.RecvmsgOut
import Ququmatz.Proofs.Pool.RecvmsgOut
import Ququmatz.Ring.Transfer
import Ququmatz.Proofs.Ring.Transfer
import Ququmatz.Owned.FilesUpdate
import Ququmatz.Proofs.Owned.FilesUpdate
import Ququmatz.Proofs.Owned.Staging
import Ququmatz.Lib.CString
import Ququmatz.Owned.Path
import Ququmatz.Proofs.Owned.Path
import Ququmatz.Lib.FlagExpr
import Ququmatz.Lib.Layout
import Ququmatz.Types.Fs
import Ququmatz.Owned.Openat2
import Ququmatz.Proofs.Owned.Openat2
import Ququmatz.Owned.Outcome
import Ququmatz.Proofs.Owned.Outcome
import Ququmatz.Owned.Direct
import Ququmatz.Proofs.Owned.Direct
import Ququmatz.Owned.FutexWaitv
import Ququmatz.Owned.Staged
import Ququmatz.Owned.Staging
import Ququmatz.Owned.StagedRun
import Ququmatz.Proofs.Owned.Staged
import Ququmatz.Pool.Slices
import Ququmatz.Proofs.Pool.Slices
import Ququmatz.Lib.Loans
import Ququmatz.Owned.PathRequests
import Ququmatz.Types.Written
import Ququmatz.Owned.Control
import Ququmatz.Owned.Destinations
import Ququmatz.Owned.Kind
import Ququmatz.Owned.Kinds
import Ququmatz.Owned.Reached
import Ququmatz.Owned.Custody
import Ququmatz.Proofs.Owned.Custody
import Ququmatz.Proofs.Owned.Kinds
import Ququmatz.Proofs.Owned.Reached
import Ququmatz.Proofs.Owned.Plain
import Ququmatz.Proofs.Owned.Receipts
import Ququmatz.Proofs.Owned.Reclaim
import Ququmatz.Lib.Channel
import Ququmatz.Proofs.Ring.Channel
import Ququmatz.Proofs.Ring.Progress
import Ququmatz.Proofs.Ring.Split
import Ququmatz.Owned.Heap
import Ququmatz.Proofs.Owned.Heap
import Ququmatz.Owned.Rings
import Ququmatz.Proofs.Owned.Rings
import Ququmatz.Lib.Simulation
import Ququmatz.Lib.Cells
import Ququmatz.Types.Entries
import Ququmatz.Ring.Bytes
import Ququmatz.Proofs.Ring.Bytes
import Ququmatz.Proofs.Ring.Mapped
import Ququmatz.Owned.Descriptors
import Ququmatz.Proofs.Owned.Results
import Ququmatz.Proofs.Owned.Descriptors
