import Zdb.LabelledRun
import Zdb.TermLog
import Zdb.LogReplication
import Zdb.LogReplicationInvariant
import Zdb.LeaderCompleteness
import Zdb.Command
import Zdb.RaftLog
import Zdb.LogShape
import Zdb.RaftTypes
import Zdb.RaftNode
import Zdb.Cluster
import Zdb.Persistence
import Zdb.Moves
import Zdb.History
import Zdb.Election
import Zdb.Messages
import Zdb.Contiguity
import Zdb.LogicalLog
import Zdb.Delivery
import Zdb.Merging
import Zdb.Refinement
import Zdb.Durability
import Zdb.SnapshotFree
import Zdb.Commitment
import Zdb.StateMachineSafety
import Zdb.Counting
import Zdb.Majority
import Zdb.TermOrder
import Zdb.Lookup
import Zdb.KVStore
import Zdb.Linearizability
import Zdb.Rsm
import Zdb.RsmMoves
import Zdb.Origin
import Zdb.PendingSnapshot
import Zdb.StartOrder
import Zdb.Responses
import Zdb.Registration
import Zdb.Replay
import Zdb.HandleOrder
import Zdb.ErrorConverter
import Zdb.Resumption
import Zdb.Retry
import Zdb.Backoff
import Zdb.RepeatedCalls
import Zdb.KVStoreClient
import Zdb.ClientReplies
import Zdb.BreakerHistory
import Zdb.ServiceSelection
import Zdb.ReliableClient
import Zdb.Sessions
import Zdb.SessionMoves
import Zdb.ClientEffects
import Zdb.ClientErrors
import Zdb.Lock
import Zdb.LockSafety
import Zdb.LogMerge
import Zdb.LogCompaction
import Zdb.ConflictHints
import Zdb.FastBackup
import Zdb.Protobuf
import Zdb.WireFormat
import Zdb.GoPersister
import Zdb.Transports
import Zdb.StoreHistory
import Zdb.Oracle
import Zdb.CompactedSafety
import Zdb.EntryIdentity
import Zdb.Lifecycle
import Zdb.LiveMajority
import Zdb.LiveElection
import Zdb.LiveCommit
import Zdb.Shutdown
import Zdb.SyncChannel
import Zdb.AsyncTimer
import Zdb.GoChannel
import Zdb.GoSubmit
import Zdb.GoRsm
import Zdb.ClientHistory
import Zdb.GoRpc
import Zdb.BreakerLoad
