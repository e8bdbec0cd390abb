import Zdb.RaftLog

/-! Arguments and replies of the three RPCs, the persisted state, and what each
thread of a `RaftImpl` object keeps in its locals while mutex `m` is free. -/

namespace Zdb.Raft

abbrev PeerId := String

inductive Role where
  | follower
  | candidate
  | leader
  deriving DecidableEq, Repr

structure PersistentState where
  currentTerm : ℕ := 0
  votedFor : Option PeerId := none
  log : Log := {}
  snapshotData : Bytes := []
  lastIncludedIndex : ℕ := 0
  lastIncludedTerm : ℕ := 0
  deriving DecidableEq, Repr

/-- The constructor of `PersistentState` copies the entries by merging them
into an empty log. -/
def PersistentState.make (currentTerm : ℕ) (votedFor : Option PeerId) (log : Log)
    (snapshotData : Bytes) (lastIncludedIndex lastIncludedTerm : ℕ) : PersistentState where
  currentTerm := currentTerm
  votedFor := votedFor
  log := (Log.clear {}).merge log
  snapshotData := snapshotData
  lastIncludedIndex := lastIncludedIndex
  lastIncludedTerm := lastIncludedTerm

structure AppendEntriesArg where
  leaderId : PeerId
  term : ℕ
  prevLogIndex : ℕ
  prevLogTerm : ℕ
  leaderCommit : ℕ
  entries : Log
  deriving DecidableEq, Repr

/-- The conflict fields have no initialiser; `none` is a field nobody assigned. -/
structure AppendEntriesReply where
  success : Bool
  term : ℕ
  conflictTerm : Option ℕ := none
  conflictIndex : Option ℕ := none
  deriving DecidableEq, Repr

structure RequestVoteArg where
  candidateId : PeerId
  term : ℕ
  lastLogIndex : ℕ
  lastLogTerm : ℕ
  deriving DecidableEq, Repr

structure RequestVoteReply where
  voteGranted : Bool
  term : ℕ
  deriving DecidableEq, Repr

structure InstallSnapshotArg where
  leaderId : PeerId
  term : ℕ
  lastIncludedIndex : ℕ
  lastIncludedTerm : ℕ
  data : Bytes
  deriving DecidableEq, Repr

structure InstallSnapshotReply where
  success : Bool
  term : ℕ
  deriving DecidableEq, Repr

/-- One `peer.call`. The number tells repeated calls with equal arguments apart. -/
structure Call (Arg : Type) where
  number : ℕ
  caller : PeerId
  callee : PeerId
  arg : Arg
  deriving DecidableEq, Repr

structure Answer (Arg Reply : Type) where
  call : Call Arg
  reply : Reply
  deriving DecidableEq, Repr

inductive RequestVoteThread where
  | waiting
  | calling (call : Call RequestVoteArg)
  deriving DecidableEq, Repr

/-- Where the replication thread of one peer stands; `n` is its local of that
name, and `finishing` is after `applyCommittedEntries` has returned. -/
inductive AppendEntriesPoint where
  | waiting
  | installing (call : Call InstallSnapshotArg) (arg : AppendEntriesArg) (n : ℕ)
  | appending (call : Call AppendEntriesArg) (n : ℕ)
  | applying
  | finishing
  deriving DecidableEq, Repr

/-- `sendSnapshot` is declared outside the loop and outlives its iterations. -/
structure AppendEntriesThread where
  sendSnapshot : Bool := false
  point : AppendEntriesPoint := .waiting
  deriving DecidableEq, Repr

inductive SnapshotThread where
  | waiting
  | sending (index term : ℕ) (data : Bytes)
  | sent (index term : ℕ)
  deriving DecidableEq, Repr

/-- Who called `applyCommittedEntries` and what it does afterwards. -/
inductive ApplyCaller where
  | handler (call : Call AppendEntriesArg) (reply : AppendEntriesReply)
  | leader (peerId : PeerId)
  deriving DecidableEq, Repr

/-- The holder of `applyMutex` while it has released `m`: before and after
`sendUntil` returns true. -/
inductive ApplyPoint where
  | sending (i : ℕ) (c : LogEntry)
  | sent (i : ℕ)
  deriving DecidableEq, Repr

inductive Item where
  | command (entry : LogEntry)
  | snapshot (lastIncludedIndex lastIncludedTerm : ℕ) (data : Bytes)
  deriving DecidableEq, Repr

end Zdb.Raft
