import Mathlib.Data.List.Dedup
import Mathlib.Logic.Function.Basic
import Zdb.RaftTypes

/-! `raft::RaftImpl`, one definition for each stretch of code that runs with
mutex `m` held. A stretch that ends in `unlock` or in a call to a peer leaves
the locals it still needs in the thread it belongs to. `stopCalls` and
`lastHeartbeat` are left out: the first only cuts retries of a call short and
the second only delays `initVote`, and whether a call is answered or a timeout
has expired is open here in any case. Terms and indices are 64-bit counters that
a run would have to increment 2^64 times to wrap. -/

namespace Zdb.Raft

structure Membership where
  peers : List PeerId
  nonempty : peers ≠ []
  size_le : peers.length ≤ 255

/-- `Raft::clusterSize` is a `uint8_t`. -/
def clusterSize (peers : List PeerId) : ℕ := peers.length % 256

def majority (peers : List PeerId) : ℕ := clusterSize peers / 2 + 1

/-- The keys of the per-peer maps: `std::erase(p, selfId)`, repetitions merged. -/
def otherPeers (peers : List PeerId) (selfId : PeerId) : List PeerId :=
  (peers.filter (· ≠ selfId)).dedup

/-- The log and its snapshot point; the point is stored here and in `mainLog`. -/
structure Store where
  mainLog : Log := {}
  lastIncludedIndex : ℕ := 0
  lastIncludedTerm : ℕ := 0
  snapshotData : Bytes := []

structure Campaign where
  shouldStartElection : PeerId → Bool := fun _ => false
  votesGranted : ℕ := 0
  requestVoteArg : RequestVoteArg := ⟨"", 0, 0, 0⟩
  requestVoteThread : PeerId → RequestVoteThread := fun _ => .waiting

structure Replication where
  nextIndex : PeerId → ℕ := fun _ => 1
  matchIndex : PeerId → ℕ := fun _ => 0
  appendEntriesThread : PeerId → AppendEntriesThread := fun _ => {}

/-- What lies between the log and the state machine. `applyQueue` holds the
callers of `applyCommittedEntries` that wait for `applyMutex`, `applyThread` the
one that has it, and `stateMachine` what the channel was given since boot. -/
structure Delivery where
  commitIndex : ℕ := 0
  lastApplied : ℕ := 0
  pendingSnapshot : Bool := false
  applyQueue : List ApplyCaller := []
  applyThread : Option (ApplyCaller × ApplyPoint) := none
  snapshotThread : SnapshotThread := .waiting
  stateMachine : List Item := []

/-- `terminated`: an exception has left a thread function or an `extern "C"`
function, and the process is gone. -/
structure Control where
  shouldStartHeartbeat : PeerId → Bool := fun _ => false
  appendNow : PeerId → Bool := fun _ => false
  persister : PersistentState := {}
  killed : Bool := false
  terminated : Bool := false

structure Node extends Store, Campaign, Replication, Delivery, Control where
  role : Role := .follower
  currentTerm : ℕ := 0
  votedFor : Option PeerId := none

inductive Output where
  | nothing
  | requestVote (call : Call RequestVoteArg)
  | appendEntries (call : Call AppendEntriesArg)
  | installSnapshot (call : Call InstallSnapshotArg)
  | requestVoteAnswer (answer : Answer RequestVoteArg RequestVoteReply)
  | appendEntriesAnswer (answer : Answer AppendEntriesArg AppendEntriesReply)
  | installSnapshotAnswer (answer : Answer InstallSnapshotArg InstallSnapshotReply)
  deriving DecidableEq, Repr

namespace Node

def persist (n : Node) : Node :=
  { n with
    persister := .make n.currentTerm n.votedFor (.ofEntries n.mainLog.data) n.snapshotData
      n.lastIncludedIndex n.lastIncludedTerm }

def readPersist (n : Node) (s : PersistentState) : Node :=
  if n.killed || n.pendingSnapshot then n
  else
    { n with
      currentTerm := s.currentTerm
      votedFor := s.votedFor
      mainLog := (n.mainLog.clear.merge s.log).setLastIncluded s.lastIncludedIndex
        s.lastIncludedTerm
      lastIncludedIndex := s.lastIncludedIndex
      lastIncludedTerm := s.lastIncludedTerm
      snapshotData := s.snapshotData
      pendingSnapshot := !s.snapshotData.isEmpty }

def boot (disk : PersistentState) : Node := readPersist { persister := disk } disk

def becameFollower (n : Node) (term : ℕ) (peerId : PeerId) : Node × Bool :=
  if n.currentTerm < term then
    let n := persist { n with currentTerm := term, role := .follower, votedFor := none }
    ({ n with
        appendNow := Function.update n.appendNow peerId false
        shouldStartHeartbeat := Function.update n.shouldStartHeartbeat peerId false }, true)
  else (n, false)

def hasVote (n : Node) (candidateId : PeerId) : Bool :=
  n.votedFor == some candidateId || n.votedFor == none

def upToDate (n : Node) (lastLogIndex lastLogTerm : ℕ) : Bool :=
  (n.mainLog.lastTerm == lastLogTerm && decide (n.mainLog.lastIndex ≤ lastLogIndex)) ||
    decide (n.mainLog.lastTerm < lastLogTerm)

def requestVoteHandler (n : Node) (arg : RequestVoteArg) : Node × RequestVoteReply :=
  if n.killed then (n, ⟨false, n.currentTerm⟩)
  else if arg.term < n.currentTerm then (n, ⟨false, n.currentTerm⟩)
  else
    let n := (n.becameFollower arg.term arg.candidateId).1
    if n.hasVote arg.candidateId && n.upToDate arg.lastLogIndex arg.lastLogTerm then
      (persist { n with votedFor := some arg.candidateId, role := .follower },
        ⟨true, n.currentTerm⟩)
    else (n, ⟨false, n.currentTerm⟩)

def accepts (n : Node) (arg : AppendEntriesArg) : Bool :=
  arg.prevLogIndex == 0 || match n.mainLog.atIndex arg.prevLogIndex with
    | some e => e.term == arg.prevLogTerm
    | none => arg.prevLogIndex == n.lastIncludedIndex && arg.prevLogTerm == n.lastIncludedTerm

/-- The last component says whether `applyCommittedEntries` is called next. -/
def appendEntriesHandler (n : Node) (arg : AppendEntriesArg) :
    Node × AppendEntriesReply × Bool :=
  if n.killed || n.pendingSnapshot then (n, { success := false, term := n.currentTerm }, false)
  else if arg.term < n.currentTerm then
    (n, { success := false, term := n.currentTerm }, false)
  else
    let n := (n.becameFollower arg.term arg.leaderId).1
    if n.accepts arg then
      let n := persist { n with mainLog := n.mainLog.merge arg.entries, role := .follower }
      let reply : AppendEntriesReply := { success := true, term := n.currentTerm }
      if n.commitIndex < arg.leaderCommit then
        ({ n with commitIndex := min arg.leaderCommit n.mainLog.lastIndex }, reply, true)
      else (n, reply, false)
    else match n.mainLog.atIndex arg.prevLogIndex with
      | some e =>
          (n, ⟨false, n.currentTerm, some e.term, some (n.mainLog.termFirstIndex e.term)⟩, false)
      | none => (n, ⟨false, n.currentTerm, some 0, some (n.mainLog.lastIndex + 1)⟩, false)

def installSnapshotHandler (n : Node) (arg : InstallSnapshotArg) :
    Node × InstallSnapshotReply :=
  if n.killed || n.pendingSnapshot then (n, ⟨false, n.currentTerm⟩)
  else if arg.term < n.currentTerm then (n, ⟨false, n.currentTerm⟩)
  else
    let n := (n.becameFollower arg.term arg.leaderId).1
    let n := persist { n with
      mainLog := n.mainLog.trimPrefix arg.lastIncludedIndex arg.lastIncludedTerm
      lastIncludedIndex := arg.lastIncludedIndex
      lastIncludedTerm := arg.lastIncludedTerm
      snapshotData := arg.data }
    ({ n with pendingSnapshot := true }, ⟨true, n.currentTerm⟩)

def setPoint (n : Node) (peerId : PeerId) (point : AppendEntriesPoint) : Node :=
  { n with
    appendEntriesThread := Function.update n.appendEntriesThread peerId
      { n.appendEntriesThread peerId with point } }

/-- Go on as the caller of `applyCommittedEntries`: a handler returns its reply. -/
def resume (n : Node) : ApplyCaller → Node × Output
  | .handler call reply => (n, .appendEntriesAnswer ⟨call, reply⟩)
  | .leader peerId => (n.setPoint peerId .finishing, .nothing)

def applyReturn (n : Node) (caller : ApplyCaller) : Node × Output :=
  ({ n with applyThread := none }).resume caller

/-- One round of the loop of `applyCommittedEntries`, up to its `unlock`. -/
def applyLoop (n : Node) (caller : ApplyCaller) : Node × Output :=
  if n.commitIndex ≤ n.lastApplied then n.applyReturn caller
  else match n.mainLog.atIndex (n.lastApplied + 1) with
    | none => n.applyReturn caller
    | some c => ({ n with applyThread := some (caller, .sending (n.lastApplied + 1) c) }, .nothing)

def applyCommittedEntries (n : Node) (caller : ApplyCaller) : Node × Output :=
  if n.commitIndex ≤ n.lastApplied || n.pendingSnapshot then n.applyReturn caller
  else n.applyLoop caller

/-- The `k`-th waiting caller takes `applyMutex` and `m`. -/
def applyEnter (n : Node) (k : ℕ) : Option (Node × Output) :=
  match n.applyThread, n.applyQueue[k]? with
  | none, some caller =>
      some (({ n with applyQueue := n.applyQueue.eraseIdx k }).applyCommittedEntries caller)
  | _, _ => none

def applySend (n : Node) (ok : Bool) : Option (Node × Output) :=
  match n.applyThread with
  | some (caller, .sending i c) =>
      if ok then
        some ({ n with
          stateMachine := n.stateMachine ++ [.command c]
          applyThread := some (caller, .sent i) }, .nothing)
      else some (n.applyReturn caller)
  | _ => none

def applyRelock (n : Node) : Option (Node × Output) :=
  match n.applyThread with
  | some (caller, .sent i) => some (({ n with lastApplied := i }).applyLoop caller)
  | _ => none

def snapshotTake (n : Node) : Option (Node × Output) :=
  if n.snapshotThread = .waiting ∧ n.killed = false ∧ n.pendingSnapshot = true then
    some ({ n with
      snapshotThread := .sending n.lastIncludedIndex n.lastIncludedTerm n.snapshotData },
      .nothing)
  else none

def snapshotSend (n : Node) (ok : Bool) : Option (Node × Output) :=
  match n.snapshotThread with
  | .sending index term data =>
      if ok then
        some ({ n with
          stateMachine := n.stateMachine ++ [.snapshot index term data]
          snapshotThread := .sent index term }, .nothing)
      else some ({ n with snapshotThread := .waiting }, .nothing)
  | _ => none

def snapshotRelock (n : Node) : Option (Node × Output) :=
  match n.snapshotThread with
  | .sent index term =>
      if n.lastIncludedIndex = index ∧ n.lastIncludedTerm = term then
        some ({ n with
          lastApplied := index
          commitIndex := index
          pendingSnapshot := false
          snapshotThread := .waiting }, .nothing)
      else some ({ n with snapshotThread := .waiting }, .nothing)
  | _ => none

/-- `elapsed`: the last heartbeat is at least one election timeout ago. -/
def initVote (selfId : PeerId) (elapsed : Bool) (n : Node) : Node :=
  if n.role = .leader ∨ elapsed = false then n
  else
    let n := persist { n with
      role := .candidate, currentTerm := n.currentTerm + 1, votedFor := some selfId }
    { n with
      requestVoteArg := ⟨selfId, n.currentTerm, n.mainLog.lastIndex, n.mainLog.lastTerm⟩
      votesGranted := 1
      shouldStartElection := fun _ => true }

def heartbeat (n : Node) : Node :=
  if n.role = .leader then { n with shouldStartHeartbeat := fun _ => true } else n

def requestVote (selfId : PeerId) (number : ℕ) (n : Node) (peerId : PeerId) :
    Option (Node × Output) :=
  if n.requestVoteThread peerId = .waiting ∧ n.killed = false ∧ n.role = .candidate ∧
      n.shouldStartElection peerId = true then
    let call : Call RequestVoteArg := ⟨number, selfId, peerId, n.requestVoteArg⟩
    some ({ n with
      shouldStartElection := Function.update n.shouldStartElection peerId false
      requestVoteThread := Function.update n.requestVoteThread peerId (.calling call) },
      .requestVote call)
  else none

def becomeLeader (n : Node) : Node :=
  { n with
    role := .leader
    nextIndex := fun _ => n.mainLog.lastIndex + 1
    matchIndex := fun _ => 0
    appendNow := fun _ => true }

def requestVoteReply (peers : List PeerId) (n : Node) (peerId : PeerId) (arg : RequestVoteArg)
    (reply : Option RequestVoteReply) : Node :=
  let n := { n with requestVoteThread := Function.update n.requestVoteThread peerId .waiting }
  if n.killed = true ∨ n.role ≠ .candidate then n
  else match reply with
    | none => n
    | some r =>
        let followed := n.becameFollower r.term peerId
        let n := followed.1
        if followed.2 then n
        else if r.term < n.currentTerm ∨ arg.term ≠ n.currentTerm then n
        else if r.voteGranted then
          let n := { n with votesGranted := n.votesGranted + 1 }
          if majority peers ≤ n.votesGranted then n.becomeLeader else n
        else n

def setSendSnapshot (n : Node) (peerId : PeerId) (sendSnapshot : Bool) : Node :=
  { n with
    appendEntriesThread := Function.update n.appendEntriesThread peerId
      { n.appendEntriesThread peerId with sendSnapshot } }

def clearFlags (n : Node) (peerId : PeerId) : Node :=
  { n with
    appendNow := Function.update n.appendNow peerId false
    shouldStartHeartbeat := Function.update n.shouldStartHeartbeat peerId false }

def raiseAppendNow (n : Node) (peerId : PeerId) : Node :=
  { n with appendNow := Function.update n.appendNow peerId true }

/-- `prevLogTerm` of a new argument; `none` is the error branch. -/
def prevLogTerm (n : Node) (sendSnapshot : Bool) (prevLogIndex : ℕ) : Option ℕ :=
  match n.mainLog.atIndex prevLogIndex with
  | some e => some e.term
  | none =>
      if sendSnapshot || prevLogIndex ≤ n.lastIncludedIndex then some n.lastIncludedTerm
      else if prevLogIndex ≠ 0 then none
      else some 0

def appendEntries (selfId : PeerId) (number snapNumber : ℕ) (n : Node) (peerId : PeerId) :
    Option (Node × Output) :=
  if (n.appendEntriesThread peerId).point = .waiting ∧ n.killed = false ∧ n.role = .leader ∧
      (n.appendNow peerId || n.shouldStartHeartbeat peerId) = true then
    let behind := decide (n.nextIndex peerId < n.mainLog.firstIndex)
    if behind && n.pendingSnapshot then some (n, .nothing)
    else
      let sendSnapshot := (n.appendEntriesThread peerId).sendSnapshot || behind
      let next := if behind then n.mainLog.firstIndex else n.nextIndex peerId
      let g := n.mainLog.suffix next
      let prevLogIndex := next - 1
      match n.prevLogTerm sendSnapshot prevLogIndex with
      | none => some (n.raiseAppendNow peerId, .nothing)
      | some prevLogTerm =>
          let arg : AppendEntriesArg := ⟨selfId, n.currentTerm, prevLogIndex, prevLogTerm,
            n.commitIndex, .ofEntries g.data⟩
          if sendSnapshot then
            let call : Call InstallSnapshotArg := ⟨snapNumber, selfId, peerId, selfId,
              n.currentTerm, n.lastIncludedIndex, n.lastIncludedTerm, n.persister.snapshotData⟩
            some ((n.setSendSnapshot peerId true).setPoint peerId (.installing call arg next),
              .installSnapshot call)
          else
            let call : Call AppendEntriesArg := ⟨number, selfId, peerId, arg⟩
            some (n.setPoint peerId (.appending call next), .appendEntries call)
  else none

/-- `appendEntries(peerId)` from the return of its InstallSnapshot call to its
AppendEntries call with the argument built before. -/
def installSnapshotReply (selfId : PeerId) (number : ℕ) (n : Node) (peerId : PeerId)
    (snapArg : InstallSnapshotArg) (arg : AppendEntriesArg) (next : ℕ)
    (reply : Option InstallSnapshotReply) : Node × Output :=
  let n := n.setPoint peerId .waiting
  if n.killed = true ∨ n.role ≠ .leader then (n.clearFlags peerId, .nothing)
  else match reply with
    | none => (n, .nothing)
    | some r =>
        let followed := n.becameFollower r.term peerId
        let n := followed.1
        if followed.2 then (n, .nothing)
        else if r.term < n.currentTerm ∨ snapArg.term ≠ n.currentTerm then (n, .nothing)
        else if r.success then
          let call : Call AppendEntriesArg := ⟨number, selfId, peerId, arg⟩
          ((({ n with
              nextIndex := Function.update n.nextIndex peerId (n.lastIncludedIndex + 1)
              matchIndex := Function.update n.matchIndex peerId n.lastIncludedIndex
              }).setSendSnapshot peerId false).setPoint peerId (.appending call next),
            .appendEntries call)
        else (n, .nothing)

def matchCount (peers : List PeerId) (selfId : PeerId) (n : Node) (i : ℕ) : ℕ :=
  1 + (otherPeers peers selfId).countP fun peer => decide (i ≤ n.matchIndex peer)

inductive Scan where
  | nothing
  | commit (i : ℕ)
  | missing
  deriving DecidableEq, Repr

/-- The commit scan, downwards from `i`; `missing` is `at(i).value()` on
nullopt. -/
def commitScan (peers : List PeerId) (selfId : PeerId) (n : Node) : ℕ → Scan
  | 0 => .nothing
  | i + 1 =>
      if n.commitIndex < i + 1 then
        match n.mainLog.atIndex (i + 1) with
        | none => .missing
        | some e =>
            if e.term = n.currentTerm then
              if majority peers ≤ n.matchCount peers selfId (i + 1) then .commit (i + 1)
              else commitScan peers selfId n i
            else .nothing
      else .nothing

def backUp (n : Node) (conflictTerm conflictIndex : ℕ) : ℕ :=
  let last := n.mainLog.termLastIndex conflictTerm
  let next := if last ≠ 0 then last + 1 else conflictIndex
  if next < 1 then 1 else if n.mainLog.lastIndex + 1 < next then n.mainLog.lastIndex + 1 else next

/-- `appendEntries(peerId)` after its AppendEntries call has returned. Conflict
fields nobody assigned hold `unset`. An exception that leaves the thread
function ends the process. -/
def appendEntriesReply (peers : List PeerId) (selfId : PeerId) (n : Node) (peerId : PeerId)
    (arg : AppendEntriesArg) (next : ℕ) (reply : Option AppendEntriesReply) (unset : ℕ × ℕ) :
    Node :=
  let n := n.setPoint peerId .waiting
  if n.killed = true ∨ n.role ≠ .leader then n.clearFlags peerId
  else match reply with
    | none => n.raiseAppendNow peerId
    | some r =>
        let followed := n.becameFollower r.term peerId
        let n := followed.1
        if followed.2 then n
        else if r.term < n.currentTerm ∨ arg.term ≠ n.currentTerm then n.raiseAppendNow peerId
        else if r.success then
          let next' := next + arg.entries.data.length
          let n := { n with
            nextIndex := Function.update n.nextIndex peerId next'
            matchIndex := Function.update n.matchIndex peerId (next' - 1) }
          match n.commitScan peers selfId n.mainLog.lastIndex with
          | .nothing => n.clearFlags peerId
          | .commit i =>
              { n.setPoint peerId .applying with
                commitIndex := i, applyQueue := n.applyQueue ++ [.leader peerId] }
          | .missing => { n with terminated := true }
        else
          let next' := n.backUp (r.conflictTerm.getD unset.1) (r.conflictIndex.getD unset.2)
          { n with nextIndex := Function.update n.nextIndex peerId next' }.raiseAppendNow peerId

def appendEntriesFinish (n : Node) (peerId : PeerId) : Option (Node × Output) :=
  if (n.appendEntriesThread peerId).point = .finishing then
    some ((n.setPoint peerId .waiting).clearFlags peerId, .nothing)
  else none

def start (n : Node) (command : Command) : Node × Bool :=
  if n.killed = true ∨ n.role ≠ .leader then (n, false)
  else if n.pendingSnapshot then (n, false)
  else
    let e : LogEntry := ⟨n.mainLog.lastIndex + 1, n.currentTerm, command⟩
    let n := persist { n with mainLog := n.mainLog.append e }
    ({ n with appendNow := fun _ => true }, true)

/-- `at(index).value()` on nullopt throws through `raft_snapshot`, an
`extern "C"` function without a handler, and ends the process. -/
def snapshot (n : Node) (index : ℕ) (data : Bytes) : Node :=
  if n.killed || n.pendingSnapshot then n
  else if index < n.lastIncludedIndex then n
  else if n.mainLog.lastIndex < index then n
  else if index = n.lastIncludedIndex then persist { n with snapshotData := data }
  else match n.mainLog.atIndex index with
    | none => { n with terminated := true }
    | some e => persist { n with
        lastIncludedIndex := index
        lastIncludedTerm := e.term
        mainLog := n.mainLog.trimPrefix index e.term
        snapshotData := data }

def kill (n : Node) : Node := { n with killed := true }

end Node

end Zdb.Raft
