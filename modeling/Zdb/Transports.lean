import Zdb.Cluster
import Zdb.WireFormat

/-! The two ways into a `RaftImpl`: the gRPC service and the functions that Go calls.
Each hands the request to the same handler and copies the reply into a message field
by field. The functions for Go take and give bytes, gRPC does the same to its messages
outside the service. An AppendEntries reply is copied whole, fields nobody has assigned
included; `unset` is what is in them, which two executions need not agree on. -/

namespace Zdb.Proto
open Protobuf

structure RequestVoteArg where
  candidateId : String
  term : ℕ
  lastLogIndex : ℕ
  lastLogTerm : ℕ
  deriving DecidableEq, Repr

structure RequestVoteReply where
  voteGranted : Bool := false
  term : ℕ := 0
  deriving DecidableEq, Repr

structure AppendEntriesReply where
  success : Bool := false
  term : ℕ := 0
  conflictTerm : ℕ := 0
  conflictIndex : ℕ := 0
  deriving DecidableEq, Repr

structure InstallSnapshotArg where
  leaderId : String
  term : ℕ
  lastIncludedIndex : ℕ
  lastIncludedTerm : ℕ
  data : Bytes
  deriving DecidableEq, Repr

structure InstallSnapshotReply where
  success : Bool := false
  term : ℕ := 0
  deriving DecidableEq, Repr

def requestVoteArgMessage : Message RequestVoteArg where
  fields a := bytesField 1 (ofString a.candidateId) ++ (uintField 2 a.term ++
    (uintField 3 a.lastLogIndex ++ uintField 4 a.lastLogTerm))
  ofFields r := (toString? (r.bytes 1)).map fun candidateId =>
    ⟨candidateId, r.uint 2, r.uint 3, r.uint 4⟩

def requestVoteReplyMessage : Message RequestVoteReply where
  fields p := boolField 1 p.voteGranted ++ uintField 2 p.term
  ofFields r := some ⟨r.bool 1, r.uint 2⟩

def appendEntriesReplyMessage : Message AppendEntriesReply where
  fields p := boolField 1 p.success ++ (uintField 2 p.term ++
    (uintField 3 p.conflictTerm ++ uintField 4 p.conflictIndex))
  ofFields r := some ⟨r.bool 1, r.uint 2, r.uint 3, r.uint 4⟩

def installSnapshotArgMessage : Message InstallSnapshotArg where
  fields a := bytesField 1 (ofString a.leaderId) ++ (uintField 2 a.term ++
    (uintField 3 a.lastIncludedIndex ++ (uintField 4 a.lastIncludedTerm ++ bytesField 5 a.data)))
  ofFields r := (toString? (r.bytes 1)).map fun leaderId =>
    ⟨leaderId, r.uint 2, r.uint 3, r.uint 4, r.bytes 5⟩

def installSnapshotReplyMessage : Message InstallSnapshotReply where
  fields p := boolField 1 p.success ++ uintField 2 p.term
  ofFields r := some ⟨r.bool 1, r.uint 2⟩

theorem requestVoteArgMessage_checks : requestVoteArgMessage.Checks fun _ => true := by
  intro a
  simp [requestVoteArgMessage, Record.bytes, Record.optional, Record.uint]

theorem installSnapshotArgMessage_checks : installSnapshotArgMessage.Checks fun _ => true := by
  intro a
  simp [installSnapshotArgMessage, Record.bytes, Record.optional, Record.uint]

theorem appendEntriesReplyMessage_checks : appendEntriesReplyMessage.Checks fun _ => true := by
  intro p
  simp [appendEntriesReplyMessage, Record.bool, Record.uint]

theorem installSnapshotReplyMessage_checks :
    installSnapshotReplyMessage.Checks fun _ => true := by
  intro p
  simp [installSnapshotReplyMessage, Record.bool, Record.uint]

end Zdb.Proto

namespace Zdb.Raft
open Protobuf

/-! The constructors of arguments from messages and of replies from messages. -/

def RequestVoteArg.ofMessage (arg : Proto.RequestVoteArg) : RequestVoteArg :=
  ⟨arg.candidateId, arg.term, arg.lastLogIndex, arg.lastLogTerm⟩

def AppendEntriesArg.ofMessage (arg : Proto.AppendEntriesArg) : Option AppendEntriesArg :=
  (Object.AppendEntriesArg.ofMessage arg).map Object.AppendEntriesArg.arg

def InstallSnapshotArg.ofMessage (arg : Proto.InstallSnapshotArg) : InstallSnapshotArg :=
  ⟨arg.leaderId, arg.term, arg.lastIncludedIndex, arg.lastIncludedTerm, arg.data⟩

def RequestVoteReply.ofMessage (reply : Proto.RequestVoteReply) : RequestVoteReply :=
  ⟨reply.voteGranted, reply.term⟩

def AppendEntriesReply.ofMessage (reply : Proto.AppendEntriesReply) : AppendEntriesReply :=
  ⟨reply.success, reply.term, some reply.conflictTerm, some reply.conflictIndex⟩

def InstallSnapshotReply.ofMessage (reply : Proto.InstallSnapshotReply) : InstallSnapshotReply :=
  ⟨reply.success, reply.term⟩

/-- The reply object with what its unassigned fields hold. -/
def AppendEntriesReply.filled (unset : ℕ × ℕ) (r : AppendEntriesReply) : AppendEntriesReply :=
  { r with
    conflictTerm := some (r.conflictTerm.getD unset.1)
    conflictIndex := some (r.conflictIndex.getD unset.2) }

theorem AppendEntriesReply.filled_assigned {r : AppendEntriesReply} {unset : ℕ × ℕ}
    (term : r.conflictTerm.isSome = true) (index : r.conflictIndex.isSome = true) :
    r.filled unset = r := by
  obtain ⟨success, term', conflictTerm, conflictIndex⟩ := r
  obtain ⟨t, rfl⟩ := Option.isSome_iff_exists.mp term
  obtain ⟨i, rfl⟩ := Option.isSome_iff_exists.mp index
  rfl

namespace RaftServiceImpl

def requestVote (n : Node) (request : Proto.RequestVoteArg) : Node × Proto.RequestVoteReply :=
  let (n, r) := n.requestVoteHandler (.ofMessage request)
  (n, { term := r.term, voteGranted := r.voteGranted })

/-- `none`: a command of the request could not be decoded. The last component says
that `applyCommittedEntries` runs before the reply is sent. -/
def appendEntries (unset : ℕ × ℕ) (n : Node) (request : Proto.AppendEntriesArg) :
    Option (Node × Proto.AppendEntriesReply × Bool) :=
  (AppendEntriesArg.ofMessage request).map fun arg =>
    let (n, r, apply) := n.appendEntriesHandler arg
    let reply : Proto.AppendEntriesReply := {
      success := r.success
      term := r.term
      conflictIndex := r.conflictIndex.getD unset.2
      conflictTerm := r.conflictTerm.getD unset.1 }
    (n, reply, apply)

def installSnapshot (n : Node) (request : Proto.InstallSnapshotArg) :
    Node × Proto.InstallSnapshotReply :=
  let (n, r) := n.installSnapshotHandler (.ofMessage request)
  (n, { term := r.term })

end RaftServiceImpl

namespace RaftWrapper

def handleRequestVote (n : Node) (args : Bytes) : Option (Node × Bytes) :=
  (Proto.requestVoteArgMessage.parse args).map fun protoArgs =>
    let (n, r) := n.requestVoteHandler (.ofMessage protoArgs)
    (n, Proto.requestVoteReplyMessage.serialize { term := r.term, voteGranted := r.voteGranted })

def handleAppendEntries (unset : ℕ × ℕ) (n : Node) (args : Bytes) :
    Option (Node × Bytes × Bool) :=
  (Proto.appendEntriesArgMessage.parse args).bind fun protoArgs =>
    (AppendEntriesArg.ofMessage protoArgs).map fun arg =>
      let (n, r, apply) := n.appendEntriesHandler arg
      let protoReply : Proto.AppendEntriesReply := {
        success := r.success
        term := r.term
        conflictTerm := r.conflictTerm.getD unset.1
        conflictIndex := r.conflictIndex.getD unset.2 }
      (n, Proto.appendEntriesReplyMessage.serialize protoReply, apply)

def handleInstallSnapshot (n : Node) (args : Bytes) : Option (Node × Bytes) :=
  (Proto.installSnapshotArgMessage.parse args).map fun protoArgs =>
    let (n, r) := n.installSnapshotHandler (.ofMessage protoArgs)
    (n, Proto.installSnapshotReplyMessage.serialize { term := r.term, success := r.success })

end RaftWrapper

section Agreement

variable (n : Node)

theorem requestVote_agree (request : Proto.RequestVoteArg) :
    RaftWrapper.handleRequestVote n (Proto.requestVoteArgMessage.serialize request) =
        some ((RaftServiceImpl.requestVote n request).map id
          Proto.requestVoteReplyMessage.serialize) ∧
      RequestVoteReply.ofMessage (RaftServiceImpl.requestVote n request).2 =
        (n.requestVoteHandler (.ofMessage request)).2 := by
  constructor
  · rw [RaftWrapper.handleRequestVote, Proto.requestVoteArgMessage_checks.parse, if_pos rfl]
    rfl
  · rfl

theorem appendEntries_agree (unset : ℕ × ℕ) (request : Proto.AppendEntriesArg) :
    RaftWrapper.handleAppendEntries unset n (Proto.appendEntriesArgMessage.serialize request) =
        (RaftServiceImpl.appendEntries unset n request).map
          (Prod.map id (Prod.map Proto.appendEntriesReplyMessage.serialize id)) ∧
      (RaftServiceImpl.appendEntries unset n request).map
          (fun done => AppendEntriesReply.ofMessage done.2.1) =
        (AppendEntriesArg.ofMessage request).map
          fun arg => (n.appendEntriesHandler arg).2.1.filled unset := by
  constructor
  · rw [RaftWrapper.handleAppendEntries, Proto.appendEntriesArgMessage_checks.parse, if_pos rfl,
      Option.bind_some, RaftServiceImpl.appendEntries, Option.map_map]
    rfl
  · rw [RaftServiceImpl.appendEntries, Option.map_map]
    rfl

/-- The request comes to the conflict exit of `appendEntriesHandler`, the only one that
assigns both conflict fields. -/
def Node.meetsConflict (n : Node) (arg : AppendEntriesArg) : Bool :=
  !n.killed && !n.pendingSnapshot && decide (n.currentTerm ≤ arg.term) && !n.accepts arg

theorem becameFollower_accepts (term : ℕ) (peerId : PeerId) (arg : AppendEntriesArg) :
    (n.becameFollower term peerId).1.accepts arg = n.accepts arg := by
  rw [Node.becameFollower]
  split <;> rfl

theorem appendEntriesHandler_assigns (arg : AppendEntriesArg) :
    (n.appendEntriesHandler arg).2.1.conflictTerm.isSome = n.meetsConflict arg ∧
      (n.appendEntriesHandler arg).2.1.conflictIndex.isSome = n.meetsConflict arg := by
  simp only [Node.appendEntriesHandler, becameFollower_accepts]
  split_ifs with stopped old accepted more
  · have why : n.killed = true ∨ n.pendingSnapshot = true := by simpa using stopped
    rcases why with why | why <;> simp [Node.meetsConflict, why]
  · simp [Node.meetsConflict, Nat.not_le.mpr old]
  · simp [Node.meetsConflict, accepted]
  · simp [Node.meetsConflict, accepted]
  · have meets : n.meetsConflict arg = true := by
      rw [Bool.or_eq_true, not_or, Bool.not_eq_true, Bool.not_eq_true] at stopped
      simp [Node.meetsConflict, stopped, Nat.not_lt.mp old, accepted]
    split <;> simp [meets]

theorem appendEntries_agree_iff (request : Proto.AppendEntriesArg) :
    (∀ unset unset',
      RaftWrapper.handleAppendEntries unset n (Proto.appendEntriesArgMessage.serialize request) =
        (RaftServiceImpl.appendEntries unset' n request).map
          (Prod.map id (Prod.map Proto.appendEntriesReplyMessage.serialize id))) ↔
      ∀ arg, AppendEntriesArg.ofMessage request = some arg → n.meetsConflict arg = true := by
  simp only [(appendEntries_agree n _ request).1, RaftServiceImpl.appendEntries]
  constructor
  · intro same arg decoded
    have bytes := same (0, 0) (1, 1)
    simp only [decoded, Option.map_some, Option.some.injEq, Prod.map, Prod.mk.injEq, id] at bytes
    have replies := Proto.appendEntriesReplyMessage_checks.serialize_inj rfl rfl bytes.2.1
    rw [← (appendEntriesHandler_assigns n arg).1]
    cases assigned : (n.appendEntriesHandler arg).2.1.conflictTerm with
    | none => simp [assigned] at replies
    | some term => rfl
  · intro meets unset unset'
    cases decoded : AppendEntriesArg.ofMessage request with
    | none => rfl
    | some arg =>
      obtain ⟨term, index⟩ := appendEntriesHandler_assigns n arg
      rw [meets arg decoded] at term index
      obtain ⟨t, term⟩ := Option.isSome_iff_exists.mp term
      obtain ⟨i, index⟩ := Option.isSome_iff_exists.mp index
      simp [term, index]

theorem appendEntries_decoded_iff (request : Proto.AppendEntriesArg) :
    (∀ unset, (RaftServiceImpl.appendEntries unset n request).map
        (fun done => AppendEntriesReply.ofMessage done.2.1) =
      (AppendEntriesArg.ofMessage request).map fun arg => (n.appendEntriesHandler arg).2.1) ↔
      ∀ arg, AppendEntriesArg.ofMessage request = some arg → n.meetsConflict arg = true := by
  simp only [(appendEntries_agree n _ request).2]
  constructor
  · intro same arg decoded
    have reply := same (0, 0)
    simp only [decoded, Option.map_some, Option.some.injEq] at reply
    rw [← (appendEntriesHandler_assigns n arg).1, ← reply]
    rfl
  · intro meets unset
    cases decoded : AppendEntriesArg.ofMessage request with
    | none => rfl
    | some arg =>
      obtain ⟨term, index⟩ := appendEntriesHandler_assigns n arg
      rw [meets arg decoded] at term index
      rw [Option.map_some, Option.map_some, AppendEntriesReply.filled_assigned term index]

theorem installSnapshot_decode (request : Proto.InstallSnapshotArg) :
    let handled := n.installSnapshotHandler (.ofMessage request)
    InstallSnapshotReply.ofMessage (RaftServiceImpl.installSnapshot n request).2 =
        Transport.grpc.decode handled.2 ∧
      RaftWrapper.handleInstallSnapshot n (Proto.installSnapshotArgMessage.serialize request) =
        some (handled.1, Proto.installSnapshotReplyMessage.serialize
          ⟨(Transport.cgo.decode handled.2).success, (Transport.cgo.decode handled.2).term⟩) := by
  constructor
  · rfl
  · rw [RaftWrapper.handleInstallSnapshot, Proto.installSnapshotArgMessage_checks.parse,
      if_pos rfl]
    rfl

theorem installSnapshotHandler_refuses (arg : InstallSnapshotArg) :
    (n.installSnapshotHandler arg).2.success = false ↔
      n.killed = true ∨ n.pendingSnapshot = true ∨ arg.term < n.currentTerm := by
  unfold Node.installSnapshotHandler
  split_ifs with stopped old
  · have why : n.killed = true ∨ n.pendingSnapshot = true := by simpa using stopped
    exact iff_of_true rfl (why.imp_right Or.inl)
  · exact iff_of_true rfl (Or.inr (Or.inr old))
  · simp_all

theorem installSnapshot_agree_iff (request : Proto.InstallSnapshotArg) :
    RaftWrapper.handleInstallSnapshot n (Proto.installSnapshotArgMessage.serialize request) =
        some ((RaftServiceImpl.installSnapshot n request).map id
          Proto.installSnapshotReplyMessage.serialize) ↔
      (n.installSnapshotHandler (.ofMessage request)).2.success = false := by
  rw [(installSnapshot_decode n request).2]
  constructor
  · intro same
    simp only [Option.some.injEq, Prod.mk.injEq, Prod.map] at same
    have replies := Proto.installSnapshotReplyMessage_checks.serialize_inj rfl rfl same.2
    exact congrArg Proto.InstallSnapshotReply.success replies
  · intro refused
    simp only [Transport.decode, refused]
    rfl

theorem installSnapshot_decoded_iff (request : Proto.InstallSnapshotArg) :
    InstallSnapshotReply.ofMessage (RaftServiceImpl.installSnapshot n request).2 =
        (n.installSnapshotHandler (.ofMessage request)).2 ↔
      (n.installSnapshotHandler (.ofMessage request)).2.success = false := by
  rw [(installSnapshot_decode n request).1]
  constructor
  · intro same
    rw [← same]
    rfl
  · intro refused
    rw [Transport.decode, ← refused]

end Agreement

/-- Both transports answer every RequestVote alike, and with the handler's reply. They
do so for an AppendEntries exactly if the handler comes to its conflict exit, and for an
InstallSnapshot exactly if it refuses the snapshot. -/
theorem transports_agree_iff (n : Node) :
    (∀ request : Proto.RequestVoteArg,
      RaftWrapper.handleRequestVote n (Proto.requestVoteArgMessage.serialize request) =
          some ((RaftServiceImpl.requestVote n request).map id
            Proto.requestVoteReplyMessage.serialize) ∧
        RequestVoteReply.ofMessage (RaftServiceImpl.requestVote n request).2 =
          (n.requestVoteHandler (.ofMessage request)).2) ∧
    (∀ request : Proto.AppendEntriesArg,
      ((∀ unset unset', RaftWrapper.handleAppendEntries unset n
            (Proto.appendEntriesArgMessage.serialize request) =
          (RaftServiceImpl.appendEntries unset' n request).map
            (Prod.map id (Prod.map Proto.appendEntriesReplyMessage.serialize id))) ∧
        ∀ unset, (RaftServiceImpl.appendEntries unset n request).map
            (fun done => AppendEntriesReply.ofMessage done.2.1) =
          (AppendEntriesArg.ofMessage request).map
            fun arg => (n.appendEntriesHandler arg).2.1) ↔
      ∀ arg, AppendEntriesArg.ofMessage request = some arg →
        n.killed = false ∧ n.pendingSnapshot = false ∧ n.currentTerm ≤ arg.term ∧
          n.accepts arg = false) ∧
    ∀ request : Proto.InstallSnapshotArg,
      (RaftWrapper.handleInstallSnapshot n (Proto.installSnapshotArgMessage.serialize request) =
          some ((RaftServiceImpl.installSnapshot n request).map id
            Proto.installSnapshotReplyMessage.serialize) ∧
        InstallSnapshotReply.ofMessage (RaftServiceImpl.installSnapshot n request).2 =
          (n.installSnapshotHandler (.ofMessage request)).2) ↔
      n.killed = true ∨ n.pendingSnapshot = true ∨ request.term < n.currentTerm := by
  refine ⟨requestVote_agree n, fun request => ?_, fun request => ?_⟩
  · rw [appendEntries_agree_iff, appendEntries_decoded_iff, and_self]
    simp [Node.meetsConflict, and_assoc]
  · rw [installSnapshot_agree_iff, installSnapshot_decoded_iff, and_self,
      installSnapshotHandler_refuses, InstallSnapshotArg.ofMessage]

/-- A fresh node takes a snapshot of term 1; gRPC says that it has not. -/
theorem installSnapshot_success_lost :
    let request : Proto.InstallSnapshotArg := ⟨"a", 1, 5, 1, [0]⟩
    ((Node.boot {}).installSnapshotHandler (.ofMessage request)).2 = ⟨true, 1⟩ ∧
      (RaftServiceImpl.installSnapshot (Node.boot {}) request).2 = ⟨false, 1⟩ ∧
      (RaftWrapper.handleInstallSnapshot (Node.boot {})
        (Proto.installSnapshotArgMessage.serialize request)).map Prod.snd =
        some (Proto.installSnapshotReplyMessage.serialize ⟨true, 1⟩) := by
  decide +kernel

end Zdb.Raft
