import Zdb.GoChannel
import Zdb.History
import Zdb.Transports

/-! The RPCs of a Raft node that runs under Go. A request goes as a message from C++ to
Go, as a Go structure over the network, as a message to the C++ of the peer, and the
reply the same way back, through buffers of fixed size. A Go structure has the fields of
its message, and the network gives it to the peer as it is. -/

namespace Zdb.Proto
open Protobuf

theorem requestVoteReplyMessage_checks : requestVoteReplyMessage.Checks fun _ => true := by
  intro p
  simp [requestVoteReplyMessage, Record.bool, Record.uint]

theorem requestVoteReply_length {p : RequestVoteReply} (term : p.term < 2 ^ 64) :
    (requestVoteReplyMessage.serialize p).length ≤ 22 := by
  have first := boolField_length (f := 1) (by decide) p.voteGranted
  have second := uintField_length (f := 2) (by decide) term
  simp only [Message.serialize, requestVoteReplyMessage, serialize_append, List.length_append]
  omega

theorem appendEntriesReply_length {p : AppendEntriesReply} (term : p.term < 2 ^ 64)
    (conflictTerm : p.conflictTerm < 2 ^ 64) (conflictIndex : p.conflictIndex < 2 ^ 64) :
    (appendEntriesReplyMessage.serialize p).length ≤ 44 := by
  have first := boolField_length (f := 1) (by decide) p.success
  have second := uintField_length (f := 2) (by decide) term
  have third := uintField_length (f := 3) (by decide) conflictTerm
  have fourth := uintField_length (f := 4) (by decide) conflictIndex
  simp only [Message.serialize, appendEntriesReplyMessage, serialize_append, List.length_append]
  omega

theorem installSnapshotReply_length {p : InstallSnapshotReply} (term : p.term < 2 ^ 64) :
    (installSnapshotReplyMessage.serialize p).length ≤ 22 := by
  have first := boolField_length (f := 1) (by decide) p.success
  have second := uintField_length (f := 2) (by decide) term
  simp only [Message.serialize, installSnapshotReplyMessage, serialize_append,
    List.length_append]
  omega

theorem serialize_named {name : String} (named : name ≠ "") (rest : Record) :
    Protobuf.serialize (bytesField 1 (ofString name) ++ rest) ≠ [] := by
  have filled : ofString name ≠ [] := by
    intro empty
    have read := toString?_ofString name
    rw [empty] at read
    exact named (Option.some.inj read).symm
  have first := writeField_length_pos (1, .len (ofString name))
  intro empty
  rw [bytesField, if_neg filled, Protobuf.serialize, List.cons_append, List.flatMap_cons,
    List.append_eq_nil_iff] at empty
  rw [empty.1] at first
  cases first

end Zdb.Proto

namespace Zdb.Go
open Protobuf

/-- One of the three RPCs. `handle` is the C++ function of the peer; its result −1 is
`none`. `checksEmpty`: a request that is encoded as no bytes is noticed. -/
structure Rpc (α ρ ν : Type) where
  argMessage : Message α
  replyMessage : Message ρ
  zero : ρ
  checksEmpty : Bool
  replyLen : ℕ
  handle : ν → Bytes → Option (ν × Bytes)

inductive Link where
  | delivers
  | losesRequest
  | losesReply
  deriving DecidableEq, Repr

def replyBuf : ℕ := 64

namespace Rpc
variable {α ρ ν : Type} (rpc : Rpc α ρ ν)

/-- The method of the peer; `none` is a peer that was killed. It leaves the reply as it
is when something fails. -/
def serve (peer : Option ν) (arg : α) : Outcome (Option ν × ρ) :=
  match peer with
  | none => .ok (none, rpc.zero)
  | some n =>
    let strArgs := rpc.argMessage.serialize arg
    if strArgs = [] then if rpc.checksEmpty then .ok (some n, rpc.zero) else .panic
    else match rpc.handle n strArgs with
      | none => .ok (some n, rpc.zero)
      | some (n, reply) =>
        if replyBuf < reply.length then .overflow
        else .ok (some n, (rpc.replyMessage.parse reply).getD rpc.zero)

/-- `go_invoke_request_vote`, `go_invoke_append_entries` and `go_invoke_install_snapshot`;
the result −1 is `none`. -/
def invoke (link : Link) (peer : Option ν) (args : Bytes) : Outcome (Option ν × Option Bytes) :=
  match rpc.argMessage.parse args with
  | none => .ok (peer, none)
  | some arg => match link with
    | .losesRequest => .ok (peer, none)
    | .losesReply => (rpc.serve peer arg).bind fun done => .ok (done.1, none)
    | .delivers => (rpc.serve peer arg).bind fun done =>
        let replyBytes := rpc.replyMessage.serialize done.2
        if rpc.replyLen < replyBytes.length then .ok (done.1, none)
        else .ok (done.1, some replyBytes)

def call (link : Link) (peer : Option ν) (request : α) : Outcome (Option ν × Option ρ) :=
  (rpc.invoke link peer (rpc.argMessage.serialize request)).bind fun done =>
    .ok (done.1, done.2.map fun p => (rpc.replyMessage.parse p).getD rpc.zero)

end Rpc

def requestVote : Rpc Proto.RequestVoteArg Proto.RequestVoteReply Raft.Node where
  argMessage := Proto.requestVoteArgMessage
  replyMessage := Proto.requestVoteReplyMessage
  zero := {}
  checksEmpty := true
  replyLen := 64
  handle := Raft.RaftWrapper.handleRequestVote

def appendEntries (unset : ℕ × ℕ) :
    Rpc Proto.AppendEntriesArg Proto.AppendEntriesReply (Raft.Node × Bool) where
  argMessage := Proto.appendEntriesArgMessage
  replyMessage := Proto.appendEntriesReplyMessage
  zero := {}
  checksEmpty := false
  replyLen := 64
  handle n args := (Raft.RaftWrapper.handleAppendEntries unset n.1 args).map
    fun (n, reply, apply) => ((n, apply), reply)

def installSnapshot : Rpc Proto.InstallSnapshotArg Proto.InstallSnapshotReply Raft.Node where
  argMessage := Proto.installSnapshotArgMessage
  replyMessage := Proto.installSnapshotReplyMessage
  zero := {}
  checksEmpty := true
  replyLen := 65536
  handle := Raft.RaftWrapper.handleInstallSnapshot

section Path
variable {α ρ ν : Type} {rpc : Rpc α ρ ν}

theorem call_delivered (args : rpc.argMessage.Checks fun _ => true)
    (replies : rpc.replyMessage.Checks fun _ => true) {n n' : ν} {arg : α} {r : ρ}
    (filled : rpc.argMessage.serialize arg ≠ [])
    (handled : rpc.handle n (rpc.argMessage.serialize arg) =
      some (n', rpc.replyMessage.serialize r))
    (short : (rpc.replyMessage.serialize r).length ≤ replyBuf) (room : replyBuf ≤ rpc.replyLen) :
    rpc.call .delivers (some n) arg = .ok (some n', some r) := by
  have parsed : rpc.argMessage.parse (rpc.argMessage.serialize arg) = some arg := args.parse arg
  have read : rpc.replyMessage.parse (rpc.replyMessage.serialize r) = some r := replies.parse r
  have served : rpc.serve (some n) arg = .ok (some n', r) := by
    simp only [Rpc.serve, if_neg filled, handled, if_neg (Nat.not_lt.mpr short), read,
      Option.getD_some]
  have back : ¬rpc.replyLen < (rpc.replyMessage.serialize r).length := by omega
  simp only [Rpc.call, Rpc.invoke, parsed, served, Outcome.bind, if_neg back, Option.map_some,
    read, Option.getD_some]

theorem call_killed (args : rpc.argMessage.Checks fun _ => true)
    (replies : rpc.replyMessage.Checks fun _ => true)
    (empty : rpc.replyMessage.serialize rpc.zero = []) (arg : α) :
    rpc.call .delivers none arg = .ok (none, some rpc.zero) := by
  have parsed : rpc.argMessage.parse (rpc.argMessage.serialize arg) = some arg := args.parse arg
  have read : rpc.replyMessage.parse (rpc.replyMessage.serialize rpc.zero) = some rpc.zero :=
    replies.parse rpc.zero
  have fits : ¬rpc.replyLen < (rpc.replyMessage.serialize rpc.zero).length := by simp [empty]
  simp only [Rpc.call, Rpc.invoke, parsed, Rpc.serve, Outcome.bind, if_neg fits, Option.map_some,
    read, Option.getD_some]

end Path

section Calls
variable (n : Raft.Node)

theorem requestVote_answered {request : Proto.RequestVoteArg} (named : request.candidateId ≠ "")
    (term : (n.requestVoteHandler (.ofMessage request)).2.term < 2 ^ 64) :
    requestVote.call .delivers (some n) request =
      .ok (some (n.requestVoteHandler (.ofMessage request)).1,
        some (Raft.RaftServiceImpl.requestVote n request).2) := by
  have handled := (Raft.requestVote_agree n request).1
  exact call_delivered Proto.requestVoteArgMessage_checks Proto.requestVoteReplyMessage_checks
    (Proto.serialize_named named _) handled ((Proto.requestVoteReply_length term).trans (by decide))
    (by decide)

theorem appendEntries_answered (unset : ℕ × ℕ) {request : Proto.AppendEntriesArg}
    {arg : Raft.AppendEntriesArg} (named : request.leaderId ≠ "")
    (decoded : Raft.AppendEntriesArg.ofMessage request = some arg)
    {reply : Proto.AppendEntriesReply} (made : reply = ⟨(n.appendEntriesHandler arg).2.1.success,
      (n.appendEntriesHandler arg).2.1.term,
      (n.appendEntriesHandler arg).2.1.conflictTerm.getD unset.1,
      (n.appendEntriesHandler arg).2.1.conflictIndex.getD unset.2⟩)
    (term : reply.term < 2 ^ 64) (conflictTerm : reply.conflictTerm < 2 ^ 64)
    (conflictIndex : reply.conflictIndex < 2 ^ 64) :
    (appendEntries unset).call .delivers (some (n, false)) request =
      .ok (some ((n.appendEntriesHandler arg).1, (n.appendEntriesHandler arg).2.2),
        some reply) := by
  have agree := (Raft.appendEntries_agree n unset request).1
  have handled : (appendEntries unset).handle (n, false)
      ((appendEntries unset).argMessage.serialize request) =
        some (((n.appendEntriesHandler arg).1, (n.appendEntriesHandler arg).2.2),
          (appendEntries unset).replyMessage.serialize reply) := by
    subst made
    show Option.map _ (Raft.RaftWrapper.handleAppendEntries unset n
      (Proto.appendEntriesArgMessage.serialize request)) = _
    rw [agree, Raft.RaftServiceImpl.appendEntries, decoded]
    rfl
  exact call_delivered Proto.appendEntriesArgMessage_checks Proto.appendEntriesReplyMessage_checks
    (Proto.serialize_named named _) handled
    ((Proto.appendEntriesReply_length term conflictTerm conflictIndex).trans (by decide))
    (Nat.le_refl 64)

theorem installSnapshot_answered {request : Proto.InstallSnapshotArg}
    (named : request.leaderId ≠ "")
    (term : (n.installSnapshotHandler (.ofMessage request)).2.term < 2 ^ 64) :
    installSnapshot.call .delivers (some n) request =
      .ok (some (n.installSnapshotHandler (.ofMessage request)).1,
        some ⟨(n.installSnapshotHandler (.ofMessage request)).2.success,
          (n.installSnapshotHandler (.ofMessage request)).2.term⟩) := by
  have handled := (Raft.installSnapshot_decode n request).2
  exact call_delivered Proto.installSnapshotArgMessage_checks
    Proto.installSnapshotReplyMessage_checks (Proto.serialize_named named _) handled
    ((Proto.installSnapshotReply_length term).trans (by decide)) (by decide)

def oneEntry : Proto.AppendEntriesArg :=
  Object.AppendEntriesArg.message { Object.everyKind with
    entries := [⟨1, 1, ⟨⟨Vector.replicate 16 1, .noOp⟩, 1⟩⟩] }

end Calls

end Zdb.Go

namespace Zdb.Raft
open LabelledRun

def Node.Begun (n : Node) : Prop := n.role ≠ .follower → 0 < n.currentTerm

theorem Move.begun {peers : List PeerId} {net : Network} {v : PeerId} {n n' : Node} {a : Action}
    {out : Output} (move : Move peers net v n a n' out) (begun : n.Begun) : n'.Begun := by
  cases move with
  | adopt => exact fun other => absurd rfl other
  | campaign => exact fun _ => Nat.succ_pos _
  | elect peer k call answer control at_ answered own candidate =>
    exact fun _ => begun (by simp [candidate])
  | grant => exact fun other => absurd rfl other
  | accept => exact fun other => absurd rfl other
  | install k call control found here current =>
    rcases lt_or_eq_of_le current with later | same
    · exact fun other => absurd (Node.roleIn_later later) other
    · intro other
      rw [Node.roleIn_same same.ge] at other
      exact same ▸ begun other
  | reboot => exact fun other => absurd rfl other
  | deliverReturn a d caller => cases caller <;> exact begun
  | _ => exact begun

theorem begun_run {m : Membership} {actions : List Action} {s : Cluster}
    (run : Cluster.run m actions = some s) (v : PeerId) : (s.nodes v).Begun := by
  have both := exec_invariant_always
    (fun s : Cluster => (∀ u, (s.nodes u).Synced) ∧ ∀ u, (s.nodes u).Begun) ?_
    ⟨Cluster.initial_synced, fun _ other => absurd rfl other⟩ run
  · exact both.2 v
  · rintro s a t ⟨synced, begun⟩ step
    refine ⟨Cluster.step_synced synced step, ?_⟩
    obtain ⟨u, n, out, found, -, -, rfl⟩ := Cluster.step_eq_some step
    intro w
    by_cases same : w = u
    · subst same
      rw [Cluster.update_nodes_self]
      exact (Cluster.act_move synced found).begun (begun w)
    · rw [Cluster.update_nodes_ne _ _ _ same]
      exact begun w

theorem becameFollower_zero (n : Node) (peerId : PeerId) : n.becameFollower 0 peerId = (n, false) :=
  Node.becameFollower_same (Nat.zero_le _)

section Zero
variable {n : Node} (begun : n.Begun)
include begun

theorem requestVoteReply_zero (peers : List PeerId) (peer : PeerId) (arg : RequestVoteArg) :
    n.requestVoteReply peers peer arg (some (.ofMessage {})) =
      n.requestVoteReply peers peer arg none := by
  by_cases stopped : n.killed = true ∨ n.role ≠ .candidate
  · exact (if_pos stopped).trans (if_pos stopped).symm
  · have old : 0 < n.currentTerm := begun (by simp_all)
    simp [Node.requestVoteReply, stopped, RequestVoteReply.ofMessage, becameFollower_zero, old]

theorem appendEntriesReply_zero (peers : List PeerId) (v peer : PeerId) (arg : AppendEntriesArg)
    (next : ℕ) (unset : ℕ × ℕ) :
    n.appendEntriesReply peers v peer arg next (some (.ofMessage {})) unset =
      n.appendEntriesReply peers v peer arg next none unset := by
  by_cases stopped : n.killed = true ∨ n.role ≠ .leader
  · exact (if_pos stopped).trans (if_pos stopped).symm
  · have old : 0 < n.currentTerm := begun (by simp_all)
    simp [Node.appendEntriesReply, Node.setPoint, stopped, AppendEntriesReply.ofMessage,
      becameFollower_zero, old]

theorem installSnapshotReply_zero (v : PeerId) (number : ℕ) (peer : PeerId)
    (snapArg : InstallSnapshotArg) (arg : AppendEntriesArg) (next : ℕ) :
    n.installSnapshotReply v number peer snapArg arg next (some (.ofMessage {})) =
      n.installSnapshotReply v number peer snapArg arg next none := by
  by_cases stopped : n.killed = true ∨ n.role ≠ .leader
  · exact (if_pos stopped).trans (if_pos stopped).symm
  · have old : 0 < n.currentTerm := begun (by simp_all)
    simp [Node.installSnapshotReply, Node.setPoint, stopped, InstallSnapshotReply.ofMessage,
      becameFollower_zero, old]

end Zero

/-- A peer under Go that was killed still answers, with zero in every field. In every
state of every run this is to the thread that has called as if nothing had come back. -/
theorem killed_answer_is_silence {m : Membership} {actions : List Action} {s : Cluster}
    (run : Cluster.run m actions = some s) (v peer : PeerId) :
    (∀ request, Go.requestVote.call .delivers none request =
        .ok (none, some Go.requestVote.zero)) ∧
    (∀ unset request, (Go.appendEntries unset).call .delivers none request =
        .ok (none, some (Go.appendEntries unset).zero)) ∧
    (∀ request, Go.installSnapshot.call .delivers none request =
        .ok (none, some Go.installSnapshot.zero)) ∧
    (∀ arg, (s.nodes v).requestVoteReply m.peers peer arg
        (some (.ofMessage Go.requestVote.zero)) =
      (s.nodes v).requestVoteReply m.peers peer arg none) ∧
    (∀ arg next unset, (s.nodes v).appendEntriesReply m.peers v peer arg next
        (some (.ofMessage (Go.appendEntries unset).zero)) unset =
      (s.nodes v).appendEntriesReply m.peers v peer arg next none unset) ∧
    ∀ number snapArg arg next, (s.nodes v).installSnapshotReply v number peer snapArg arg next
        (some (.ofMessage Go.installSnapshot.zero)) =
      (s.nodes v).installSnapshotReply v number peer snapArg arg next none := by
  have begun := begun_run run v
  refine ⟨fun request => ?_, fun unset request => ?_, fun request => ?_, fun arg => ?_,
    fun arg next unset => ?_, fun number snapArg arg next => ?_⟩
  · exact Go.call_killed Proto.requestVoteArgMessage_checks Proto.requestVoteReplyMessage_checks
      rfl request
  · exact Go.call_killed Proto.appendEntriesArgMessage_checks
      Proto.appendEntriesReplyMessage_checks rfl request
  · exact Go.call_killed Proto.installSnapshotArgMessage_checks
      Proto.installSnapshotReplyMessage_checks rfl request
  · exact requestVoteReply_zero begun m.peers peer arg
  · exact appendEntriesReply_zero begun m.peers v peer arg next unset
  · exact installSnapshotReply_zero begun v number peer snapArg arg next

theorem killed_answer_is_silence_leader : ∃ s,
    Cluster.run threePeers (winElection "a" "b" 0) = some s ∧ (s.nodes "a").role = .leader ∧
    ∀ arg next unset, (s.nodes "a").appendEntriesReply threePeers.peers "a" "c" arg next
        (some (.ofMessage (Go.appendEntries unset).zero)) unset =
      (s.nodes "a").appendEntriesReply threePeers.peers "a" "c" arg next none unset := by
  obtain ⟨s, run, leads⟩ : ∃ s, Cluster.run threePeers (winElection "a" "b" 0) = some s ∧
      (s.nodes "a").role = .leader :=
    ⟨_, (Option.some_get (by decide +kernel)).symm, by decide +kernel⟩
  obtain ⟨-, -, -, -, same, -⟩ := killed_answer_is_silence run "a" "c"
  exact ⟨s, run, leads, same⟩

end Zdb.Raft
