import Zdb.LabelledRun
import Zdb.RaftNode

/-! A cluster of `RaftImpl` objects that share one peer list. The network keeps
every call and every answer ever sent, so a message may be lost, delayed,
duplicated or reordered; a thread takes at most one answer for each call. A step
is one stretch of code of one node, run with its mutex held. -/

namespace Zdb.Raft
open LabelledRun

structure Network where
  voteCalls : List (Call RequestVoteArg) := []
  voteAnswers : List (Answer RequestVoteArg RequestVoteReply) := []
  appendCalls : List (Call AppendEntriesArg) := []
  appendAnswers : List (Answer AppendEntriesArg AppendEntriesReply) := []
  installCalls : List (Call InstallSnapshotArg) := []
  installAnswers : List (Answer InstallSnapshotArg InstallSnapshotReply) := []

def Network.emit (net : Network) : Output → Network
  | .nothing => net
  | .requestVote call => { net with voteCalls := net.voteCalls ++ [call] }
  | .appendEntries call => { net with appendCalls := net.appendCalls ++ [call] }
  | .installSnapshot call => { net with installCalls := net.installCalls ++ [call] }
  | .requestVoteAnswer a => { net with voteAnswers := net.voteAnswers ++ [a] }
  | .appendEntriesAnswer a => { net with appendAnswers := net.appendAnswers ++ [a] }
  | .installSnapshotAnswer a => { net with installAnswers := net.installAnswers ++ [a] }

structure Cluster where
  nodes : PeerId → Node
  network : Network

def Cluster.initial : Cluster := ⟨fun _ => Node.boot {}, {}⟩

def Cluster.update (s : Cluster) (v : PeerId) (n : Node) (out : Output) : Cluster :=
  ⟨Function.update s.nodes v n, s.network.emit out⟩

inductive Rpc where
  | requestVote
  | appendEntries
  | installSnapshot
  deriving DecidableEq, Repr

/-- The gRPC service leaves `success` out of its InstallSnapshot answers. -/
inductive Transport where
  | cgo
  | grpc
  deriving DecidableEq, Repr

def Transport.decode : Transport → InstallSnapshotReply → InstallSnapshotReply
  | .cgo, reply => reply
  | .grpc, reply => { reply with success := false }

/-- Messages are named by their position in the network. A reply step without
an answer is a call that failed. -/
inductive Action where
  | initVote (v : PeerId) (elapsed : Bool)
  | heartbeat (v : PeerId)
  | requestVote (v peer : PeerId)
  | requestVoteReply (v peer : PeerId) (answer : Option ℕ)
  | requestVoteHandler (call : ℕ)
  | appendEntries (v peer : PeerId)
  | installSnapshotReply (v peer : PeerId) (answer : Option ℕ) (transport : Transport)
  | appendEntriesReply (v peer : PeerId) (answer : Option ℕ) (unset : ℕ × ℕ)
  | appendEntriesFinish (v peer : PeerId)
  | appendEntriesHandler (call : ℕ)
  | installSnapshotHandler (call : ℕ)
  | applyEnter (v : PeerId) (caller : ℕ)
  | applySend (v : PeerId) (ok : Bool)
  | applyRelock (v : PeerId)
  | snapshotTake (v : PeerId)
  | snapshotSend (v : PeerId) (ok : Bool)
  | snapshotRelock (v : PeerId)
  | start (v : PeerId) (command : Command)
  | snapshot (v : PeerId) (index : ℕ) (data : Bytes)
  | kill (v : PeerId)
  | restart (v : PeerId)
  | crash (rpc : Rpc) (call : ℕ)
  deriving DecidableEq, Repr

/-- What a thread that waits for `call` gets: `some none` when the call failed. -/
def received {Arg Reply : Type} [DecidableEq Arg] (answers : List (Answer Arg Reply))
    (call : Call Arg) : Option ℕ → Option (Option Reply)
  | none => some none
  | some k => match answers[k]? with
      | some a => if a.call = call then some (some a.reply) else none
      | none => none

def Network.request (net : Network) : Rpc → ℕ → Option (PeerId × ℕ × PeerId)
  | .requestVote, k => net.voteCalls[k]?.map fun c => (c.callee, c.arg.term, c.arg.candidateId)
  | .appendEntries, k => net.appendCalls[k]?.map fun c => (c.callee, c.arg.term, c.arg.leaderId)
  | .installSnapshot, k => net.installCalls[k]?.map fun c => (c.callee, c.arg.term, c.arg.leaderId)

/-- The node that runs, what becomes of it and what it sends. `crash` is the end
of the process inside a handler, after the save of `becameFollower`. -/
def Cluster.act (peers : List PeerId) (s : Cluster) : Action → Option (PeerId × Node × Output)
  | .initVote v elapsed => some (v, (s.nodes v).initVote v elapsed, .nothing)
  | .heartbeat v => some (v, (s.nodes v).heartbeat, .nothing)
  | .requestVote v peer =>
      if peer ∈ otherPeers peers v then
        ((s.nodes v).requestVote v s.network.voteCalls.length peer).map (v, ·)
      else none
  | .requestVoteReply v peer answer => match (s.nodes v).requestVoteThread peer with
      | .waiting => none
      | .calling call => (received s.network.voteAnswers call answer).map fun reply =>
          (v, (s.nodes v).requestVoteReply peers peer call.arg reply, .nothing)
  | .requestVoteHandler k => s.network.voteCalls[k]?.map fun call =>
      let done := (s.nodes call.callee).requestVoteHandler call.arg
      (call.callee, done.1, .requestVoteAnswer ⟨call, done.2⟩)
  | .appendEntries v peer =>
      if peer ∈ otherPeers peers v then
        let net := s.network
        ((s.nodes v).appendEntries v net.appendCalls.length net.installCalls.length peer).map (v, ·)
      else none
  | .installSnapshotReply v peer answer transport =>
      match ((s.nodes v).appendEntriesThread peer).point with
      | .installing call arg next =>
          (received s.network.installAnswers call answer).map fun reply =>
            (v, (s.nodes v).installSnapshotReply v s.network.appendCalls.length peer call.arg arg
              next (reply.map transport.decode))
      | _ => none
  | .appendEntriesReply v peer answer unset =>
      match ((s.nodes v).appendEntriesThread peer).point with
      | .appending call next => (received s.network.appendAnswers call answer).map fun reply =>
          (v, (s.nodes v).appendEntriesReply peers v peer call.arg next reply unset, .nothing)
      | _ => none
  | .appendEntriesFinish v peer => ((s.nodes v).appendEntriesFinish peer).map (v, ·)
  | .appendEntriesHandler k => s.network.appendCalls[k]?.map fun call =>
      let done := (s.nodes call.callee).appendEntriesHandler call.arg
      let n := done.1
      if done.2.2 then
        (call.callee, { n with applyQueue := n.applyQueue ++ [.handler call done.2.1] }, .nothing)
      else (call.callee, n, .appendEntriesAnswer ⟨call, done.2.1⟩)
  | .installSnapshotHandler k => s.network.installCalls[k]?.map fun call =>
      let done := (s.nodes call.callee).installSnapshotHandler call.arg
      (call.callee, done.1, .installSnapshotAnswer ⟨call, done.2⟩)
  | .applyEnter v caller => ((s.nodes v).applyEnter caller).map (v, ·)
  | .applySend v ok => ((s.nodes v).applySend ok).map (v, ·)
  | .applyRelock v => (s.nodes v).applyRelock.map (v, ·)
  | .snapshotTake v => (s.nodes v).snapshotTake.map (v, ·)
  | .snapshotSend v ok => ((s.nodes v).snapshotSend ok).map (v, ·)
  | .snapshotRelock v => (s.nodes v).snapshotRelock.map (v, ·)
  | .start v command => some (v, ((s.nodes v).start command).1, .nothing)
  | .snapshot v index data => some (v, (s.nodes v).snapshot index data, .nothing)
  | .kill v => some (v, (s.nodes v).kill, .nothing)
  | .restart v => some (v, Node.boot (s.nodes v).persister, .nothing)
  | .crash rpc k => match s.network.request rpc k with
      | some (v, term, sender) =>
          let n := s.nodes v
          if n.killed || (decide (rpc ≠ .requestVote) && n.pendingSnapshot) then none
          else some (v, Node.boot (n.becameFollower term sender).1.persister, .nothing)
      | none => none

/-- Only members run, and a process that is gone can only be started again. -/
def Cluster.step (m : Membership) (s : Cluster) (a : Action) : Option Cluster :=
  match s.act m.peers a with
  | some (v, n, out) =>
      if v ∈ m.peers ∧ ((s.nodes v).terminated = false ∨ a = .restart v) then
        some (s.update v n out)
      else none
  | none => none

def Cluster.run (m : Membership) (actions : List Action) : Option Cluster :=
  exec (Cluster.step m) Cluster.initial actions

theorem Cluster.step_eq_some {m : Membership} {s t : Cluster} {a : Action}
    (h : s.step m a = some t) : ∃ v n out, s.act m.peers a = some (v, n, out) ∧ v ∈ m.peers ∧
      ((s.nodes v).terminated = false ∨ a = .restart v) ∧ t = s.update v n out := by
  rw [Cluster.step] at h
  split at h
  · rename_i v n out found
    split_ifs at h with allowed
    exact ⟨v, n, out, found, allowed.1, allowed.2, (Option.some.inj h).symm⟩
  · contradiction

theorem Cluster.run_nodes {m : Membership} (P : Node → Prop) (fresh : P (Node.boot {}))
    (kept : ∀ (s : Cluster) (a : Action) (v : PeerId) (n : Node) (out : Output),
      (∀ u, P (s.nodes u)) → s.act m.peers a = some (v, n, out) → P n)
    {actions : List Action} {s : Cluster} (run : Cluster.run m actions = some s) (v : PeerId) :
    P (s.nodes v) := by
  refine exec_invariant_always (fun s => ∀ v, P (s.nodes v)) ?_ (fun _ => fresh) run v
  intro s a t before move u
  obtain ⟨v, n, out, found, _, _, rfl⟩ := Cluster.step_eq_some move
  by_cases same : u = v
  · subst same
    simpa [Cluster.update] using kept s a u n out before found
  · simpa [Cluster.update, same] using before u

def threePeers : Membership := ⟨["a", "b", "c"], by decide, by decide⟩

def winElection (candidate voter : PeerId) (call : ℕ) : List Action :=
  [.initVote candidate true, .requestVote candidate voter, .requestVoteHandler call,
    .requestVoteReply candidate voter (some call)]

def applyOne (v : PeerId) : List Action := [.applyEnter v 0, .applySend v true, .applyRelock v]

def commitOne (v peer : PeerId) (call : ℕ) : List Action :=
  [.appendEntries v peer, .appendEntriesHandler call, .appendEntriesReply v peer (some call) (0, 0)]
    ++ applyOne v ++ [.appendEntriesFinish v peer]

def snapshotThenEntry : List Action :=
  winElection "a" "b" 0 ++ [.start "a" ⟨default, .noOp⟩] ++ commitOne "a" "b" 0 ++
    [.snapshot "a" 1 [1], .start "a" ⟨default, .noOp⟩, .appendEntries "a" "c",
      .installSnapshotHandler 0, .snapshotTake "c", .snapshotSend "c" true, .snapshotRelock "c",
      .installSnapshotReply "a" "c" (some 0) .cgo, .appendEntriesHandler 1]

def announceSecond : List Action :=
  snapshotThenEntry ++ [.appendEntriesReply "a" "c" (some 1) (0, 0)] ++ applyOne "a" ++
    [.appendEntriesFinish "a" "c", .heartbeat "a", .appendEntries "a" "c"]

end Zdb.Raft
