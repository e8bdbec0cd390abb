import Zdb.Cluster
import Zdb.LogShape

/-! Crash recovery. Whenever mutex `m` is free the persister holds a copy of the
durable fields, and the two copies of the snapshot point agree; so a `RaftImpl`
constructed from the persister starts with the log, term and vote of the one
that is gone. -/

namespace Zdb.Raft
open LabelledRun

namespace Node
variable {n n' : Node}

/-- What a restart would find, compared with what the node has. -/
structure Synced (n : Node) : Prop where
  saved : n.persister = n.persist.persister
  index : n.mainLog.lastIncludedIndex = n.lastIncludedIndex
  term : n.mainLog.lastIncludedTerm = n.lastIncludedTerm

theorem Synced.congr (h : n.Synced) (disk : n'.persister = n.persister)
    (current : n'.currentTerm = n.currentTerm) (voted : n'.votedFor = n.votedFor)
    (store : n'.toStore = n.toStore) : n'.Synced := by
  obtain ⟨saved, index, term⟩ := h
  refine ⟨?_, by rw [store, index], by rw [store, term]⟩
  rw [disk, saved]
  simp only [persist, current, voted, store]

theorem boot_persister (disk : PersistentState) : (boot disk).persister = disk := rfl

theorem boot_store (h : n.Synced) : (boot n.persister).toStore = n.toStore := by
  obtain ⟨saved, index, term⟩ := h
  rw [saved]
  simp only [boot, readPersist, Node.persist, PersistentState.make, Log.clear, Log.merge,
    Log.ofEntries, Log.data, Log.setLastIncluded, mergeEntries_nil, Bool.or_self,
    Bool.false_eq_true, if_false]
  congr 1
  rw [← index, ← term]

theorem boot_currentTerm (h : n.Synced) : (boot n.persister).currentTerm = n.currentTerm := by
  rw [h.saved]
  rfl

theorem boot_votedFor (h : n.Synced) : (boot n.persister).votedFor = n.votedFor := by
  rw [h.saved]
  rfl

theorem Synced.boot (h : n.Synced) : (boot n.persister).Synced :=
  h.congr (boot_persister _) (boot_currentTerm h) (boot_votedFor h) (boot_store h)

theorem synced_fresh : (Node.boot {}).Synced := ⟨rfl, rfl, rfl⟩

theorem Synced.becameFollower (h : n.Synced) (term : ℕ) (peerId : PeerId) :
    (n.becameFollower term peerId).1.Synced := by
  rw [Node.becameFollower]
  split_ifs
  · exact ⟨rfl, h.index, h.term⟩
  · exact h

theorem Synced.initVote (h : n.Synced) (selfId : PeerId) (elapsed : Bool) :
    (n.initVote selfId elapsed).Synced := by
  rw [Node.initVote]
  split_ifs
  · exact h
  · exact ⟨rfl, h.index, h.term⟩

theorem Synced.requestVoteHandler (h : n.Synced) (arg : RequestVoteArg) :
    (n.requestVoteHandler arg).1.Synced := by
  have followed := h.becameFollower arg.term arg.candidateId
  rw [Node.requestVoteHandler]
  split_ifs
  · exact h
  · exact h
  · simp only
    split_ifs
    · exact ⟨rfl, followed.index, followed.term⟩
    · exact followed

theorem Synced.appendEntriesHandler (h : n.Synced) (arg : AppendEntriesArg) :
    (n.appendEntriesHandler arg).1.Synced := by
  have followed := h.becameFollower arg.term arg.leaderId
  rw [Node.appendEntriesHandler]
  split_ifs
  · exact h
  · exact h
  · simp only
    split_ifs
    · exact ⟨rfl, followed.index, followed.term⟩
    · exact ⟨rfl, followed.index, followed.term⟩
    · split <;> exact followed

theorem Synced.installSnapshotHandler (h : n.Synced) (arg : InstallSnapshotArg) :
    (n.installSnapshotHandler arg).1.Synced := by
  rw [Node.installSnapshotHandler]
  split_ifs
  · exact h
  · exact h
  · exact ⟨rfl, rfl, rfl⟩

theorem Synced.start (h : n.Synced) (command : Command) : (n.start command).1.Synced := by
  rw [Node.start]
  split_ifs
  · exact h
  · exact h
  · exact ⟨rfl, h.index, h.term⟩

theorem Synced.snapshot (h : n.Synced) (index : ℕ) (data : Bytes) :
    (n.snapshot index data).Synced := by
  rw [Node.snapshot]
  split_ifs
  · exact h
  · exact h
  · exact h
  · exact ⟨rfl, h.index, h.term⟩
  · split
    · exact h.congr rfl rfl rfl rfl
    · exact ⟨rfl, rfl, rfl⟩

theorem Synced.resume (h : n.Synced) (caller : ApplyCaller) : (n.resume caller).1.Synced := by
  cases caller <;> exact h.congr rfl rfl rfl rfl

theorem Synced.applyLoop (h : n.Synced) (caller : ApplyCaller) :
    (n.applyLoop caller).1.Synced := by
  have idle : ({ n with applyThread := none } : Node).Synced := h.congr rfl rfl rfl rfl
  rw [Node.applyLoop]
  split_ifs
  · exact idle.resume caller
  · split
    · exact idle.resume caller
    · exact h.congr rfl rfl rfl rfl

theorem Synced.applyCommittedEntries (h : n.Synced) (caller : ApplyCaller) :
    (n.applyCommittedEntries caller).1.Synced := by
  have idle : ({ n with applyThread := none } : Node).Synced := h.congr rfl rfl rfl rfl
  rw [Node.applyCommittedEntries]
  split_ifs
  · exact idle.resume caller
  · exact h.applyLoop caller

theorem Synced.requestVoteReply (h : n.Synced) (peers : List PeerId) (peerId : PeerId)
    (arg : RequestVoteArg) (reply : Option RequestVoteReply) :
    (n.requestVoteReply peers peerId arg reply).Synced := by
  have heard : ({ n with
      requestVoteThread := Function.update n.requestVoteThread peerId .waiting } : Node).Synced :=
    h.congr rfl rfl rfl rfl
  unfold Node.requestVoteReply
  simp only
  split_ifs
  · exact heard
  cases reply with
  | none => exact heard
  | some r =>
    have followed := heard.becameFollower r.term peerId
    simp only
    split_ifs
    · exact followed
    · exact followed
    · exact followed.congr rfl rfl rfl rfl
    · exact followed.congr rfl rfl rfl rfl
    · exact followed

theorem Synced.installSnapshotReply (h : n.Synced) (selfId : PeerId) (number : ℕ)
    (peerId : PeerId) (snapArg : InstallSnapshotArg) (arg : AppendEntriesArg) (next : ℕ)
    (reply : Option InstallSnapshotReply) :
    (n.installSnapshotReply selfId number peerId snapArg arg next reply).1.Synced := by
  have heard : (n.setPoint peerId .waiting).Synced := h.congr rfl rfl rfl rfl
  unfold Node.installSnapshotReply
  simp only
  split_ifs
  · exact heard.congr rfl rfl rfl rfl
  cases reply with
  | none => exact heard
  | some r =>
    have followed := heard.becameFollower r.term peerId
    simp only
    split_ifs
    · exact followed
    · exact followed
    · exact followed.congr rfl rfl rfl rfl
    · exact followed

theorem Synced.appendEntriesReply (h : n.Synced) (peers : List PeerId) (selfId peerId : PeerId)
    (arg : AppendEntriesArg) (next : ℕ) (reply : Option AppendEntriesReply) (unset : ℕ × ℕ) :
    (n.appendEntriesReply peers selfId peerId arg next reply unset).Synced := by
  have heard : (n.setPoint peerId .waiting).Synced := h.congr rfl rfl rfl rfl
  unfold Node.appendEntriesReply
  simp only
  split_ifs
  · exact heard.congr rfl rfl rfl rfl
  cases reply with
  | none => exact heard.congr rfl rfl rfl rfl
  | some r =>
    have followed := heard.becameFollower r.term peerId
    simp only
    split_ifs
    · exact followed
    · exact followed.congr rfl rfl rfl rfl
    · split <;> exact followed.congr rfl rfl rfl rfl
    · exact followed.congr rfl rfl rfl rfl

section Guarded
variable {out : Output} (h : n.Synced)
include h

theorem Synced.requestVote {selfId peerId : PeerId} {number : ℕ}
    (done : n.requestVote selfId number peerId = some (n', out)) : n'.Synced := by
  simp only [Node.requestVote] at done
  split_ifs at done
  cases done
  exact h.congr rfl rfl rfl rfl

theorem Synced.appendEntries {selfId peerId : PeerId} {number snapNumber : ℕ}
    (done : n.appendEntries selfId number snapNumber peerId = some (n', out)) : n'.Synced := by
  simp only [Node.appendEntries] at done
  split_ifs at done
  · cases done
    exact h
  all_goals
    split at done
    all_goals
      cases done
      exact h.congr rfl rfl rfl rfl

theorem Synced.appendEntriesFinish {peerId : PeerId}
    (done : n.appendEntriesFinish peerId = some (n', out)) : n'.Synced := by
  simp only [Node.appendEntriesFinish] at done
  split_ifs at done
  cases done
  exact h.congr rfl rfl rfl rfl

theorem Synced.applyEnter {k : ℕ} (done : n.applyEnter k = some (n', out)) : n'.Synced := by
  rw [Node.applyEnter] at done
  split at done
  · rename_i caller _ _
    have queued : ({ n with applyQueue := n.applyQueue.eraseIdx k } : Node).Synced :=
      h.congr rfl rfl rfl rfl
    have entered := queued.applyCommittedEntries caller
    rwa [Option.some.inj done] at entered
  · contradiction

theorem Synced.applySend {ok : Bool} (done : n.applySend ok = some (n', out)) : n'.Synced := by
  rw [Node.applySend] at done
  split at done
  · rename_i caller i c _
    split_ifs at done
    · cases done
      exact h.congr rfl rfl rfl rfl
    · have idle : ({ n with applyThread := none } : Node).Synced := h.congr rfl rfl rfl rfl
      have returned := idle.resume caller
      rw [Node.applyReturn] at done
      rwa [Option.some.inj done] at returned
  · contradiction

theorem Synced.applyRelock (done : n.applyRelock = some (n', out)) : n'.Synced := by
  rw [Node.applyRelock] at done
  split at done
  · rename_i caller i _
    have applied : ({ n with lastApplied := i } : Node).Synced := h.congr rfl rfl rfl rfl
    have looped := applied.applyLoop caller
    rwa [Option.some.inj done] at looped
  · contradiction

theorem Synced.snapshotTake (done : n.snapshotTake = some (n', out)) : n'.Synced := by
  rw [Node.snapshotTake] at done
  split_ifs at done
  cases done
  exact h.congr rfl rfl rfl rfl

theorem Synced.snapshotSend {ok : Bool} (done : n.snapshotSend ok = some (n', out)) :
    n'.Synced := by
  rw [Node.snapshotSend] at done
  split at done
  · split_ifs at done <;> cases done <;> exact h.congr rfl rfl rfl rfl
  · contradiction

theorem Synced.snapshotRelock (done : n.snapshotRelock = some (n', out)) : n'.Synced := by
  rw [Node.snapshotRelock] at done
  split at done
  · split_ifs at done <;> cases done <;> exact h.congr rfl rfl rfl rfl
  · contradiction

end Guarded

end Node

namespace Cluster

theorem act_synced {peers : List PeerId} {s : Cluster} {a : Action} {v : PeerId} {n : Node}
    {out : Output} (before : ∀ u, (s.nodes u).Synced)
    (found : s.act peers a = some (v, n, out)) : n.Synced := by
  cases a with
  | initVote u elapsed =>
    cases found
    exact (before v).initVote v elapsed
  | heartbeat u =>
    cases found
    rw [Node.heartbeat]
    split_ifs
    · exact (before v).congr rfl rfl rfl rfl
    · exact before v
  | requestVote u peer =>
    simp only [act] at found
    split_ifs at found
    obtain ⟨_, done, h⟩ := Option.map_eq_some_iff.mp found
    cases h
    exact (before v).requestVote done
  | requestVoteReply u peer answer =>
    simp only [act] at found
    split at found
    · contradiction
    · obtain ⟨_, _, h⟩ := Option.map_eq_some_iff.mp found
      cases h
      exact (before v).requestVoteReply _ _ _ _
  | requestVoteHandler k =>
    obtain ⟨call, _, h⟩ := Option.map_eq_some_iff.mp found
    cases h
    exact (before call.callee).requestVoteHandler call.arg
  | appendEntries u peer =>
    simp only [act] at found
    split_ifs at found
    obtain ⟨_, done, h⟩ := Option.map_eq_some_iff.mp found
    cases h
    exact (before v).appendEntries done
  | installSnapshotReply u peer answer transport =>
    simp only [act] at found
    split at found
    · rename_i call arg next _
      obtain ⟨reply, _, h⟩ := Option.map_eq_some_iff.mp found
      obtain ⟨rfl, done⟩ := Prod.mk.inj h
      have replied := (before u).installSnapshotReply u s.network.appendCalls.length peer call.arg
        arg next (reply.map transport.decode)
      rwa [done] at replied
    · contradiction
  | appendEntriesReply u peer answer unset =>
    simp only [act] at found
    split at found
    · obtain ⟨_, _, h⟩ := Option.map_eq_some_iff.mp found
      cases h
      exact (before v).appendEntriesReply _ _ _ _ _ _ _
    · contradiction
  | appendEntriesFinish u peer =>
    obtain ⟨_, done, h⟩ := Option.map_eq_some_iff.mp found
    cases h
    exact (before v).appendEntriesFinish done
  | appendEntriesHandler k =>
    obtain ⟨call, _, h⟩ := Option.map_eq_some_iff.mp found
    have handled := (before call.callee).appendEntriesHandler call.arg
    simp only at h
    split_ifs at h
    · cases h
      exact handled.congr rfl rfl rfl rfl
    · cases h
      exact handled
  | installSnapshotHandler k =>
    obtain ⟨call, _, h⟩ := Option.map_eq_some_iff.mp found
    cases h
    exact (before call.callee).installSnapshotHandler call.arg
  | applyEnter u k =>
    obtain ⟨_, done, h⟩ := Option.map_eq_some_iff.mp found
    cases h
    exact (before v).applyEnter done
  | applySend u ok =>
    obtain ⟨_, done, h⟩ := Option.map_eq_some_iff.mp found
    cases h
    exact (before v).applySend done
  | applyRelock u =>
    obtain ⟨_, done, h⟩ := Option.map_eq_some_iff.mp found
    cases h
    exact (before v).applyRelock done
  | snapshotTake u =>
    obtain ⟨_, done, h⟩ := Option.map_eq_some_iff.mp found
    cases h
    exact (before v).snapshotTake done
  | snapshotSend u ok =>
    obtain ⟨_, done, h⟩ := Option.map_eq_some_iff.mp found
    cases h
    exact (before v).snapshotSend done
  | snapshotRelock u =>
    obtain ⟨_, done, h⟩ := Option.map_eq_some_iff.mp found
    cases h
    exact (before v).snapshotRelock done
  | start u command =>
    cases found
    exact (before v).start command
  | snapshot u index data =>
    cases found
    exact (before v).snapshot index data
  | kill u =>
    cases found
    exact (before v).congr rfl rfl rfl rfl
  | restart u =>
    cases found
    exact (before v).boot
  | crash rpc k =>
    simp only [act] at found
    split at found
    · split_ifs at found
      cases found
      exact ((before v).becameFollower _ _).boot
    · contradiction

theorem run_synced {m : Membership} {actions : List Action} {s : Cluster}
    (run : Cluster.run m actions = some s) (v : PeerId) : (s.nodes v).Synced :=
  run_nodes Node.Synced Node.synced_fresh (fun _ _ _ _ _ => act_synced) run v

end Cluster

/-- Restarting a node from its persister gives back its durable state. -/
theorem restart_recovers_state {m : Membership} {actions : List Action} {s : Cluster}
    (run : Cluster.run m actions = some s) (v : PeerId) :
    let n := s.nodes v
    let restarted := Node.boot n.persister
    restarted.currentTerm = n.currentTerm ∧ restarted.votedFor = n.votedFor ∧
      restarted.snapshotData = n.snapshotData ∧
      restarted.lastIncludedIndex = n.lastIncludedIndex ∧
      restarted.lastIncludedTerm = n.lastIncludedTerm ∧
      restarted.mainLog.lastIndex = n.mainLog.lastIndex ∧
      restarted.mainLog.lastTerm = n.mainLog.lastTerm ∧
      (∀ i, restarted.mainLog.atIndex i = n.mainLog.atIndex i) ∧
      n.lastIncludedIndex = n.mainLog.lastIncludedIndex ∧
      n.lastIncludedTerm = n.mainLog.lastIncludedTerm := by
  have synced := Cluster.run_synced run v
  have store := Node.boot_store synced
  refine ⟨Node.boot_currentTerm synced, Node.boot_votedFor synced, ?_, ?_, ?_, ?_, ?_, ?_,
    synced.index.symm, synced.term.symm⟩
  all_goals simp [store]

theorem restart_recovers_state_compacted : ∃ s,
    Cluster.run threePeers (winElection "a" "b" 0 ++ [.start "a" ⟨default, .noOp⟩] ++
      commitOne "a" "b" 0 ++ [.snapshot "a" 1 [7]]) = some s ∧
    (s.nodes "a").snapshotData = [7] ∧
    (Node.boot (s.nodes "a").persister).snapshotData = (s.nodes "a").snapshotData ∧
    (Node.boot (s.nodes "a").persister).lastIncludedIndex = (s.nodes "a").lastIncludedIndex := by
  obtain ⟨s, run, data⟩ : ∃ s,
      Cluster.run threePeers (winElection "a" "b" 0 ++ [.start "a" ⟨default, .noOp⟩] ++
        commitOne "a" "b" 0 ++ [.snapshot "a" 1 [7]]) = some s ∧
      (s.nodes "a").snapshotData = [7] := by
    refine ⟨_, (Option.some_get (by decide +kernel)).symm, by decide +kernel⟩
  have recovered := restart_recovers_state run "a"
  exact ⟨s, run, data, recovered.2.2.1, recovered.2.2.2.1⟩

end Zdb.Raft
