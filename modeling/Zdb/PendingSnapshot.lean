import Zdb.Origin
import Zdb.Rsm

/-! A snapshot that waits for the state machine. While `pendingSnapshot` is set every
function of the node leaves the log and the snapshot point alone, so that what
`asyncInstallSnapshot` has copied before it releases the mutex is still there when it
has it back. -/

namespace Zdb.Raft
open LabelledRun

structure Frozen (n n' : Node) : Prop where
  store : n'.toStore = n.toStore
  pending : n'.pendingSnapshot = n.pendingSnapshot
  thread : n'.snapshotThread = n.snapshotThread
  channel : n'.stateMachine = n.stateMachine

namespace Frozen
variable {n n' : Node} {out : Output}

theorem refl (n : Node) : Frozen n n := ⟨rfl, rfl, rfl, rfl⟩

theorem trans {n₁ n₂ n₃ : Node} (first : Frozen n₁ n₂) (second : Frozen n₂ n₃) :
    Frozen n₁ n₃ :=
  ⟨second.store.trans first.store, second.pending.trans first.pending,
    second.thread.trans first.thread, second.channel.trans first.channel⟩

theorem becameFollower (n : Node) (term : ℕ) (peerId : PeerId) :
    Frozen n (n.becameFollower term peerId).1 := by
  rw [Node.becameFollower]
  split_ifs
  · exact ⟨rfl, rfl, rfl, rfl⟩
  · exact refl n

theorem initVote (n : Node) (selfId : PeerId) (elapsed : Bool) :
    Frozen n (n.initVote selfId elapsed) := by
  rw [Node.initVote]
  split_ifs
  · exact refl n
  · exact ⟨rfl, rfl, rfl, rfl⟩

theorem heartbeat (n : Node) : Frozen n n.heartbeat := by
  rw [Node.heartbeat]
  split_ifs
  · exact ⟨rfl, rfl, rfl, rfl⟩
  · exact refl n

theorem requestVoteHandler (n : Node) (arg : RequestVoteArg) :
    Frozen n (n.requestVoteHandler arg).1 := by
  have followed := becameFollower n arg.term arg.candidateId
  rw [Node.requestVoteHandler]
  split_ifs
  · exact refl n
  · exact refl n
  · simp only
    split_ifs
    · exact followed.trans ⟨rfl, rfl, rfl, rfl⟩
    · exact followed

theorem requestVoteReply (n : Node) (peers : List PeerId) (peerId : PeerId)
    (arg : RequestVoteArg) (reply : Option RequestVoteReply) :
    Frozen n (n.requestVoteReply peers peerId arg reply) := by
  have heard : Frozen n { n with
      requestVoteThread := Function.update n.requestVoteThread peerId .waiting } :=
    ⟨rfl, rfl, rfl, rfl⟩
  unfold Node.requestVoteReply
  simp only
  split_ifs
  · exact heard
  cases reply with
  | none => exact heard
  | some r =>
    have followed := heard.trans (becameFollower _ r.term peerId)
    simp only
    split_ifs
    · exact followed
    · exact followed
    · exact followed.trans ⟨rfl, rfl, rfl, rfl⟩
    · exact followed.trans ⟨rfl, rfl, rfl, rfl⟩
    · exact followed

theorem installSnapshotReply (n : Node) (selfId : PeerId) (number : ℕ) (peerId : PeerId)
    (snapArg : InstallSnapshotArg) (arg : AppendEntriesArg) (next : ℕ)
    (reply : Option InstallSnapshotReply) :
    Frozen n (n.installSnapshotReply selfId number peerId snapArg arg next reply).1 := by
  have heard : Frozen n (n.setPoint peerId .waiting) := ⟨rfl, rfl, rfl, rfl⟩
  unfold Node.installSnapshotReply
  simp only
  split_ifs
  · exact heard.trans ⟨rfl, rfl, rfl, rfl⟩
  cases reply with
  | none => exact heard
  | some r =>
    have followed := heard.trans (becameFollower _ r.term peerId)
    simp only
    split_ifs
    · exact followed
    · exact followed
    · exact followed.trans ⟨rfl, rfl, rfl, rfl⟩
    · exact followed

theorem appendEntriesReply (n : Node) (peers : List PeerId) (selfId peerId : PeerId)
    (arg : AppendEntriesArg) (next : ℕ) (reply : Option AppendEntriesReply) (unset : ℕ × ℕ) :
    Frozen n (n.appendEntriesReply peers selfId peerId arg next reply unset) := by
  have heard : Frozen n (n.setPoint peerId .waiting) := ⟨rfl, rfl, rfl, rfl⟩
  unfold Node.appendEntriesReply
  simp only
  split_ifs
  · exact heard.trans ⟨rfl, rfl, rfl, rfl⟩
  cases reply with
  | none => exact heard.trans ⟨rfl, rfl, rfl, rfl⟩
  | some r =>
    have followed := heard.trans (becameFollower _ r.term peerId)
    simp only
    split_ifs
    · exact followed
    · exact followed.trans ⟨rfl, rfl, rfl, rfl⟩
    · split <;> exact followed.trans ⟨rfl, rfl, rfl, rfl⟩
    · exact followed.trans ⟨rfl, rfl, rfl, rfl⟩

theorem requestVote {selfId peerId : PeerId} {number : ℕ}
    (done : n.requestVote selfId number peerId = some (n', out)) : Frozen n n' := by
  simp only [Node.requestVote] at done
  split_ifs at done
  cases done
  exact ⟨rfl, rfl, rfl, rfl⟩

theorem appendEntries {selfId peerId : PeerId} {number snapNumber : ℕ}
    (done : n.appendEntries selfId number snapNumber peerId = some (n', out)) : Frozen n n' := by
  simp only [Node.appendEntries] at done
  split_ifs at done
  · cases done
    exact refl n
  all_goals
    split at done
    all_goals
      cases done
      exact ⟨rfl, rfl, rfl, rfl⟩

theorem appendEntriesFinish {peerId : PeerId}
    (done : n.appendEntriesFinish peerId = some (n', out)) : Frozen n n' := by
  simp only [Node.appendEntriesFinish] at done
  split_ifs at done
  cases done
  exact ⟨rfl, rfl, rfl, rfl⟩

theorem resume (n : Node) (caller : ApplyCaller) : Frozen n (n.resume caller).1 := by
  cases caller <;> exact ⟨rfl, rfl, rfl, rfl⟩

theorem applyReturn (n : Node) (caller : ApplyCaller) : Frozen n (n.applyReturn caller).1 := by
  have released : Frozen n { n with applyThread := none } := ⟨rfl, rfl, rfl, rfl⟩
  exact released.trans (resume _ caller)

theorem applyLoop (n : Node) (caller : ApplyCaller) : Frozen n (n.applyLoop caller).1 := by
  rw [Node.applyLoop]
  split_ifs
  · exact applyReturn n caller
  · split
    · exact applyReturn n caller
    · exact ⟨rfl, rfl, rfl, rfl⟩

theorem applyEnter {k : ℕ} (done : n.applyEnter k = some (n', out)) : Frozen n n' := by
  rw [Node.applyEnter] at done
  split at done
  · rename_i caller _ _
    have queued : Frozen n { n with applyQueue := n.applyQueue.eraseIdx k } :=
      ⟨rfl, rfl, rfl, rfl⟩
    rw [Node.applyCommittedEntries] at done
    split_ifs at done
    · have entered := queued.trans (applyReturn _ caller)
      rwa [Option.some.inj done] at entered
    · have entered := queued.trans (applyLoop _ caller)
      rwa [Option.some.inj done] at entered
  · contradiction

theorem applyRelock (done : n.applyRelock = some (n', out)) : Frozen n n' := by
  rw [Node.applyRelock] at done
  split at done
  · rename_i caller i _
    have applied : Frozen n { n with lastApplied := i } := ⟨rfl, rfl, rfl, rfl⟩
    have looped := applied.trans (applyLoop _ caller)
    rwa [Option.some.inj done] at looped
  · contradiction

end Frozen

namespace Node
variable {n : Node} (pending : n.pendingSnapshot = true)
include pending

theorem readPersist_pending (disk : PersistentState) : n.readPersist disk = n := by
  simp [readPersist, pending]

theorem appendEntriesHandler_pending (arg : AppendEntriesArg) :
    n.appendEntriesHandler arg = (n, { success := false, term := n.currentTerm }, false) := by
  simp [appendEntriesHandler, pending]

theorem installSnapshotHandler_pending (arg : InstallSnapshotArg) :
    n.installSnapshotHandler arg = (n, ⟨false, n.currentTerm⟩) := by
  simp [installSnapshotHandler, pending]

theorem start_pending (command : Command) : n.start command = (n, false) := by
  simp [start, pending]

theorem snapshot_pending (index : ℕ) (data : Bytes) : n.snapshot index data = n := by
  simp [snapshot, pending]

end Node

inductive Held (n : Node) : Node → Prop
  | frozen {n' : Node} (frozen : Frozen n n') : Held n n'
  | command {n' : Node} (e : LogEntry) (store : n'.toStore = n.toStore)
      (pending : n'.pendingSnapshot = n.pendingSnapshot)
      (thread : n'.snapshotThread = n.snapshotThread)
      (channel : n'.stateMachine = n.stateMachine ++ [.command e]) : Held n n'
  | take (at_ : n.snapshotThread = .waiting) : Held n { n with
      snapshotThread := .sending n.lastIncludedIndex n.lastIncludedTerm n.snapshotData }
  | handOver (index term : ℕ) (data : Bytes) (at_ : n.snapshotThread = .sending index term data) :
      Held n { n with
        stateMachine := n.stateMachine ++ [.snapshot index term data]
        snapshotThread := .sent index term }
  | giveUp (index term : ℕ) (data : Bytes) (at_ : n.snapshotThread = .sending index term data) :
      Held n { n with snapshotThread := .waiting }
  | installed (index term : ℕ) (at_ : n.snapshotThread = .sent index term) :
      Held n { n with
        lastApplied := index
        commitIndex := index
        pendingSnapshot := false
        snapshotThread := .waiting }
  | overtaken (index term : ℕ) (at_ : n.snapshotThread = .sent index term)
      (differ : ¬ (n.lastIncludedIndex = index ∧ n.lastIncludedTerm = term)) :
      Held n { n with snapshotThread := .waiting }

namespace Held
variable {n n' : Node} {out : Output}

theorem applySend {ok : Bool} (done : n.applySend ok = some (n', out)) : Held n n' := by
  rw [Node.applySend] at done
  split at done
  · rename_i caller i c _
    split_ifs at done
    · cases done
      exact .command c rfl rfl rfl rfl
    · have returned := Frozen.applyReturn n caller
      rw [Option.some.inj done] at returned
      exact .frozen returned
  · contradiction

theorem snapshotTake (done : n.snapshotTake = some (n', out)) : Held n n' := by
  rw [Node.snapshotTake] at done
  split_ifs at done with ready
  cases done
  exact .take ready.1

theorem snapshotSend {ok : Bool} (done : n.snapshotSend ok = some (n', out)) : Held n n' := by
  rw [Node.snapshotSend] at done
  split at done
  · rename_i index term data at_
    split_ifs at done
    · cases done
      exact .handOver index term data at_
    · cases done
      exact .giveUp index term data at_
  · contradiction

theorem snapshotRelock (done : n.snapshotRelock = some (n', out)) : Held n n' := by
  rw [Node.snapshotRelock] at done
  split at done
  · rename_i index term at_
    split_ifs at done with same
    · cases done
      exact .installed index term at_
    · cases done
      exact .overtaken index term at_ same
  · contradiction

end Held

theorem Cluster.act_held {peers : List PeerId} {s : Cluster} {a : Action} {v : PeerId} {n : Node}
    {out : Output} (pending : (s.nodes v).pendingSnapshot = true)
    (goes : Rsm.resets s a ≠ some v) (found : s.act peers a = some (v, n, out)) :
    Held (s.nodes v) n := by
  cases a with
  | initVote u elapsed =>
    cases found
    exact .frozen (.initVote _ v elapsed)
  | heartbeat u =>
    cases found
    exact .frozen (.heartbeat _)
  | requestVote u peer =>
    simp only [act] at found
    split_ifs at found
    obtain ⟨_, done, h⟩ := Option.map_eq_some_iff.mp found
    cases h
    exact .frozen (.requestVote done)
  | requestVoteReply u peer answer =>
    simp only [act] at found
    split at found
    · contradiction
    · obtain ⟨reply, _, h⟩ := Option.map_eq_some_iff.mp found
      cases h
      exact .frozen (.requestVoteReply _ _ _ _ _)
  | requestVoteHandler k =>
    obtain ⟨call, _, h⟩ := Option.map_eq_some_iff.mp found
    cases h
    exact .frozen (.requestVoteHandler _ _)
  | appendEntries u peer =>
    simp only [act] at found
    split_ifs at found
    obtain ⟨_, done, h⟩ := Option.map_eq_some_iff.mp found
    cases h
    exact .frozen (.appendEntries done)
  | installSnapshotReply u peer answer transport =>
    simp only [act] at found
    split at found
    · obtain ⟨reply, _, h⟩ := Option.map_eq_some_iff.mp found
      obtain ⟨rfl, done⟩ := Prod.mk.inj h
      have frozen := congrArg Prod.fst done ▸ Frozen.installSnapshotReply _ _ _ _ _ _ _ _
      exact .frozen frozen
    · contradiction
  | appendEntriesReply u peer answer unset =>
    simp only [act] at found
    split at found
    · obtain ⟨reply, _, h⟩ := Option.map_eq_some_iff.mp found
      cases h
      exact .frozen (.appendEntriesReply _ _ _ _ _ _ _ _)
    · contradiction
  | appendEntriesFinish u peer =>
    obtain ⟨_, done, h⟩ := Option.map_eq_some_iff.mp found
    cases h
    exact .frozen (.appendEntriesFinish done)
  | appendEntriesHandler k =>
    obtain ⟨call, _, h⟩ := Option.map_eq_some_iff.mp found
    obtain rfl : call.callee = v := by
      dsimp only at h
      split_ifs at h <;> exact congrArg Prod.fst h
    rw [Node.appendEntriesHandler_pending pending] at h
    cases h
    exact .frozen (.refl _)
  | installSnapshotHandler k =>
    obtain ⟨call, _, h⟩ := Option.map_eq_some_iff.mp found
    obtain rfl : call.callee = v := congrArg Prod.fst h
    rw [Node.installSnapshotHandler_pending pending] at h
    cases h
    exact .frozen (.refl _)
  | applyEnter u k =>
    obtain ⟨_, done, h⟩ := Option.map_eq_some_iff.mp found
    cases h
    exact .frozen (.applyEnter done)
  | applySend u ok =>
    obtain ⟨_, done, h⟩ := Option.map_eq_some_iff.mp found
    cases h
    exact .applySend done
  | applyRelock u =>
    obtain ⟨_, done, h⟩ := Option.map_eq_some_iff.mp found
    cases h
    exact .frozen (.applyRelock done)
  | snapshotTake u =>
    obtain ⟨_, done, h⟩ := Option.map_eq_some_iff.mp found
    cases h
    exact .snapshotTake done
  | snapshotSend u ok =>
    obtain ⟨_, done, h⟩ := Option.map_eq_some_iff.mp found
    cases h
    exact .snapshotSend done
  | snapshotRelock u =>
    obtain ⟨_, done, h⟩ := Option.map_eq_some_iff.mp found
    cases h
    exact .snapshotRelock done
  | start u command =>
    cases found
    rw [Node.start_pending pending]
    exact .frozen (.refl _)
  | snapshot u index data =>
    cases found
    rw [Node.snapshot_pending pending]
    exact .frozen (.refl _)
  | kill u =>
    cases found
    exact .frozen ⟨rfl, rfl, rfl, rfl⟩
  | restart u =>
    cases found
    exact absurd rfl goes
  | crash rpc k =>
    simp only [act] at found
    split at found
    · rename_i u term sender request
      split_ifs at found
      cases found
      exact absurd (by simp [Rsm.resets, request]) goes
    · contradiction

def Node.ownSnapshot (n : Node) : Item :=
  .snapshot n.lastIncludedIndex n.lastIncludedTerm n.snapshotData

def Item.isSnapshot : Item → Bool
  | .snapshot _ _ _ => true
  | .command _ => false

def snapshots (items : List Item) : List Item := items.filter Item.isSnapshot

/-- Where the thread stands after the channel was given `items` since the flag was set. -/
inductive Stage (n : Node) (items : List Item) : Prop
  | waiting (pending : n.pendingSnapshot = true) (thread : n.snapshotThread = .waiting)
      (none : snapshots items = [])
  | sending (pending : n.pendingSnapshot = true)
      (thread : n.snapshotThread =
        .sending n.lastIncludedIndex n.lastIncludedTerm n.snapshotData)
      (none : snapshots items = [])
  | sent (pending : n.pendingSnapshot = true)
      (thread : n.snapshotThread = .sent n.lastIncludedIndex n.lastIncludedTerm)
      (one : snapshots items = [n.ownSnapshot])
  | cleared (pending : n.pendingSnapshot = false) (thread : n.snapshotThread = .waiting)
      (one : snapshots items = [n.ownSnapshot])

structure Awaiting (start n : Node) : Prop where
  store : n.toStore = start.toStore
  stage : ∃ items, n.stateMachine = start.stateMachine ++ items ∧ Stage n items

section
variable {start n n' : Node} {items : List Item}

theorem snapshots_concat (items : List Item) (item : Item) :
    snapshots (items ++ [item]) = snapshots items ++ if item.isSnapshot then [item] else [] := by
  rw [snapshots, List.filter_append, List.filter_singleton, cond_eq_ite]
  rfl

theorem Stage.congr (stage : Stage n items) (store : n'.toStore = n.toStore)
    (pending : n'.pendingSnapshot = n.pendingSnapshot)
    (thread : n'.snapshotThread = n.snapshotThread) {items' : List Item}
    (same : snapshots items' = snapshots items) : Stage n' items' := by
  have index : n'.lastIncludedIndex = n.lastIncludedIndex := congrArg Store.lastIncludedIndex store
  have term : n'.lastIncludedTerm = n.lastIncludedTerm := congrArg Store.lastIncludedTerm store
  have data : n'.snapshotData = n.snapshotData := congrArg Store.snapshotData store
  have own : n'.ownSnapshot = n.ownSnapshot := by rw [Node.ownSnapshot, index, term, data]; rfl
  cases stage with
  | waiting flag at_ none => exact .waiting (pending ▸ flag) (thread ▸ at_) (same ▸ none)
  | sending flag at_ none =>
    exact .sending (pending ▸ flag) (by rw [thread, at_, index, term, data]) (same ▸ none)
  | sent flag at_ one =>
    exact .sent (pending ▸ flag) (by rw [thread, at_, index, term]) (by rw [same, one, own])
  | cleared flag at_ one =>
    exact .cleared (pending ▸ flag) (thread ▸ at_) (by rw [same, one, own])

theorem Stage.of_sending {index term : ℕ} {data : Bytes} (stage : Stage n items)
    (at_ : n.snapshotThread = .sending index term data) :
    n.pendingSnapshot = true ∧ .snapshot index term data = n.ownSnapshot ∧
      snapshots items = [] := by
  cases stage with
  | sending flag thread none =>
    rw [at_] at thread
    cases thread
    exact ⟨flag, rfl, none⟩
  | waiting _ thread _ => simp [at_] at thread
  | sent _ thread _ => simp [at_] at thread
  | cleared _ thread _ => simp [at_] at thread

theorem Stage.of_sent {index term : ℕ} (stage : Stage n items)
    (at_ : n.snapshotThread = .sent index term) :
    (n.lastIncludedIndex = index ∧ n.lastIncludedTerm = term) ∧
      snapshots items = [n.ownSnapshot] := by
  cases stage with
  | sent _ thread one =>
    rw [at_] at thread
    cases thread
    exact ⟨⟨rfl, rfl⟩, one⟩
  | waiting _ thread _ => simp [at_] at thread
  | sending _ thread _ => simp [at_] at thread
  | cleared _ thread _ => simp [at_] at thread

theorem Stage.of_waiting (stage : Stage n items) (pending : n.pendingSnapshot = true)
    (at_ : n.snapshotThread = .waiting) : snapshots items = [] := by
  cases stage with
  | waiting _ _ none => exact none
  | sending _ thread _ => simp [at_] at thread
  | sent _ thread _ => simp [at_] at thread
  | cleared flag _ _ => simp [pending] at flag

theorem Awaiting.step (awaiting : Awaiting start n) (pending : n.pendingSnapshot = true)
    (held : Held n n') : Awaiting start n' := by
  obtain ⟨store, items, channel, stage⟩ := awaiting
  cases held with
  | frozen frozen =>
    refine ⟨frozen.store.trans store, items, frozen.channel.trans channel, ?_⟩
    exact stage.congr frozen.store frozen.pending frozen.thread rfl
  | command e store' pending' thread' channel' =>
    refine ⟨store'.trans store, items ++ [.command e], by rw [channel', channel, List.append_assoc],
      stage.congr store' pending' thread' ?_⟩
    simp [snapshots_concat, Item.isSnapshot]
  | take at_ => exact ⟨store, items, channel, .sending pending rfl (stage.of_waiting pending at_)⟩
  | handOver index term data at_ =>
    obtain ⟨_, own, none⟩ := stage.of_sending at_
    refine ⟨store, items ++ [.snapshot index term data], ?_, .sent pending ?_ ?_⟩
    · rw [channel, List.append_assoc]
    · cases own
      rfl
    · rw [snapshots_concat, none, own]
      rfl
  | giveUp index term data at_ =>
    exact ⟨store, items, channel, .waiting pending rfl (stage.of_sending at_).2.2⟩
  | installed index term at_ =>
    exact ⟨store, items, channel, .cleared rfl rfl (stage.of_sent at_).2⟩
  | overtaken index term at_ differ => exact absurd (stage.of_sent at_).1 differ

end

def Node.Rests (n : Node) : Prop := n.pendingSnapshot = false → n.snapshotThread = .waiting

section
variable {n n' : Node} {peers : List PeerId} {net : Network} {v : PeerId} {a : Action}
  {out : Output}

theorem Node.Rests.deliver {d : Delivery} {returns : Option ApplyCaller} (rests : n.Rests)
    (delivers : Delivers v n a d returns) : ({ n with toDelivery := d } : Node).Rests := by
  cases delivers with
  | take at_ pending => exact fun clear => by simp [pending] at clear
  | handOver index term data at_ => exact fun clear => by simp [rests clear] at at_
  | giveUp => exact fun _ => rfl
  | installed => exact fun _ => rfl
  | overtaken => exact fun _ => rfl
  | _ => exact rests

theorem Node.Rests.raised (rests : n.Rests) (move : Move peers net v n a n' out)
    (clear : n.pendingSnapshot = false) (set : n'.pendingSnapshot = true) :
    n'.snapshotThread = .waiting := by
  have kept (d : Delivery) (returns : Option ApplyCaller) (delivers : Delivers v n a d returns) :
      d.pendingSnapshot = true → d.snapshotThread = .waiting := by
    intro set
    cases delivers with
    | take at_ pending => simp [clear] at pending
    | handOver index term data at_ => simp [rests clear] at at_
    | giveUp => rfl
    | installed => rfl
    | overtaken => rfl
    | _ => exact rests clear
  cases move with
  | accept k call control d out found here current clear' accepts success follows =>
    cases follows <;> exact rests clear
  | reboot => rfl
  | deliver a d delivers => exact kept d _ delivers set
  | deliverReturn a d caller delivers => cases caller <;> exact kept d _ delivers set
  | _ => exact rests clear

theorem Node.Rests.step (rests : n.Rests) (move : Move peers net v n a n' out) : n'.Rests := by
  cases move with
  | accept k call control d out found here current clear accepts success follows =>
    cases follows <;> exact rests
  | install => exact fun clear => by simp at clear
  | reboot => exact fun _ => rfl
  | deliver a d delivers => exact rests.deliver delivers
  | deliverReturn a d caller delivers => cases caller <;> exact rests.deliver delivers
  | _ => exact rests

end

section
variable {m : Membership} {v : PeerId} {s t : Cluster} {a : Action}

theorem run_rests {actions : List Action} (run : Cluster.run m actions = some s) (v : PeerId) :
    (s.nodes v).Rests := by
  have both := Cluster.run_nodes (fun n => n.Synced ∧ n.Rests) ⟨Node.synced_fresh, fun _ => rfl⟩
    (fun s a v n out before found => ?_) run v
  · exact both.2
  · have synced u := (before u).1
    exact ⟨Cluster.act_synced synced found, (before v).2.step (Cluster.act_move synced found)⟩

/-- The step has just set the flag of `v`: the handler has, or `readPersist` of a process
that begins. -/
def SetsPending (s : Cluster) (a : Action) (t : Cluster) (v : PeerId) : Prop :=
  (t.nodes v).pendingSnapshot = true ∧
    ((s.nodes v).pendingSnapshot = false ∨ Rsm.resets s a = some v)

def StaysPending (v : PeerId) (s : Cluster) (a : Action) : Prop :=
  (s.nodes v).pendingSnapshot = true ∧ Rsm.resets s a ≠ some v

theorem Awaiting.cluster_step {start : Node} (awaiting : Awaiting start (s.nodes v))
    (stays : StaysPending v s a) (move : s.step m a = some t) : Awaiting start (t.nodes v) := by
  obtain ⟨u, n, out, found, _, _, rfl⟩ := Cluster.step_eq_some move
  by_cases same : v = u
  · subst same
    rw [Cluster.update_nodes_self]
    exact awaiting.step stays.1 (Cluster.act_held stays.1 stays.2 found)
  · rwa [Cluster.update_nodes_ne _ _ _ same]

theorem waiting_of_resets {u : PeerId} {n : Node} {out : Output}
    (resets : Rsm.resets s a = some v) (found : s.act m.peers a = some (u, n, out)) :
    u = v ∧ n.snapshotThread = .waiting := by
  cases a with
  | restart w =>
    cases resets
    cases found
    exact ⟨rfl, rfl⟩
  | crash rpc k =>
    obtain ⟨⟨w, term, sender⟩, request, rfl⟩ := Option.map_eq_some_iff.mp resets
    simp only [Cluster.act, request] at found
    split_ifs at found
    cases found
    exact ⟨rfl, rfl⟩
  | _ => cases resets

theorem SetsPending.awaiting {before : List Action} (sets : SetsPending s a t v)
    (run : Cluster.run m before = some s) (move : s.step m a = some t) :
    Awaiting (t.nodes v) (t.nodes v) := by
  obtain ⟨set, raised⟩ := sets
  refine ⟨rfl, [], by simp, .waiting set ?_ rfl⟩
  obtain ⟨u, n, out, found, _, _, rfl⟩ := Cluster.step_eq_some move
  rcases raised with clear | resets
  · by_cases same : v = u
    · subst same
      rw [Cluster.update_nodes_self] at set ⊢
      exact (run_rests run v).raised (Cluster.act_move (Cluster.run_synced run) found) clear set
    · rw [Cluster.update_nodes_ne _ _ _ same, clear] at set
      cases set
  · obtain ⟨rfl, waiting⟩ := waiting_of_resets resets found
    rwa [Cluster.update_nodes_self]

def isInstall (command : Command) : Bool :=
  match command.payload with
  | .installSnapshotCommand _ _ _ => true
  | _ => false

def Item.installs : Item → Bool
  | .snapshot _ _ _ => true
  | .command e => isInstall e.command

/-- `start` is not called with an `InstallSnapshotCommand`. -/
def StartsPlain (actions : List Action) : Prop :=
  ∀ u command, .start u command ∈ actions → isInstall command = false

theorem carried_plain {actions : List Action} (plain : StartsPlain actions)
    (synced : ∀ u, (s.nodes u).Synced) (inv : Carried (fun e => isInstall e.command = false) s)
    (run : exec (Cluster.step m) s actions = some t) :
    (∀ u, (t.nodes u).Synced) ∧ Carried (fun e => isInstall e.command = false) t := by
  let allowed (a : Action) : Prop := ∀ u command, a = .start u command → isInstall command = false
  have good : Along (Cluster.step m) (fun _ a => allowed a) s actions :=
    along_of_invariant (fun _ => True) allowed (fun _ _ _ _ _ _ => trivial)
      (fun _ _ _ allowed => allowed) trivial
      fun a mem u command same => plain u command (same ▸ mem)
  refine exec_invariant (fun s => (∀ u, (s.nodes u).Synced) ∧
    Carried (fun e => isInstall e.command = false) s) ?_ ⟨synced, inv⟩ good run
  rintro s a t ⟨synced, inv⟩ allowed move
  obtain ⟨v, n, out, found, _, _, rfl⟩ := Cluster.step_eq_some move
  refine ⟨Cluster.forall_nodes_update (P := fun _ n => n.Synced)
    (Cluster.act_synced synced found) fun u _ => synced u, ?_⟩
  exact inv.step (Cluster.act_move synced found) fun command same => Or.inl (allowed v command same)

/-- While a snapshot is pending the log and the snapshot stay as they are, also for
`readPersist`; the thread comes back to the snapshot it has taken; and when the flag is
cleared the channel has been given that snapshot once. -/
theorem pending_snapshot_frozen (m : Membership) (v : PeerId) (before during : List Action)
    (a : Action) (r s t : Cluster) (run : Cluster.run m before = some r)
    (move : r.step m a = some s) (sets : SetsPending r a s v)
    (stays : Along (Cluster.step m) (StaysPending v) s during)
    (goes : exec (Cluster.step m) s during = some t) :
    (t.nodes v).toStore = (s.nodes v).toStore ∧
      ((t.nodes v).pendingSnapshot = true →
        ∀ disk, (t.nodes v).readPersist disk = t.nodes v) ∧
      (∀ index term, (t.nodes v).snapshotThread = .sent index term →
        (t.nodes v).lastIncludedIndex = index ∧ (t.nodes v).lastIncludedTerm = term) ∧
      ∃ items, (t.nodes v).stateMachine = (s.nodes v).stateMachine ++ items ∧
        ((t.nodes v).pendingSnapshot = false →
          snapshots items = [(t.nodes v).ownSnapshot] ∧
            (StartsPlain (before ++ a :: during) →
              items.filter Item.installs = [(t.nodes v).ownSnapshot])) := by
  have awaiting : Awaiting (s.nodes v) (t.nodes v) :=
    exec_invariant (fun c => Awaiting (s.nodes v) (c.nodes v))
      (fun _ _ _ awaiting stays move => awaiting.cluster_step stays move)
      (sets.awaiting run move) stays goes
  obtain ⟨store, items, channel, stage⟩ := awaiting
  refine ⟨store, Node.readPersist_pending, fun index term at_ => (stage.of_sent at_).1, items,
    channel, fun clear => ?_⟩
  have one : snapshots items = [(t.nodes v).ownSnapshot] := by
    cases stage with
    | cleared _ _ one => exact one
    | waiting pending _ _ => simp [pending] at clear
    | sending pending _ _ => simp [pending] at clear
    | sent pending _ _ => simp [pending] at clear
  refine ⟨one, fun plain => ?_⟩
  -- the commands among the items come from logs, and so from `start`
  have first := carried_plain (fun u command mem => plain u command (by simp [mem]))
    Cluster.initial_synced (Carried.initial _) run
  have whole : exec (Cluster.step m) r (a :: during) = some t := by
    rw [exec, move]
    exact goes
  have last := carried_plain
    (fun u command mem => plain u command (List.mem_append_right before mem)) first.1 first.2 whole
  rw [← one, snapshots]
  refine List.filter_congr fun item mem => ?_
  cases item with
  | snapshot => rfl
  | command e => exact (last.2.node v).channel e (channel ▸ List.mem_append_right _ mem)

instance (s t : Cluster) (a : Action) (v : PeerId) : Decidable (SetsPending s a t v) := by
  unfold SetsPending
  infer_instance

instance (v : PeerId) (s : Cluster) (a : Action) : Decidable (StaysPending v s a) := by
  unfold StaysPending
  infer_instance

theorem pending_snapshot_frozen_installed : ∃ s t : Cluster,
    (s.nodes "c").pendingSnapshot = true ∧ (t.nodes "c").pendingSnapshot = false ∧
      (t.nodes "c").toStore = (s.nodes "c").toStore ∧
      ∃ items, (t.nodes "c").stateMachine = (s.nodes "c").stateMachine ++ items ∧
        snapshots items = [.snapshot 1 1 [1]] := by
  obtain ⟨r, s, t, run, move, goes, sets, stays, clear, own⟩ : ∃ r s t : Cluster,
      Cluster.run threePeers (winElection "a" "b" 0 ++ [.start "a" ⟨default, .noOp⟩] ++
        commitOne "a" "b" 0 ++ [.snapshot "a" 1 [1], .start "a" ⟨default, .noOp⟩,
          .appendEntries "a" "c"]) = some r ∧
      r.step threePeers (.installSnapshotHandler 0) = some s ∧
      exec (Cluster.step threePeers) s
        [.snapshotTake "c", .snapshotSend "c" true, .snapshotRelock "c"] = some t ∧
      SetsPending r (.installSnapshotHandler 0) s "c" ∧
      Along (Cluster.step threePeers) (StaysPending "c") s
        [.snapshotTake "c", .snapshotSend "c" true, .snapshotRelock "c"] ∧
      (t.nodes "c").pendingSnapshot = false ∧
      (t.nodes "c").ownSnapshot = .snapshot 1 1 [1] :=
    ⟨_, _, _, (Option.some_get (by decide +kernel)).symm,
      (Option.some_get (by decide +kernel)).symm, (Option.some_get (by decide +kernel)).symm,
      by decide +kernel, by decide +kernel, by decide +kernel, by decide +kernel⟩
  obtain ⟨store, _, _, items, channel, once⟩ :=
    pending_snapshot_frozen threePeers "c" _ _ _ r s t run move sets stays goes
  exact ⟨s, t, sets.1, clear, store, items, channel, own ▸ (once clear).1⟩

end

end Zdb.Raft
