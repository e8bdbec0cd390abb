import Zdb.Moves

/-! What a run has done so far, carried beside the cluster: every vote, every
leader, and for every node its logical log, that is, the log it would have if
nothing had ever been compacted. A node that installs a snapshot takes the part
the snapshot stands for from the leader that sent it. -/

namespace Zdb.Raft
open LabelledRun

structure History where
  ballot : PeerId → ℕ → Option PeerId := fun _ _ => none
  leader : ℕ → Option PeerId := fun _ => none
  log : PeerId → List LogEntry := fun _ => []
  led : ℕ → List LogEntry := fun _ => []

namespace History

/-- The entries the snapshot point of a node stands for are the first ones of
this log. -/
def base (h : History) (v : PeerId) : Output → List LogEntry
  | .installSnapshotAnswer a => if a.reply.success then h.led a.call.arg.term else h.log v
  | _ => h.log v

def newLog (h : History) (v : PeerId) (n : Node) (out : Output) : List LogEntry :=
  (h.base v out).take n.lastIncludedIndex ++ n.mainLog.entries

def record (h : History) (v : PeerId) (n : Node) (out : Output) : History where
  ballot := Function.update h.ballot v (Function.update (h.ballot v) n.currentTerm n.votedFor)
  leader := if n.role = .leader then Function.update h.leader n.currentTerm (some v) else h.leader
  log := Function.update h.log v (h.newLog v n out)
  led := if n.role = .leader then Function.update h.led n.currentTerm (h.newLog v n out)
    else h.led

def recordStep (m : Membership) (h : History) (s : Cluster) (a : Action) (_ : Cluster) : History :=
  match s.act m.peers a with
  | some (v, n, out) => h.record v n out
  | none => h

variable {h : History} {u v : PeerId} {n : Node} {out : Output} {T : ℕ}

theorem record_ballot_self : (h.record v n out).ballot v n.currentTerm = n.votedFor := by
  simp [record]

theorem record_ballot_ne (other : u ≠ v ∨ T ≠ n.currentTerm) :
    (h.record v n out).ballot u T = h.ballot u T := by
  by_cases same : u = v
  · subst same
    have apart : T ≠ n.currentTerm := by simpa using other
    simp [record, apart]
  · simp [record, same]

theorem record_leader_of_leader (leads : n.role = .leader) :
    (h.record v n out).leader n.currentTerm = some v := by simp [record, leads]

theorem record_leader_ne (other : n.role ≠ .leader ∨ T ≠ n.currentTerm) :
    (h.record v n out).leader T = h.leader T := by
  by_cases leads : n.role = .leader
  · have apart : T ≠ n.currentTerm := by simpa [leads] using other
    simp [record, leads, apart]
  · simp [record, leads]

theorem record_log_self : (h.record v n out).log v = h.newLog v n out := by simp [record]

theorem record_log_ne (other : u ≠ v) : (h.record v n out).log u = h.log u := by
  simp [record, other]

theorem record_led_of_leader (leads : n.role = .leader) :
    (h.record v n out).led n.currentTerm = h.newLog v n out := by simp [record, leads]

theorem record_led_ne (other : n.role ≠ .leader ∨ T ≠ n.currentTerm) :
    (h.record v n out).led T = h.led T := by
  by_cases leads : n.role = .leader
  · have apart : T ≠ n.currentTerm := by simpa [leads] using other
    simp [record, leads, apart]
  · simp [record, leads]

end History

namespace Cluster

@[simp] theorem update_nodes_self (s : Cluster) (v : PeerId) (n : Node) (out : Output) :
    (s.update v n out).nodes v = n := by simp [Cluster.update]

theorem update_nodes_ne (s : Cluster) {u v : PeerId} (n : Node) (out : Output) (other : u ≠ v) :
    (s.update v n out).nodes u = s.nodes u := by simp [Cluster.update, other]

@[simp] theorem update_network (s : Cluster) (v : PeerId) (n : Node) (out : Output) :
    (s.update v n out).network = s.network.emit out := rfl

theorem forall_nodes_update {P : PeerId → Node → Prop} {s : Cluster} {v : PeerId} {n : Node}
    {out : Output} (mine : P v n) (others : ∀ u, u ≠ v → P u (s.nodes u)) :
    ∀ u, P u ((s.update v n out).nodes u) := by
  intro u
  by_cases same : u = v
  · subst same
    simpa using mine
  · rw [update_nodes_ne s n out same]
    exact others u same

end Cluster

namespace Network
variable {net : Network} {out : Output}

theorem mem_voteCalls_emit {c : Call RequestVoteArg} (h : c ∈ (net.emit out).voteCalls) :
    c ∈ net.voteCalls ∨ out = .requestVote c := by
  cases out <;> simp_all [emit]
  rcases h with old | rfl <;> simp_all

theorem mem_voteAnswers_emit {a : Answer RequestVoteArg RequestVoteReply}
    (h : a ∈ (net.emit out).voteAnswers) : a ∈ net.voteAnswers ∨ out = .requestVoteAnswer a := by
  cases out <;> simp_all [emit]
  rcases h with old | rfl <;> simp_all

theorem mem_appendCalls_emit {c : Call AppendEntriesArg} (h : c ∈ (net.emit out).appendCalls) :
    c ∈ net.appendCalls ∨ out = .appendEntries c := by
  cases out <;> simp_all [emit]
  rcases h with old | rfl <;> simp_all

theorem mem_appendAnswers_emit {a : Answer AppendEntriesArg AppendEntriesReply}
    (h : a ∈ (net.emit out).appendAnswers) :
    a ∈ net.appendAnswers ∨ out = .appendEntriesAnswer a := by
  cases out <;> simp_all [emit]
  rcases h with old | rfl <;> simp_all

theorem mem_installCalls_emit {c : Call InstallSnapshotArg} (h : c ∈ (net.emit out).installCalls) :
    c ∈ net.installCalls ∨ out = .installSnapshot c := by
  cases out <;> simp_all [emit]
  rcases h with old | rfl <;> simp_all

end Network

namespace Cluster
variable {m : Membership}

def runHistory (m : Membership) (actions : List Action) : Option (Cluster × History) :=
  exec (observed (Cluster.step m) (History.recordStep m)) (Cluster.initial, {}) actions

theorem run_of_runHistory {actions : List Action} {s : Cluster} {h : History}
    (run : runHistory m actions = some (s, h)) : Cluster.run m actions = some s :=
  exec_of_observed run

theorem exists_history {actions : List Action} {s t : Cluster} (h : History)
    (run : exec (Cluster.step m) s actions = some t) :
    ∃ k, exec (observed (Cluster.step m) (History.recordStep m)) (s, h) actions = some (t, k) :=
  exists_observed h run

theorem exists_runHistory {actions : List Action} {s : Cluster}
    (run : Cluster.run m actions = some s) : ∃ h, runHistory m actions = some (s, h) :=
  exists_history {} run

theorem step_history {s t : Cluster} {h k : History} {a : Action}
    (synced : ∀ u, (s.nodes u).Synced)
    (move : observed (Cluster.step m) (History.recordStep m) (s, h) a = some (t, k)) :
    ∃ v n out, v ∈ m.peers ∧ Move m.peers s.network v (s.nodes v) a n out ∧ n.Synced ∧
      t = s.update v n out ∧ k = h.record v n out := by
  obtain ⟨stepped, recorded⟩ := observed_eq_some.mp move
  obtain ⟨v, n, out, found, member, _, rfl⟩ := step_eq_some stepped
  refine ⟨v, n, out, member, act_move synced found, act_synced synced found, rfl, ?_⟩
  rw [recorded, History.recordStep, found]

/-- Induction over runs: what every move keeps holds to the end of every run
whose steps meet `ok`. -/
theorem history_invariant (ok : Cluster → Action → Prop) (P : Cluster → History → Prop)
    (kept : ∀ (s : Cluster) (h : History) (a : Action) (v : PeerId) (n : Node) (out : Output),
      P s h → (∀ u, (s.nodes u).Synced) → n.Synced → ok s a → v ∈ m.peers →
      Move m.peers s.network v (s.nodes v) a n out → P (s.update v n out) (h.record v n out))
    {s t : Cluster} {h k : History} {actions : List Action} (synced : ∀ u, (s.nodes u).Synced)
    (start : P s h) (good : Along (Cluster.step m) ok s actions)
    (run : exec (observed (Cluster.step m) (History.recordStep m)) (s, h) actions =
      some (t, k)) : P t k := by
  have both := exec_invariant
    (fun s : Cluster × History => (∀ u, (s.1.nodes u).Synced) ∧ P s.1 s.2)
    ?_ ⟨synced, start⟩ (along_observed good) run
  · exact both.2
  · rintro ⟨s, h⟩ a ⟨t, k⟩ ⟨synced, before⟩ allowed move
    obtain ⟨v, n, out, member, moved, inStep, rfl, rfl⟩ := step_history synced move
    refine ⟨?_, kept s h a v n out before synced inStep allowed member moved⟩
    exact forall_nodes_update (P := fun _ n => n.Synced) inStep (fun u _ => synced u)

theorem step_synced {s t : Cluster} {a : Action} (synced : ∀ u, (s.nodes u).Synced)
    (step : Cluster.step m s a = some t) (u : PeerId) : (t.nodes u).Synced := by
  obtain ⟨v, n, out, found, _, _, rfl⟩ := step_eq_some step
  exact forall_nodes_update (P := fun _ n => n.Synced) (act_synced synced found)
    (fun u _ => synced u) u

theorem initial_synced (u : PeerId) : (Cluster.initial.nodes u).Synced := Node.synced_fresh

end Cluster

end Zdb.Raft
