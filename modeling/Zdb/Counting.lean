import Mathlib.Data.Multiset.Lattice
import Mathlib.Order.Lattice.Nat
import Zdb.Contiguity

/-! What a leader counts. `matchIndex` of a peer is set from answers of that peer,
but after an InstallSnapshot answer it is set to the snapshot point the leader has
by then, not to the one it sent. -/

namespace Zdb.Raft
open LabelledRun

/-- The indices `p` has confirmed to `v` in term `T`. -/
def Network.confirmations (net : Network) (v p : PeerId) (T : ℕ) : List ℕ :=
  (net.appendAnswers.filter fun x => decide (x.call.caller = v ∧ x.call.callee = p ∧
      x.call.arg.term = T) && x.reply.success).map
    (fun x => x.call.arg.prevLogIndex + x.call.arg.entries.data.length) ++
  (net.installAnswers.filter fun x => decide (x.call.caller = v ∧ x.call.callee = p ∧
      x.call.arg.term = T) && x.reply.success).map (fun x => x.call.arg.lastIncludedIndex)

def Network.confirmed (net : Network) (v p : PeerId) (T : ℕ) : ℕ :=
  (net.confirmations v p T : Multiset ℕ).sup

/-- A leader that takes an InstallSnapshot answer of its term has not compacted
further since it made the call. -/
def countsSent (s : Cluster) : Action → Bool
  | .installSnapshotReply v peer (some _) _ =>
      let n := s.nodes v
      match (n.appendEntriesThread peer).point with
      | .installing call _ _ =>
          !(n.role == .leader && n.currentTerm == call.arg.term) ||
            decide (n.lastIncludedIndex ≤ call.arg.lastIncludedIndex)
      | _ => true
  | _ => true

namespace Network
variable {net : Network} {v p : PeerId} {T : ℕ} {out : Output}

theorem appendAnswers_emit {x : Answer AppendEntriesArg AppendEntriesReply}
    (h : x ∈ net.appendAnswers) : x ∈ (net.emit out).appendAnswers := by
  cases out <;> simp [emit, h]

theorem installAnswers_emit {x : Answer InstallSnapshotArg InstallSnapshotReply}
    (h : x ∈ net.installAnswers) : x ∈ (net.emit out).installAnswers := by
  cases out <;> simp [emit, h]

theorem le_confirmed_append {x : Answer AppendEntriesArg AppendEntriesReply}
    (answered : x ∈ net.appendAnswers) (success : x.reply.success = true) :
    x.call.arg.prevLogIndex + x.call.arg.entries.data.length ≤
      net.confirmed x.call.caller x.call.callee x.call.arg.term := by
  refine Multiset.le_sup (List.mem_append_left _ (List.mem_map.mpr ⟨x, ?_, rfl⟩))
  simp [answered, success]

theorem le_confirmed_install {x : Answer InstallSnapshotArg InstallSnapshotReply}
    (answered : x ∈ net.installAnswers) (success : x.reply.success = true) :
    x.call.arg.lastIncludedIndex ≤
      net.confirmed x.call.caller x.call.callee x.call.arg.term := by
  refine Multiset.le_sup (List.mem_append_right _ (List.mem_map.mpr ⟨x, ?_, rfl⟩))
  simp [answered, success]

theorem confirmations_emit : net.confirmations v p T ⊆ (net.emit out).confirmations v p T := by
  intro i confirmed
  rcases List.mem_append.mp confirmed with stored | installed
  · obtain ⟨x, kept, rfl⟩ := List.mem_map.mp stored
    obtain ⟨answered, success⟩ := List.mem_filter.mp kept
    refine List.mem_append_left _ (List.mem_map.mpr ⟨x, ?_, rfl⟩)
    exact List.mem_filter.mpr ⟨appendAnswers_emit answered, success⟩
  · obtain ⟨x, kept, rfl⟩ := List.mem_map.mp installed
    obtain ⟨answered, success⟩ := List.mem_filter.mp kept
    refine List.mem_append_right _ (List.mem_map.mpr ⟨x, ?_, rfl⟩)
    exact List.mem_filter.mpr ⟨installAnswers_emit answered, success⟩

theorem confirmed_emit : net.confirmed v p T ≤ (net.emit out).confirmed v p T :=
  Multiset.sup_le.mpr fun _ h => Multiset.le_sup (confirmations_emit h)

end Network

section Step
variable {peers : List PeerId} {net : Network} {v : PeerId} {n n' : Node} {a : Action}
  {out : Output}

theorem Move.matchIndex_cases (move : Move peers net v n a n' out) (leads : n'.role = .leader)
    (p : PeerId) : n'.matchIndex p = 0 ∨
      (n.role = .leader ∧ n'.currentTerm = n.currentTerm ∧
        (n'.matchIndex p = n.matchIndex p ∨
          (∃ call next, ∃ x ∈ net.appendAnswers, (n.appendEntriesThread p).point =
            .appending call next ∧ x.call = call ∧ x.reply.success = true ∧
            call.arg.term = n.currentTerm ∧
            n'.matchIndex p = next + call.arg.entries.data.length - 1) ∨
          ∃ k transport call arg next c, a = .installSnapshotReply v p k transport ∧
            (n.appendEntriesThread p).point = .installing call arg next ∧
            call.arg.term = n.currentTerm ∧ out = .appendEntries c ∧
            n'.matchIndex p = n.lastIncludedIndex)) := by
  cases move with
  | adopt => cases leads
  | campaign => cases leads
  | grant => cases leads
  | accept => cases leads
  | elect => exact Or.inl rfl
  | install k call control found here current =>
    replace leads : n.roleIn call.arg.term = .leader := leads
    rcases lt_or_eq_of_le current with later | now
    · rw [Node.roleIn_later later] at leads
      cases leads
    · rw [Node.roleIn_same now.ge] at leads
      exact Or.inr ⟨leads, now.symm, Or.inl rfl⟩
  | installed peer k transport call arg next at_ leads' current =>
    refine Or.inr ⟨leads', rfl, ?_⟩
    by_cases same : p = peer
    · subst same
      exact Or.inr (Or.inr ⟨k, transport, call, arg, next, _, rfl, at_, current, rfl, by simp⟩)
    · exact Or.inl (by simp [same])
  | acknowledged peer k unset call next answer control at_ answered own leads' success current =>
    refine Or.inr ⟨leads', rfl, ?_⟩
    by_cases same : p = peer
    · subst same
      exact Or.inr (Or.inl ⟨call, next, answer, answered, at_, own, success, current, by simp⟩)
    · exact Or.inl (by simp [same])
  | commit peer k unset call next answer i mid at_ answered own leads' success current =>
    refine Or.inr ⟨leads', rfl, ?_⟩
    by_cases same : p = peer
    · subst same
      exact Or.inr (Or.inl ⟨call, next, answer, answered, at_, own, success, current, by simp⟩)
    · exact Or.inl (by simp [same])
  | reboot => cases leads
  | deliverReturn a d caller => cases caller <;> exact Or.inr ⟨leads, rfl, Or.inl rfl⟩
  | _ => exact Or.inr ⟨leads, rfl, Or.inl rfl⟩

end Step

theorem Cluster.act_installed {peers : List PeerId} {s : Cluster} {u v p : PeerId} {k : Option ℕ}
    {transport : Transport} {n : Node} {c : Call AppendEntriesArg} {call : Call InstallSnapshotArg}
    {arg : AppendEntriesArg} {next : ℕ}
    (found : s.act peers (.installSnapshotReply v p k transport) = some (u, n, .appendEntries c))
    (at_ : ((s.nodes v).appendEntriesThread p).point = .installing call arg next) :
    k.isSome = true ∧ ∃ x ∈ s.network.installAnswers, x.call = call ∧ x.reply.success = true := by
  simp only [Cluster.act, at_] at found
  obtain ⟨reply, given, done⟩ := Option.map_eq_some_iff.mp found
  replace done := congrArg (fun x => x.2.2) done
  cases reply with
  | none =>
    simp only [Option.map_none, Node.installSnapshotReply] at done
    split_ifs at done
  | some r =>
    obtain ⟨known, x, answered, own, rfl⟩ := received_some given r rfl
    refine ⟨known, x, answered, own, ?_⟩
    simp only [Option.map_some, Node.installSnapshotReply] at done
    split_ifs at done with _ _ _ success
    cases transport with
    | cgo => exact success
    | grpc => cases success

structure Counted (peers : List PeerId) (net : Network) (v : PeerId) (n : Node) : Prop where
  threads : Replicating peers net v n
  addressed : ∀ p call arg next, (n.appendEntriesThread p).point = .installing call arg next →
    call.callee = p
  known : n.role = .leader → ∀ p, n.matchIndex p ≤ net.confirmed v p n.currentTerm

theorem Counted.step {m : Membership} {s : Cluster} {v : PeerId} {n' : Node} {a : Action}
    {out : Output} (inv : Counted m.peers s.network v (s.nodes v))
    (synced : ∀ u, (s.nodes u).Synced) (ok : countsSent s a = true)
    (found : s.act m.peers a = some (v, n', out)) :
    Counted m.peers (s.network.emit out) v n' := by
  have move := Cluster.act_move synced found
  refine ⟨inv.threads.step move, fun p call arg next at_ => ?_, fun leads p => ?_⟩
  · rcases move.installing_point at_ with old | ⟨callee, _⟩
    · exact inv.addressed p call arg next old
    · exact callee
  · refine le_trans ?_ Network.confirmed_emit
    rcases move.matchIndex_cases leads p with zero | ⟨leads', now, same |
      ⟨call, next, x, answered, at_, rfl, success, current, value⟩ |
      ⟨k, transport, call, arg, next, c, rfl, at_, current, rfl, value⟩⟩
    · rw [zero]
      exact Nat.zero_le _
    · rw [same, now]
      exact inv.known leads' p
    · obtain ⟨_, caller, callee, next_eq⟩ := inv.threads.appending p _ next at_
      have counted := Network.le_confirmed_append answered success
      rw [caller, callee, current] at counted
      rw [value, now, next_eq]
      omega
    · obtain ⟨known, x, answered, rfl, success⟩ := Cluster.act_installed found at_
      obtain ⟨k, rfl⟩ := Option.isSome_iff_exists.mp known
      obtain ⟨_, caller, _⟩ := inv.threads.installing p _ arg next at_
      have counted := Network.le_confirmed_install answered success
      rw [caller, inv.addressed p _ arg next at_, current] at counted
      simp only [countsSent, at_, leads', current, beq_self_eq_true, Bool.and_self, Bool.not_true,
        Bool.false_or, decide_eq_true_eq] at ok
      rw [value, now]
      exact ok.trans counted

theorem Counted.emit {peers : List PeerId} {net : Network} {v : PeerId} {n : Node}
    (inv : Counted peers net v n) (out : Output) : Counted peers (net.emit out) v n :=
  ⟨inv.threads.emit out, inv.addressed,
    fun leads p => (inv.known leads p).trans Network.confirmed_emit⟩

/-- As long as no leader compacts between an InstallSnapshot call and its answer,
`matchIndex` of a peer is at most what the peer has confirmed in this term. -/
theorem matchIndex_le_confirmed {m : Membership} {actions : List Action} {s : Cluster}
    (good : Along (Cluster.step m) (fun s a => countsSent s a = true) Cluster.initial actions)
    (run : Cluster.run m actions = some s) {v : PeerId} (leads : (s.nodes v).role = .leader)
    (p : PeerId) :
    (s.nodes v).matchIndex p ≤ s.network.confirmed v p (s.nodes v).currentTerm := by
  have ended := exec_invariant
    (fun s : Cluster => (∀ u, (s.nodes u).Synced) ∧
      ∀ v, Counted m.peers s.network v (s.nodes v)) ?_ ⟨Cluster.initial_synced, ?_⟩ good run
  · exact (ended.2 v).known leads p
  · rintro s a t ⟨synced, inv⟩ ok step
    obtain ⟨v, n, out, found, _, _, rfl⟩ := Cluster.step_eq_some step
    refine ⟨Cluster.forall_nodes_update (P := fun _ n => n.Synced)
      (Cluster.act_synced synced found) fun u _ => synced u, ?_⟩
    exact Cluster.forall_nodes_update ((inv v).step synced ok found) fun u _ => (inv u).emit out
  · intro v
    refine ⟨(Messaging.initial m).node v, ?_, ?_⟩ <;>
      simp [Cluster.initial, Node.boot, Node.readPersist]

/-- `c` installs and confirms the snapshot of index 1 while `a` commits entry 2 with
`b`. -/
def installMeanwhile : List Action :=
  winElection "a" "b" 0 ++ [.start "a" ⟨default, .noOp⟩] ++ commitOne "a" "b" 0 ++
    [.snapshot "a" 1 [1], .start "a" ⟨default, .noOp⟩, .appendEntries "a" "c",
      .installSnapshotHandler 0, .appendEntries "a" "b", .appendEntriesHandler 1] ++
    applyOne "b" ++ [.appendEntriesReply "a" "b" (some 1) (0, 0)] ++ applyOne "a" ++
    [.appendEntriesFinish "a" "b"]

theorem matchIndex_le_confirmed_installed : ∃ s,
    Along (Cluster.step threePeers) (fun s a => countsSent s a = true) Cluster.initial
      (installMeanwhile ++ [.installSnapshotReply "a" "c" (some 0) .cgo]) ∧
    Cluster.run threePeers
      (installMeanwhile ++ [.installSnapshotReply "a" "c" (some 0) .cgo]) = some s ∧
    (s.nodes "a").role = .leader ∧ (s.nodes "a").matchIndex "c" = 1 ∧
    (s.nodes "a").matchIndex "c" ≤ s.network.confirmed "a" "c" (s.nodes "a").currentTerm := by
  have good : Along (Cluster.step threePeers) (fun s a => countsSent s a = true) Cluster.initial
      (installMeanwhile ++ [.installSnapshotReply "a" "c" (some 0) .cgo]) := by decide +kernel
  obtain ⟨s, run, leads, value⟩ : ∃ s, Cluster.run threePeers
      (installMeanwhile ++ [.installSnapshotReply "a" "c" (some 0) .cgo]) = some s ∧
      (s.nodes "a").role = .leader ∧ (s.nodes "a").matchIndex "c" = 1 := by
    refine ⟨_, (Option.some_get (by decide +kernel)).symm, by decide +kernel, by decide +kernel⟩
  exact ⟨s, good, run, leads, value, matchIndex_le_confirmed good run leads "c"⟩

/-- When `a` compacts entry 2 before it takes the answer, it counts `c` up to
index 2, of which `c` has confirmed the first only. -/
theorem matchIndex_overcounts : ∃ s,
    Cluster.run threePeers (installMeanwhile ++
      [.snapshot "a" 2 [1], .installSnapshotReply "a" "c" (some 0) .cgo]) = some s ∧
    Along (Cluster.step threePeers) (fun s a => snapshotsApplied s a = true) Cluster.initial
      (installMeanwhile ++
        [.snapshot "a" 2 [1], .installSnapshotReply "a" "c" (some 0) .cgo]) ∧
    (s.nodes "a").role = .leader ∧ (s.nodes "a").matchIndex "c" = 2 ∧
    s.network.confirmed "a" "c" (s.nodes "a").currentTerm = 1 := by
  refine ⟨_, (Option.some_get (by decide +kernel)).symm, by decide +kernel, by decide +kernel,
    by decide +kernel, by decide +kernel⟩

end Zdb.Raft
