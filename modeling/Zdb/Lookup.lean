import Zdb.Contiguity

/-! The two look-ups that `RaftImpl` does not check. The commit scan reads every
entry from the end of the log down to the commit index, and a leader that was
restarted from a snapshot and has not delivered it yet has a commit index below
its first entry. `snapshot` reads the entry at its index. -/

namespace Zdb.Raft
open LabelledRun

/-- A leader that takes a successful answer has committed up to its snapshot point,
or stores an entry of an earlier term, where its scan stops. -/
def scansStored (s : Cluster) : Action → Bool
  | .appendEntriesReply v _ (some k) _ =>
      let n := s.nodes v
      !(n.role == .leader && (s.network.appendAnswers[k]?).any (·.reply.success)) ||
        decide (n.lastIncludedIndex ≤ n.commitIndex) ||
        n.mainLog.entries.any fun e => e.term != n.currentTerm
  | _ => true

def looksUpStored (s : Cluster) (a : Action) : Bool := mergesInPlace s a && scansStored s a

namespace Node
variable {peers : List PeerId} {v : PeerId} {n mid : Node}

theorem commitScan_ne_missing (shape : n.mainLog.Contiguous) (synced : n.Synced)
    (stops : n.lastIncludedIndex ≤ n.commitIndex ∨
      ∃ e ∈ n.mainLog.entries, e.term ≠ n.currentTerm)
    (low : mid.commitIndex = n.commitIndex) (log : mid.mainLog = n.mainLog)
    (term : mid.currentTerm = n.currentTerm) {i : ℕ} (within : i ≤ n.mainLog.lastIndex)
    (seen : ∀ k e, n.mainLog.entries[k]? = some e → i ≤ n.lastIncludedIndex + k →
      e.term = n.currentTerm) : mid.commitScan peers v i ≠ .missing := by
  rw [shape.lastIndex, synced.index] at within
  induction i with
  | zero => simp [commitScan]
  | succ i ih =>
    rw [commitScan, low, log, term, shape.atIndex, synced.index]
    by_cases above : n.commitIndex < i + 1
    · rw [if_pos above]
      by_cases inside : n.lastIncludedIndex < i + 1
      · obtain ⟨e, found⟩ : ∃ e, n.mainLog.entries[i + 1 - n.lastIncludedIndex - 1]? = some e :=
          ⟨_, List.getElem?_eq_getElem (by omega)⟩
        simp only [if_pos inside, found]
        split_ifs with own enough
        · simp
        · refine ih (by omega) fun k x stored reached => ?_
          rcases Nat.eq_or_lt_of_le reached with here | later
          · rw [show i + 1 - n.lastIncludedIndex - 1 = k by omega, stored] at found
            rw [Option.some.inj found, own]
          · exact seen k x stored later
        · simp
      · rcases stops with committed | ⟨e, stored, other⟩
        · omega
        · obtain ⟨k, within', rfl⟩ := List.mem_iff_getElem.mp stored
          exact absurd (seen k _ (List.getElem?_eq_getElem within') (by omega)) other
    · rw [if_neg above]
      simp

theorem appendEntriesReply_terminated {peer : PeerId} {arg : AppendEntriesArg} {next : ℕ}
    {reply : Option AppendEntriesReply} {unset : ℕ × ℕ} (alive : n.terminated = false)
    (gone : (n.appendEntriesReply peers v peer arg next reply unset).terminated = true) :
    n.role = .leader ∧ (∃ r ∈ reply, r.success = true) ∧ ∃ mid : Node,
      mid.commitScan peers v n.mainLog.lastIndex = .missing ∧
      mid.commitIndex = n.commitIndex ∧ mid.mainLog = n.mainLog ∧
      mid.currentTerm = n.currentTerm := by
  unfold Node.appendEntriesReply at gone
  simp only at gone
  split_ifs at gone with stopped
  · exact absurd (alive.symm.trans gone) (by simp)
  simp only [not_or, not_not] at stopped
  cases reply with
  | none => exact absurd (alive.symm.trans gone) (by simp)
  | some r =>
    rcases lt_or_ge n.currentTerm r.term with later | known
    · have followed : (n.setPoint peer .waiting).becameFollower r.term peer =
          (_, true) := if_pos later
      simp only [followed, if_true] at gone
      exact absurd (alive.symm.trans gone) (by simp)
    · simp only [becameFollower_same (n := n.setPoint peer .waiting) known,
        Bool.false_eq_true, if_false] at gone
      split_ifs at gone with stale success
      · exact absurd (alive.symm.trans gone) (by simp)
      · refine ⟨stopped.2, ⟨r, rfl, success⟩, ?_⟩
        split at gone
        · exact absurd (alive.symm.trans gone) (by simp)
        · exact absurd (alive.symm.trans gone) (by simp)
        · rename_i scan
          exact ⟨_, scan, rfl, rfl, rfl⟩
      · exact absurd (alive.symm.trans gone) (by simp)

theorem snapshot_terminated {index : ℕ} {data : Bytes} (alive : n.terminated = false)
    (gone : (n.snapshot index data).terminated = true) : n.lastIncludedIndex < index ∧
      index ≤ n.mainLog.lastIndex ∧ n.mainLog.atIndex index = none := by
  unfold Node.snapshot at gone
  split_ifs at gone with closed before after same
  · simp [alive] at gone
  · simp [alive] at gone
  · simp [alive] at gone
  · simp [persist, alive] at gone
  · split at gone
    · exact ⟨by omega, by omega, by assumption⟩
    · simp [persist, alive] at gone

theorem becameFollower_terminated (T : ℕ) (peerId : PeerId) :
    (n.becameFollower T peerId).1.terminated = n.terminated := by
  rw [becameFollower]
  split_ifs <;> rfl

theorem resume_terminated (caller : ApplyCaller) :
    (n.resume caller).1.terminated = n.terminated := by
  cases caller <;> rfl

theorem applyLoop_terminated (caller : ApplyCaller) :
    (n.applyLoop caller).1.terminated = n.terminated := by
  rw [applyLoop]
  split_ifs
  · exact resume_terminated caller
  · split
    · exact resume_terminated caller
    · rfl

theorem applyEnter_terminated {k : ℕ} {done : Node × Output} (found : n.applyEnter k = some done) :
    done.1.terminated = n.terminated := by
  rw [applyEnter] at found
  split at found
  · cases found
    rw [applyCommittedEntries]
    split_ifs
    · exact resume_terminated _
    · exact applyLoop_terminated _
  · contradiction

theorem applySend_terminated {ok : Bool} {done : Node × Output}
    (found : n.applySend ok = some done) : done.1.terminated = n.terminated := by
  rw [applySend] at found
  split at found
  · split_ifs at found
    · cases found
      rfl
    · cases found
      exact resume_terminated _
  · contradiction

theorem applyRelock_terminated {done : Node × Output} (found : n.applyRelock = some done) :
    done.1.terminated = n.terminated := by
  rw [applyRelock] at found
  split at found
  · cases found
    exact applyLoop_terminated _
  · contradiction

theorem requestVoteHandler_terminated (arg : RequestVoteArg) :
    (n.requestVoteHandler arg).1.terminated = n.terminated := by
  rw [requestVoteHandler]
  split_ifs
  · rfl
  · rfl
  · simp only
    split_ifs <;> exact becameFollower_terminated _ _

theorem appendEntriesHandler_terminated (arg : AppendEntriesArg) :
    (n.appendEntriesHandler arg).1.terminated = n.terminated := by
  rw [appendEntriesHandler]
  split_ifs
  · rfl
  · rfl
  · simp only
    split_ifs
    · exact becameFollower_terminated _ _
    · exact becameFollower_terminated _ _
    · split <;> exact becameFollower_terminated _ _

theorem installSnapshotHandler_terminated (arg : InstallSnapshotArg) :
    (n.installSnapshotHandler arg).1.terminated = n.terminated := by
  rw [installSnapshotHandler]
  split_ifs
  · rfl
  · rfl
  · exact becameFollower_terminated _ _

theorem requestVoteReply_terminated (peer : PeerId) (arg : RequestVoteArg)
    (reply : Option RequestVoteReply) :
    (n.requestVoteReply peers peer arg reply).terminated = n.terminated := by
  simp only [requestVoteReply]
  split_ifs
  · rfl
  · cases reply with
    | none => rfl
    | some r =>
      simp only
      split_ifs <;> exact becameFollower_terminated _ _

theorem installSnapshotReply_terminated (number : ℕ) (peer : PeerId) (snapArg : InstallSnapshotArg)
    (arg : AppendEntriesArg) (next : ℕ) (reply : Option InstallSnapshotReply) :
    (n.installSnapshotReply v number peer snapArg arg next reply).1.terminated = n.terminated := by
  simp only [installSnapshotReply]
  split_ifs
  · rfl
  · cases reply with
    | none => rfl
    | some r =>
      simp only
      split_ifs <;> exact becameFollower_terminated _ _

theorem appendEntries_terminated {number snapNumber : ℕ} {peer : PeerId} {done : Node × Output}
    (found : n.appendEntries v number snapNumber peer = some done) :
    done.1.terminated = n.terminated := by
  simp only [appendEntries] at found
  split_ifs at found
  · cases found
    rfl
  all_goals
    split at found <;> cases found <;> rfl

end Node

theorem received_at {Arg Reply : Type} [DecidableEq Arg] {answers : List (Answer Arg Reply)}
    {call : Call Arg} {k : ℕ} {reply : Option Reply} {r : Reply}
    (given : received answers call (some k) = some reply) (answered : r ∈ reply) :
    ∃ x, answers[k]? = some x ∧ x.reply = r := by
  simp only [received] at given
  split at given
  · rename_i x at_k
    split_ifs at given
    cases given
    cases answered
    exact ⟨x, at_k, rfl⟩
  · contradiction

theorem Cluster.act_alive {peers : List PeerId} {s : Cluster} {a : Action} {v : PeerId} {n : Node}
    {out : Output} (found : s.act peers a = some (v, n, out))
    (alive : (s.nodes v).terminated = false)
    (reply : ∀ u peer k unset, a ≠ .appendEntriesReply u peer k unset)
    (snapshot : ∀ u index data, a ≠ .snapshot u index data) : n.terminated = false := by
  cases a with
  | appendEntriesReply u peer k unset => exact absurd rfl (reply u peer k unset)
  | snapshot u index data => exact absurd rfl (snapshot u index data)
  | initVote u elapsed =>
    cases found
    rw [Node.initVote]
    split_ifs <;> exact alive
  | heartbeat u =>
    cases found
    rw [Node.heartbeat]
    split_ifs <;> exact alive
  | requestVote u peer =>
    simp only [act] at found
    split_ifs at found
    obtain ⟨_, done, h⟩ := Option.map_eq_some_iff.mp found
    cases h
    simp only [Node.requestVote] at done
    split_ifs at done
    cases done
    exact alive
  | requestVoteReply u peer answer =>
    simp only [act] at found
    split at found
    · contradiction
    · obtain ⟨_, _, h⟩ := Option.map_eq_some_iff.mp found
      cases h
      rwa [Node.requestVoteReply_terminated]
  | requestVoteHandler k =>
    obtain ⟨call, _, h⟩ := Option.map_eq_some_iff.mp found
    cases h
    rwa [Node.requestVoteHandler_terminated]
  | appendEntries u peer =>
    simp only [act] at found
    split_ifs at found
    obtain ⟨_, done, h⟩ := Option.map_eq_some_iff.mp found
    cases h
    rwa [Node.appendEntries_terminated done]
  | installSnapshotReply u peer answer transport =>
    simp only [act] at found
    split at found
    · rename_i call arg next _
      obtain ⟨reply, _, h⟩ := Option.map_eq_some_iff.mp found
      obtain ⟨rfl, done⟩ := Prod.mk.inj h
      have kept := (s.nodes u).installSnapshotReply_terminated (v := u)
        s.network.appendCalls.length peer call.arg arg next (reply.map transport.decode)
      rw [done] at kept
      exact kept.trans alive
    · contradiction
  | appendEntriesFinish u peer =>
    obtain ⟨_, done, h⟩ := Option.map_eq_some_iff.mp found
    cases h
    rw [Node.appendEntriesFinish] at done
    split_ifs at done
    cases done
    exact alive
  | appendEntriesHandler k =>
    obtain ⟨call, _, h⟩ := Option.map_eq_some_iff.mp found
    have handled := (s.nodes call.callee).appendEntriesHandler_terminated call.arg
    simp only at h
    split_ifs at h
    · cases h
      exact handled.trans alive
    · cases h
      exact handled.trans alive
  | installSnapshotHandler k =>
    obtain ⟨call, _, h⟩ := Option.map_eq_some_iff.mp found
    cases h
    rwa [Node.installSnapshotHandler_terminated]
  | applyEnter u k =>
    obtain ⟨_, done, h⟩ := Option.map_eq_some_iff.mp found
    cases h
    rwa [Node.applyEnter_terminated done]
  | applySend u ok =>
    obtain ⟨_, done, h⟩ := Option.map_eq_some_iff.mp found
    cases h
    rwa [Node.applySend_terminated done]
  | applyRelock u =>
    obtain ⟨_, done, h⟩ := Option.map_eq_some_iff.mp found
    cases h
    rwa [Node.applyRelock_terminated done]
  | snapshotTake u =>
    obtain ⟨_, done, h⟩ := Option.map_eq_some_iff.mp found
    cases h
    rw [Node.snapshotTake] at done
    split_ifs at done
    cases done
    exact alive
  | snapshotSend u ok =>
    obtain ⟨_, done, h⟩ := Option.map_eq_some_iff.mp found
    cases h
    rw [Node.snapshotSend] at done
    split at done
    · split_ifs at done <;> cases done <;> exact alive
    · contradiction
  | snapshotRelock u =>
    obtain ⟨_, done, h⟩ := Option.map_eq_some_iff.mp found
    cases h
    rw [Node.snapshotRelock] at done
    split at done
    · split_ifs at done <;> cases done <;> exact alive
    · contradiction
  | start u command =>
    cases found
    rw [Node.start]
    split_ifs <;> exact alive
  | kill u =>
    cases found
    exact alive
  | restart u =>
    cases found
    rfl
  | crash rpc k =>
    simp only [act] at found
    split at found
    · split_ifs at found
      cases found
      rfl
    · contradiction

theorem Cluster.act_lookup {peers : List PeerId} {s : Cluster} {a : Action} {v : PeerId} {n : Node}
    {out : Output} (found : s.act peers a = some (v, n, out))
    (alive : (s.nodes v).terminated = false) (shape : (s.nodes v).mainLog.Contiguous)
    (synced : (s.nodes v).Synced) (ok : scansStored s a = true) : n.terminated = false := by
  by_cases reply : ∃ u peer k unset, a = .appendEntriesReply u peer k unset
  · obtain ⟨u, peer, k, unset, rfl⟩ := reply
    simp only [act] at found
    split at found
    · rename_i call next at_
      obtain ⟨answered, given, h⟩ := Option.map_eq_some_iff.mp found
      cases h
      by_contra gone
      obtain ⟨leads, ⟨r, answer, success⟩, mid, missing, low, log, term⟩ :=
        Node.appendEntriesReply_terminated alive (by simpa using gone)
      refine Node.commitScan_ne_missing shape synced ?_ low log term le_rfl ?_ missing
      · cases k with
        | none =>
          cases given
          contradiction
        | some k =>
          obtain ⟨x, at_k, rfl⟩ := received_at given answer
          simp only [scansStored, leads, at_k, Option.any_some, success, beq_self_eq_true,
            Bool.and_self, Bool.not_true, Bool.false_or, Bool.or_eq_true, decide_eq_true_eq,
            List.any_eq_true, bne_iff_ne] at ok
          exact ok
      · intro i e stored reached
        have inside := (List.getElem?_eq_some_iff.mp stored).1
        rw [shape.lastIndex, synced.index] at reached
        omega
    · contradiction
  by_cases taken : ∃ u index data, a = .snapshot u index data
  · obtain ⟨u, index, data, rfl⟩ := taken
    cases found
    by_contra gone
    obtain ⟨above, within, absent⟩ := Node.snapshot_terminated alive (by simpa using gone)
    rw [shape.lastIndex, synced.index] at within
    rw [shape.atIndex, synced.index, if_pos above, List.getElem?_eq_none_iff] at absent
    omega
  · exact Cluster.act_alive found alive (fun u peer k unset h => reply ⟨u, peer, k, unset, h⟩)
      fun u index data h => taken ⟨u, index, data, h⟩

/-- When logs have no gaps and no leader counts answers over an empty log above its
commit index, no unchecked look-up misses. -/
theorem lookups_find_entries {m : Membership} {actions : List Action} {s : Cluster}
    (good : Along (Cluster.step m) (fun s a => looksUpStored s a = true) Cluster.initial actions)
    (run : Cluster.run m actions = some s) (v : PeerId) : (s.nodes v).terminated = false := by
  have ended := exec_invariant
    (fun s : Cluster => (∀ u, (s.nodes u).Synced) ∧ Gapless s ∧
      ∀ u, (s.nodes u).terminated = false) ?_
    ⟨Cluster.initial_synced, Gapless.initial, fun _ => rfl⟩ good run
  · exact ended.2.2 v
  · rintro s a t ⟨synced, gapless, alive⟩ ok step
    obtain ⟨v, n, out, found, _, _, rfl⟩ := Cluster.step_eq_some step
    obtain ⟨merges, scans⟩ := (Bool.and_eq_true _ _).mp ok
    refine ⟨Cluster.forall_nodes_update (P := fun _ n => n.Synced)
      (Cluster.act_synced synced found) fun u _ => synced u,
      gapless.step synced merges (Cluster.act_move synced found), ?_⟩
    exact Cluster.forall_nodes_update (P := fun _ n => n.terminated = false)
      (Cluster.act_lookup found (alive v) (gapless.node v) (synced v) scans) fun u _ => alive u

/-- `a` compacts entry 1, restarts with the snapshot pending and wins again. -/
def restartPending : List Action :=
  winElection "a" "b" 0 ++ [.start "a" ⟨default, .noOp⟩] ++ commitOne "a" "b" 0 ++
    [.snapshot "a" 1 [1], .restart "a"] ++ winElection "a" "b" 1 ++
    [.appendEntries "a" "b", .appendEntriesHandler 1]

theorem lookups_find_entries_installed : ∃ s,
    Along (Cluster.step threePeers) (fun s a => looksUpStored s a = true) Cluster.initial
      (restartPending ++ [.snapshotTake "a", .snapshotSend "a" true, .snapshotRelock "a",
        .appendEntriesReply "a" "b" (some 1) (0, 0)]) ∧
    Cluster.run threePeers (restartPending ++ [.snapshotTake "a", .snapshotSend "a" true,
      .snapshotRelock "a", .appendEntriesReply "a" "b" (some 1) (0, 0)]) = some s ∧
    (s.nodes "a").role = .leader ∧ (s.nodes "a").lastIncludedIndex = 1 ∧
    (s.nodes "a").terminated = false := by
  have good : Along (Cluster.step threePeers) (fun s a => looksUpStored s a = true)
      Cluster.initial (restartPending ++ [.snapshotTake "a", .snapshotSend "a" true,
        .snapshotRelock "a", .appendEntriesReply "a" "b" (some 1) (0, 0)]) := by decide +kernel
  obtain ⟨s, run, leads, point⟩ : ∃ s, Cluster.run threePeers (restartPending ++
      [.snapshotTake "a", .snapshotSend "a" true, .snapshotRelock "a",
        .appendEntriesReply "a" "b" (some 1) (0, 0)]) = some s ∧
      (s.nodes "a").role = .leader ∧ (s.nodes "a").lastIncludedIndex = 1 :=
    ⟨_, (Option.some_get (by decide +kernel)).symm, by decide +kernel, by decide +kernel⟩
  exact ⟨s, good, run, leads, point, lookups_find_entries good run "a"⟩

/-- The first answer the restarted leader gets ends its process: it looks for
entry 1 in an empty log. -/
theorem lookup_misses : ∃ s,
    Cluster.run threePeers (restartPending ++ [.appendEntriesReply "a" "b" (some 1) (0, 0)]) =
      some s ∧
    Along (Cluster.step threePeers) (fun s a => snapshotsApplied s a = true) Cluster.initial
      (restartPending ++ [.appendEntriesReply "a" "b" (some 1) (0, 0)]) ∧
    (s.nodes "a").terminated = true := by
  refine ⟨_, (Option.some_get (by decide +kernel)).symm, by decide +kernel, by decide +kernel⟩

end Zdb.Raft
