import Zdb.Refinement

/-! What a node has confirmed to the leader of its term stays: AppendEntries of
that term only extend it, and a snapshot that does not take the node back only
covers it. A snapshot that does, accepted because `installSnapshotHandler`
compares neither indices nor terms, throws confirmed entries away. -/

namespace Zdb.Raft
open TermLog LabelledRun LogReplication

/-- The reply is on the network or still with the handler that returns it. -/
def Answered (s : Cluster) (x : Answer AppendEntriesArg AppendEntriesReply) : Prop :=
  x ∈ s.network.appendAnswers ∨ (s.nodes x.call.callee).Waits (.handler x.call x.reply)

theorem Replicated.acked {m : Membership} {s : Cluster} {h : History} {g : Protocol}
    (rep : Replicated m s h g) {x : Answer AppendEntriesArg AppendEntriesReply}
    (answered : Answered s x) (success : x.reply.success = true) : Acked g x.call := by
  rcases answered with sent | waits
  · exact rep.refines.answered x sent success
  · exact (rep.refines.node _).queued x.call x.reply waits success

theorem Move.point_le {peers : List PeerId} {s : Cluster} {v : PeerId} {a : Action} {n' : Node}
    {out : Output} (move : Move peers s.network v (s.nodes v) a n' out)
    (ok : installsForward s a = true) :
    (s.nodes v).lastIncludedIndex ≤ n'.lastIncludedIndex := by
  cases move with
  | install k call control found here current clear success =>
    subst here
    exact (installsForward_install ok found success).le
  | compact index data e control clear above => exact above.le
  | deliverReturn a d caller => cases caller <;> exact le_rfl
  | _ => exact le_rfl

theorem Move.point_le_update {m : Membership} {s : Cluster} {v : PeerId} {a : Action} {n' : Node}
    {out : Output} (move : Move m.peers s.network v (s.nodes v) a n' out)
    (ok : installsForward s a = true) (u : PeerId) :
    (s.nodes u).lastIncludedIndex ≤ ((s.update v n' out).nodes u).lastIncludedIndex := by
  by_cases here : u = v
  · subst here
    rw [Cluster.update_nodes_self]
    exact move.point_le ok
  · rw [Cluster.update_nodes_ne s n' out here]

theorem Replicated.confirmed_kept {m : Membership} {s t : Cluster} {h k : History}
    {g g' : Protocol} (rep : Replicated m s h g) (rep' : Replicated m t k g')
    (past : Later g g') {x : Answer AppendEntriesArg AppendEntriesReply}
    (low : (s.nodes x.call.callee).lastIncludedIndex ≤ (t.nodes x.call.callee).lastIncludedIndex)
    (answered : Answered s x) (success : x.reply.success = true)
    (current : (t.nodes x.call.callee).currentTerm = x.call.arg.term) (i : ℕ)
    (within : i ≤ x.call.arg.prevLogIndex + x.call.arg.entries.entries.length) :
    i ≤ (t.nodes x.call.callee).lastIncludedIndex ∨ ∃ e,
      (s.nodes x.call.callee).mainLog.atIndex i = some e ∧
      (t.nodes x.call.callee).mainLog.atIndex i = some e := by
  have acked := rep.acked answered success i within
  have inv := rep.refines.inv
  have long := inv.acked_length _ _ _ acked
  rw [← rep'.refines.term] at current
  have now : g.term x.call.callee = x.call.arg.term :=
    le_antisymm ((past.term _).trans current.le) (inv.acked_le _ _ _ acked)
  have before := inv.holds_acked (now.symm ▸ acked)
  have after := rep'.refines.inv.holds_acked (current.symm ▸ past.acked _ _ _ acked)
  rw [now] at before
  rw [current, past.grows.take_eq (inv.acked_leader _ _ _ acked) long] at after
  rcases Nat.lt_or_ge (t.nodes x.call.callee).lastIncludedIndex i with above | covered
  · obtain ⟨e, found⟩ : ∃ e, (g.leaderLog x.call.arg.term)[i - 1]? = some e :=
      ⟨_, List.getElem?_eq_getElem (by omega)⟩
    refine Or.inr ⟨e, ?_, ?_⟩
    · rw [(rep.node _).atIndex, if_pos (by omega)]
      exact (getElem?_of_take_initial before (by omega) long).trans found
    · rw [(rep'.node _).atIndex, if_pos above]
      exact (getElem?_of_take_initial after (by omega) long).trans found
  · exact Or.inl covered

/-- Entries up to the end of a request that a node has answered with success are,
as long as the node stays in the term of the request, the same as then or
covered by its snapshot. -/
theorem confirmed_entries_kept {m : Membership} {first rest : List Action} {s t : Cluster}
    (good : Along (Cluster.step m) (fun s a => keepsConfirmed s a = true) Cluster.initial
      (first ++ rest))
    (run : Cluster.run m first = some s) (later : exec (Cluster.step m) s rest = some t)
    {x : Answer AppendEntriesArg AppendEntriesReply} (answered : Answered s x)
    (success : x.reply.success = true)
    (current : (t.nodes x.call.callee).currentTerm = x.call.arg.term) (i : ℕ)
    (within : i ≤ x.call.arg.prevLogIndex + x.call.arg.entries.entries.length) :
    i ≤ (t.nodes x.call.callee).lastIncludedIndex ∨ ∃ e,
      (s.nodes x.call.callee).mainLog.atIndex i = some e ∧
      (t.nodes x.call.callee).mainLog.atIndex i = some e := by
  obtain ⟨h, runH⟩ := Cluster.exists_runHistory run
  obtain ⟨k, laterK⟩ := Cluster.exists_history h later
  obtain ⟨g, rep, -⟩ := Cluster.replicated_invariant _ (fun _ _ ok => ok) (fun _ _ _ => True)
    (by simp) Cluster.initial_synced (Replicated.initial m) trivial good.left runH
  have ended := Cluster.replicated_invariant _ (fun _ _ ok => ok)
    (fun t _ _ => (s.nodes x.call.callee).lastIncludedIndex ≤
      (t.nodes x.call.callee).lastIncludedIndex)
    ?_ (Cluster.run_synced run) rep le_rfl (good.right run) laterK
  · obtain ⟨g', rep', past, low⟩ := ended
    exact rep.confirmed_kept rep' past low answered success current i within
  · intro t _ _ a v n out _ before _ ok _ move _ _
    rw [keepsConfirmed, Bool.and_eq_true] at ok
    exact before.trans (move.point_le_update ok.2 _)

theorem confirmed_entries_kept_restart : ∃ s t x,
    Cluster.run threePeers snapshotThenEntry = some s ∧
    exec (Cluster.step threePeers) s [.restart "c"] = some t ∧
    x ∈ s.network.appendAnswers ∧ x.call.callee = "c" ∧
    (2 ≤ (t.nodes x.call.callee).lastIncludedIndex ∨ ∃ e,
      (s.nodes x.call.callee).mainLog.atIndex 2 = some e ∧
      (t.nodes x.call.callee).mainLog.atIndex 2 = some e) := by
  have good : Along (Cluster.step threePeers) (fun s a => keepsConfirmed s a = true)
      Cluster.initial (snapshotThenEntry ++ [.restart "c"]) := by decide +kernel
  obtain ⟨s, t, x, run, later, sent, callee, success, current, within⟩ : ∃ s t x,
      Cluster.run threePeers snapshotThenEntry = some s ∧
      exec (Cluster.step threePeers) s [.restart "c"] = some t ∧
      s.network.appendAnswers[1]? = some x ∧ x.call.callee = "c" ∧ x.reply.success = true ∧
      (t.nodes x.call.callee).currentTerm = x.call.arg.term ∧
      2 ≤ x.call.arg.prevLogIndex + x.call.arg.entries.entries.length := by
    refine ⟨_, _, _, (Option.some_get (by decide +kernel)).symm,
      (Option.some_get (by decide +kernel)).symm, (Option.some_get (by decide +kernel)).symm,
      by decide +kernel, by decide +kernel, by decide +kernel, by decide +kernel⟩
  have sent := List.mem_of_getElem? sent
  exact ⟨s, t, x, run, later, sent, callee,
    confirmed_entries_kept good run later (Or.inl sent) success current 2 within⟩

/-- The snapshot of entry 1 arrives once more, after `c` has confirmed entry 2 to
the same leader: the term is the same and entry 2 is gone. -/
theorem confirmed_entries_lost : ∃ s t x,
    Cluster.run threePeers snapshotThenEntry = some s ∧
    exec (Cluster.step threePeers) s [.installSnapshotHandler 0] = some t ∧
    Along (Cluster.step threePeers) (fun s a => snapshotsApplied s a = true) Cluster.initial
      (snapshotThenEntry ++ [.installSnapshotHandler 0]) ∧
    s.network.appendAnswers[1]? = some x ∧ x.call.callee = "c" ∧ x.reply.success = true ∧
    (t.nodes "c").currentTerm = x.call.arg.term ∧
    2 ≤ x.call.arg.prevLogIndex + x.call.arg.entries.entries.length ∧
    (s.nodes "c").mainLog.atIndex 2 = some ⟨2, 1, ⟨default, .noOp⟩⟩ ∧
    (t.nodes "c").lastIncludedIndex = 1 ∧ (t.nodes "c").mainLog.atIndex 2 = none := by
  refine ⟨_, _, _, (Option.some_get (by decide +kernel)).symm,
    (Option.some_get (by decide +kernel)).symm, by decide +kernel,
    (Option.some_get (by decide +kernel)).symm, by decide +kernel, by decide +kernel,
    by decide +kernel, by decide +kernel, by decide +kernel, by decide +kernel,
    by decide +kernel⟩

end Zdb.Raft
