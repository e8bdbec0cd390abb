import Zdb.Refinement

/-! Runs in which nobody calls `RaftImpl::snapshot`. No node ever has a snapshot
point, no leader finds a peer behind its first entry, and so no InstallSnapshot
is ever sent; what the earlier results ask of single steps holds throughout. -/

namespace Zdb.Raft
open TermLog LabelledRun LogReplication

def Action.isSnapshot : Action → Bool
  | .snapshot _ _ _ => true
  | _ => false

/-- A node that has neither compacted its log nor set out to send a snapshot. -/
structure Uncompacted (n : Node) : Prop where
  point : n.lastIncludedIndex = 0
  data : n.snapshotData = []
  clear : n.pendingSnapshot = false
  plain : ∀ p, (n.appendEntriesThread p).sendSnapshot = false

structure SnapshotFree (m : Membership) (s : Cluster) : Prop where
  synced : ∀ v, (s.nodes v).Synced
  gapless : Gapless s
  threads : ∀ v, Replicating m.peers s.network v (s.nodes v)
  node : ∀ v, Uncompacted (s.nodes v)
  calls : s.network.installCalls = []

section Step
variable {m : Membership} {s : Cluster} {v : PeerId} {n' : Node} {a : Action} {out : Output}

theorem Move.sendSnapshot_kept {peers : List PeerId} {net : Network} {n : Node}
    (move : Move peers net v n a n' out) (silent : ∀ c, out ≠ .installSnapshot c)
    (plain : ∀ p, (n.appendEntriesThread p).sendSnapshot = false) (p : PeerId) :
    (n'.appendEntriesThread p).sendSnapshot = false := by
  have idle : ∀ t, Idles n.appendEntriesThread t → (t p).sendSnapshot = false := by
    intro t idles
    rcases idles p with same | waits
    · rw [same, plain p]
    · rw [waits]
      exact plain p
  have point : ∀ peer x, (Function.update n.appendEntriesThread peer
      { n.appendEntriesThread peer with point := x } p).sendSnapshot = false := by
    intro peer x
    by_cases same : p = peer
    · subst same
      simpa using plain p
    · simpa [same] using plain p
  cases move with
  | quiet a control t r out idles => exact idle t idles
  | adopt a T control t r out later idles => exact idle t idles
  | sendAppend peer => exact point peer _
  | sendInstall peer t next call => exact absurd rfl (silent call)
  | installed peer =>
    by_cases same : p = peer
    · subst same
      simp
    · simpa [same] using plain p
  | acknowledged peer => exact point peer _
  | commit peer => exact point peer _
  | backUp peer => exact point peer _
  | reboot => rfl
  | deliverReturn a d caller =>
    cases caller with
    | handler => exact plain p
    | leader peer => exact point peer _
  | _ => exact plain p

theorem SnapshotFree.silent (inv : SnapshotFree m s)
    (move : Move m.peers s.network v (s.nodes v) a n' out) (c : Call InstallSnapshotArg) :
    out ≠ .installSnapshot c := by
  intro sent
  obtain ⟨_, _, _, _, _, _, _, flagged | behind⟩ := move.installSnapshot_out sent
  · rw [(inv.node v).plain] at flagged
    contradiction
  · have first := (inv.gapless.node v).firstIndex
    have pos := (inv.threads v).next_pos c.callee
    rw [(inv.synced v).index, (inv.node v).point] at first
    split_ifs at first <;> omega

theorem SnapshotFree.inPlace (inv : SnapshotFree m s) (a : Action) : mergesInPlace s a = true := by
  cases a with
  | appendEntriesHandler k =>
    rw [mergesInPlace]
    cases s.network.appendCalls[k]? with
    | none => rfl
    | some call => simp [(inv.node call.callee).point]
  | _ => rfl

theorem SnapshotFree.keeps (inv : SnapshotFree m s) (a : Action) : keepsConfirmed s a = true := by
  rw [keepsConfirmed, inv.inPlace, Bool.true_and]
  cases a with
  | installSnapshotHandler k => simp [installsForward, inv.calls]
  | _ => rfl

theorem SnapshotFree.node_step (inv : SnapshotFree m s) (calm : a.isSnapshot = false)
    (move : Move m.peers s.network v (s.nodes v) a n' out) : Uncompacted n' := by
  have plain := move.sendSnapshot_kept (inv.silent move) (inv.node v).plain
  obtain ⟨point, data, clear, _⟩ := inv.node v
  cases move with
  | accept k call control d out found here current pending accepts success follows =>
    cases follows <;> exact ⟨point, data, clear, plain⟩
  | install k call control found =>
    rw [inv.calls] at found
    simp at found
  | refresh => cases calm
  | compact => cases calm
  | reboot => exact ⟨point, data, by simp [data], plain⟩
  | deliver a d delivers =>
    cases delivers with
    | installed => exact ⟨point, data, rfl, plain⟩
    | _ => exact ⟨point, data, clear, plain⟩
  | deliverReturn a d caller delivers =>
    cases delivers <;> cases caller <;> exact ⟨point, data, clear, plain⟩
  | _ => exact ⟨point, data, clear, plain⟩

theorem SnapshotFree.step {t : Cluster} (inv : SnapshotFree m s) (calm : a.isSnapshot = false)
    (step : Cluster.step m s a = some t) : SnapshotFree m t := by
  obtain ⟨v, n, out, found, _, _, rfl⟩ := Cluster.step_eq_some step
  have move := Cluster.act_move inv.synced found
  refine ⟨?_, inv.gapless.step inv.synced (inv.inPlace a) move, ?_, ?_, ?_⟩
  · exact Cluster.forall_nodes_update (P := fun _ n => n.Synced)
      (Cluster.act_synced inv.synced found) fun u _ => inv.synced u
  · exact Cluster.forall_nodes_update ((inv.threads v).step move)
      fun u _ => (inv.threads u).emit out
  · exact Cluster.forall_nodes_update (P := fun _ n => Uncompacted n) (inv.node_step calm move)
      fun u _ => inv.node u
  · rw [Cluster.update_network]
    rcases List.eq_nil_or_concat (s.network.emit out).installCalls with none | ⟨front, c, some⟩
    · exact none
    · have sent : c ∈ (s.network.emit out).installCalls := by simp [some]
      rcases Network.mem_installCalls_emit sent with old | new
      · simp [inv.calls] at old
      · exact absurd new (inv.silent move c)

theorem SnapshotFree.initial (m : Membership) : SnapshotFree m Cluster.initial where
  synced := Cluster.initial_synced
  gapless := Gapless.initial
  threads v := (Messaging.initial m).node v
  node v := by constructor <;> simp [Cluster.initial, Node.boot, Node.readPersist]
  calls := rfl

end Step

section Run
variable {m : Membership} {actions : List Action} {s : Cluster}

theorem SnapshotFree.along {ok : Cluster → Action → Prop}
    (enough : ∀ s a, SnapshotFree m s → a.isSnapshot = false → ok s a)
    (start : SnapshotFree m s) (free : ∀ a ∈ actions, a.isSnapshot = false) :
    Along (Cluster.step m) ok s actions :=
  along_of_invariant (SnapshotFree m) (fun a => a.isSnapshot = false)
    (fun _ _ _ inv calm step => inv.step calm step) enough start free

theorem SnapshotFree.of_exec {t : Cluster} (start : SnapshotFree m s)
    (free : ∀ a ∈ actions, a.isSnapshot = false)
    (run : exec (Cluster.step m) s actions = some t) : SnapshotFree m t :=
  exec_invariant (SnapshotFree m) (fun _ _ _ inv calm step => inv.step calm step) start
    (start.along (fun _ _ _ calm => calm) free) run

theorem SnapshotFree.replicated {t : Cluster} {h : History} {g : Protocol}
    (start : SnapshotFree m s) (rep : Replicated m s h g)
    (free : ∀ a ∈ actions, a.isSnapshot = false)
    (run : exec (Cluster.step m) s actions = some t) :
    ∃ k g', Replicated m t k g' ∧ Later g g' := by
  obtain ⟨k, runK⟩ := Cluster.exists_history h run
  obtain ⟨g', rep', later, -⟩ := Cluster.replicated_invariant _ (fun _ _ ok => ok)
    (fun _ _ _ => True) (by simp) start.synced rep trivial
    (start.along (fun _ a inv _ => inv.keeps a) free) runK
  exact ⟨k, g', rep', later⟩

theorem SnapshotFree.stored {h : History} {g : Protocol} (inv : SnapshotFree m s)
    (rep : Replicated m s h g) (v : PeerId) :
    (s.nodes v).mainLog.entries = g.log v ∧
      ∀ i, (s.nodes v).mainLog.atIndex i = if 0 < i then (g.log v)[i - 1]? else none := by
  have r := rep.node v
  refine ⟨?_, fun i => ?_⟩
  · rw [r.entries, (inv.node v).point, List.drop_zero]
  · rw [r.atIndex, (inv.node v).point]

end Run

/-- Logs that hold an entry of the same term at some index are equal up to there,
and the log of a leader only grows at its end while it leads its term. -/
theorem logs_match {m : Membership} {first rest : List Action} {s t : Cluster}
    (free : ∀ a ∈ first ++ rest, a.isSnapshot = false) (run : Cluster.run m first = some s)
    (later : exec (Cluster.step m) s rest = some t) :
    (∀ u v i e f, (s.nodes u).mainLog.atIndex i = some e →
      (s.nodes v).mainLog.atIndex i = some f → e.term = f.term → ∀ j, 0 < j → j ≤ i →
      ∃ x, (s.nodes u).mainLog.atIndex j = some x ∧ (s.nodes v).mainLog.atIndex j = some x) ∧
    (∀ v, (s.nodes v).role = .leader → (t.nodes v).role = .leader →
      (t.nodes v).currentTerm = (s.nodes v).currentTerm →
      (s.nodes v).mainLog.entries <+: (t.nodes v).mainLog.entries) := by
  obtain ⟨calm, calm'⟩ := List.forall_mem_append.mp free
  have start := SnapshotFree.initial m
  have inv := start.of_exec calm run
  obtain ⟨h, g, rep, -⟩ := start.replicated (Replicated.initial m) calm run
  refine ⟨fun u v i e f atU atV same j pos le => ?_, fun v leads leads' now => ?_⟩
  · have chainU := rep.refines.inv.log_chain u
    have chainV := rep.refines.inv.log_chain v
    obtain ⟨_, hu⟩ := inv.stored rep u
    obtain ⟨_, hv⟩ := inv.stored rep v
    rw [hu, if_pos (by omega)] at atU
    rw [hv, if_pos (by omega)] at atV
    have agree := chainU.matching chainV atU atV same le_rfl
    have inside := (List.getElem?_eq_some_iff.mp atU).1
    have here : (g.log u)[j - 1]? = (g.log v)[j - 1]? := by
      rw [← List.getElem?_take_of_lt (show j - 1 < i - 1 + 1 by omega), agree,
        List.getElem?_take_of_lt (by omega)]
    refine ⟨(g.log u).get ⟨j - 1, by omega⟩, ?_, ?_⟩
    · rw [hu, if_pos pos]
      exact List.getElem?_eq_getElem _
    · rw [hv, if_pos pos, ← here]
      exact List.getElem?_eq_getElem _
  · obtain ⟨k, g', rep', past⟩ := inv.replicated rep calm' later
    obtain ⟨led, log⟩ := rep.leads leads
    obtain ⟨_, log'⟩ := rep'.leads leads'
    rw [(inv.stored rep v).1, ((inv.of_exec calm' later).stored rep' v).1, ← log, ← log', now]
    exact (past.grows _ (by rw [led]; simp)).2.2

theorem logs_match_two : ∃ s t,
    Cluster.run threePeers (winElection "a" "b" 0 ++ [.start "a" ⟨default, .noOp⟩,
      .appendEntries "a" "b", .appendEntriesHandler 0]) = some s ∧
    exec (Cluster.step threePeers) s [.start "a" ⟨default, .noOp⟩] = some t ∧
    (∃ x, (s.nodes "a").mainLog.atIndex 1 = some x ∧ (s.nodes "b").mainLog.atIndex 1 = some x) ∧
    (s.nodes "a").mainLog.entries <+: (t.nodes "a").mainLog.entries := by
  have free : ∀ a ∈ (winElection "a" "b" 0 ++ [.start "a" ⟨default, .noOp⟩, .appendEntries "a" "b",
      .appendEntriesHandler 0]) ++ [.start "a" ⟨default, .noOp⟩],
      Action.isSnapshot a = false := by decide
  obtain ⟨s, t, run, later, atA, atB, leads, leads', now⟩ : ∃ s t,
      Cluster.run threePeers (winElection "a" "b" 0 ++ [.start "a" ⟨default, .noOp⟩,
        .appendEntries "a" "b", .appendEntriesHandler 0]) = some s ∧
      exec (Cluster.step threePeers) s [.start "a" ⟨default, .noOp⟩] = some t ∧
      (s.nodes "a").mainLog.atIndex 1 = some ⟨1, 1, ⟨default, .noOp⟩⟩ ∧
      (s.nodes "b").mainLog.atIndex 1 = some ⟨1, 1, ⟨default, .noOp⟩⟩ ∧
      (s.nodes "a").role = .leader ∧ (t.nodes "a").role = .leader ∧
      (t.nodes "a").currentTerm = (s.nodes "a").currentTerm := by
    refine ⟨_, _, (Option.some_get (by decide +kernel)).symm,
      (Option.some_get (by decide +kernel)).symm, by decide +kernel, by decide +kernel,
      by decide +kernel, by decide +kernel, by decide +kernel⟩
  have both := logs_match free run later
  exact ⟨s, t, run, later, both.1 "a" "b" 1 _ _ atA atB rfl 1 (by decide) le_rfl,
    both.2 "a" leads leads' now⟩

end Zdb.Raft
