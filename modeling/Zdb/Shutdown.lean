import Zdb.LiveMajority

/-! The destructor returns. After `kill` it joins the threads for each peer and the
snapshot thread; calls still under way fail, as `kill` has them stopped. None of these
threads can be stuck behind another, and none begins anything again. -/

namespace Zdb.Raft
open LabelledRun

/-- All threads are back at the conditions of their loops, where a killed node leaves
them, and nobody is inside `applyCommittedEntries`. -/
structure Exited (peers : List PeerId) (n : Node) : Prop where
  applying : n.applyThread = none
  queue : n.applyQueue = []
  votes : ∀ p ∈ peers, n.requestVoteThread p = .waiting
  appends : ∀ p ∈ peers, (n.appendEntriesThread p).point = .waiting
  snapshots : n.snapshotThread = .waiting

/-- A step of a thread on its way out: calls fail, and sends time out. -/
def Action.finishes : Action → Bool
  | .requestVoteReply _ _ none | .appendEntriesReply _ _ none _ | .installSnapshotReply _ _ none _
  | .appendEntriesFinish _ _ | .applyEnter _ _ | .applySend _ false | .applyRelock _
  | .snapshotSend _ false | .snapshotRelock _ => true
  | _ => false

structure Finishes (v : PeerId) (s : Cluster) (a : Action) : Prop where
  finishes : a.finishes = true
  actor : a.actor s.network = some v

structure Halting (m : Membership) (v : PeerId) (s : Cluster) : Prop where
  member : v ∈ m.peers
  dead : (s.nodes v).killed = true
  running : (s.nodes v).terminated = false
  synced : ∀ u, (s.nodes u).Synced
  queued : Queued (s.nodes v)

namespace Halting
variable {m : Membership} {s : Cluster} {v : PeerId} {n : Node} {a : Action} {out : Output}

theorem act (halting : Halting m v s) (found : s.act m.peers a = some (v, n, out))
    (finishes : a.finishes = true) (running : n.terminated = false) :
    Reaches (Cluster.step m) (Finishes v) s (s.update v n out) ∧
      Halting m v (s.update v n out) := by
  have step := Cluster.step_of_act found halting.member halting.running
  have stays : a ≠ .restart v := by
    rintro rfl
    exact absurd finishes Bool.false_ne_true
  refine ⟨.single step ⟨finishes, Cluster.act_actor found⟩, halting.member, ?_, ?_,
    Cluster.step_synced halting.synced step, ?_⟩
  all_goals rw [Cluster.update_nodes_self]
  · exact (Cluster.act_killed found halting.dead stays).killed
  · exact running
  · exact halting.queued.step (Cluster.act_move halting.synced found)

theorem applying : Applying m (Finishes v) v (Halting m v) := by
  intro s a n out halting found applies
  have running := halting.running
  cases a with
  | applyEnter u k =>
    obtain ⟨⟨done, _⟩, made, same⟩ := Option.map_eq_some_iff.mp found
    cases same
    exact halting.act found rfl (by rw [Node.applyEnter_control made, running])
  | applySend u ok =>
    obtain ⟨⟨done, _⟩, made, same⟩ := Option.map_eq_some_iff.mp found
    cases same
    cases ok with
    | true => exact absurd applies Bool.false_ne_true
    | false => exact halting.act found rfl (by rw [Node.applySend_control made, running])
  | applyRelock u =>
    obtain ⟨⟨done, _⟩, made, same⟩ := Option.map_eq_some_iff.mp found
    cases same
    exact halting.act found rfl (by rw [Node.applyRelock_control made, running])
  | _ => exact absurd applies Bool.false_ne_true

end Halting

structure Settles (n n' : Node) : Prop where
  applying : n.applyThread = none → n'.applyThread = none
  queue : n.applyQueue = [] → n'.applyQueue = []
  votes : ∀ p, n.requestVoteThread p = .waiting → n'.requestVoteThread p = .waiting
  appends : ∀ p, (n.appendEntriesThread p).point = .waiting →
    (n'.appendEntriesThread p).point = .waiting
  snapshots : n.snapshotThread = .waiting → n'.snapshotThread = .waiting

namespace Settles
variable {n n' n'' : Node} {p : PeerId}

theorem refl (n : Node) : Settles n n := ⟨id, id, fun _ => id, fun _ => id, id⟩

theorem trans (first : Settles n n') (rest : Settles n' n'') : Settles n n'' where
  applying done := rest.applying (first.applying done)
  queue done := rest.queue (first.queue done)
  votes p done := rest.votes p (first.votes p done)
  appends p done := rest.appends p (first.appends p done)
  snapshots done := rest.snapshots (first.snapshots done)

theorem append (n : Node) (p : PeerId) : Settles n ((n.setPoint p .waiting).clearFlags p) := by
  refine ⟨id, id, fun _ => id, fun q done => ?_, id⟩
  by_cases same : q = p
  · simp [Node.clearFlags, Node.setPoint, same]
  · simpa [Node.clearFlags, Node.setPoint, same] using done

theorem vote (n : Node) (p : PeerId) : Settles n
    { n with requestVoteThread := Function.update n.requestVoteThread p .waiting } := by
  refine ⟨id, id, fun q done => ?_, fun _ => id, id⟩
  by_cases same : q = p
  · simp [same]
  · simpa [same] using done

theorem relock {index term : ℕ} (at_ : n.snapshotThread = .sent index term) : ∃ n',
    n.snapshotRelock = some (n', .nothing) ∧ n'.terminated = n.terminated ∧ Settles n n' ∧
      n'.snapshotThread = .waiting := by
  rw [Node.snapshotRelock, at_]
  dsimp only
  split_ifs
  · exact ⟨_, rfl, rfl, ⟨id, id, fun _ => id, fun _ => id, fun _ => rfl⟩, rfl⟩
  · exact ⟨_, rfl, rfl, ⟨id, id, fun _ => id, fun _ => id, fun _ => rfl⟩, rfl⟩

end Settles

namespace Halting
variable {m : Membership} {s : Cluster} {v p : PeerId}

theorem finish_append (halting : Halting m v s) (idle : (s.nodes v).applyThread = none)
    (empty : (s.nodes v).applyQueue = []) (p : PeerId) : ∃ t,
    Reaches (Cluster.step m) (Finishes v) s t ∧ Halting m v t ∧
      Settles (s.nodes v) (t.nodes v) ∧ ((t.nodes v).appendEntriesThread p).point = .waiting := by
  have waits : (((s.nodes v).setPoint p .waiting).clearFlags p).appendEntriesThread p =
      { (s.nodes v).appendEntriesThread p with point := .waiting } := by
    simp [Node.clearFlags, Node.setPoint]
  -- in each case the thread clears its flags and goes back to its loop
  have done : ∀ a, a.finishes = true →
      s.act m.peers a = some (v, ((s.nodes v).setPoint p .waiting).clearFlags p, .nothing) → ∃ t,
        Reaches (Cluster.step m) (Finishes v) s t ∧ Halting m v t ∧
          Settles (s.nodes v) (t.nodes v) ∧
          ((t.nodes v).appendEntriesThread p).point = .waiting := by
    intro a finishes found
    obtain ⟨reaches, still⟩ := halting.act found finishes halting.running
    refine ⟨_, reaches, still, ?_, ?_⟩
    · rw [Cluster.update_nodes_self]
      exact .append _ p
    · rw [Cluster.update_nodes_self, waits]
  cases at_ : ((s.nodes v).appendEntriesThread p).point with
  | waiting => exact ⟨s, .refl s, halting, .refl _, at_⟩
  | installing call arg next =>
    refine done (.installSnapshotReply v p none .grpc) rfl ?_
    simp [Cluster.act, at_, received, Node.installSnapshotReply_killed halting.dead]
  | appending call next =>
    refine done (.appendEntriesReply v p none (0, 0)) rfl ?_
    simp [Cluster.act, at_, received, Node.appendEntriesReply_killed halting.dead]
  | applying =>
    rcases halting.queued p at_ with listed | ⟨point, held⟩
    · simp [empty] at listed
    · simp [idle] at held
  | finishing =>
    refine done (.appendEntriesFinish v p) rfl ?_
    simp [Cluster.act, Node.appendEntriesFinish, at_]

theorem finish_appends (halting : Halting m v s) (idle : (s.nodes v).applyThread = none)
    (empty : (s.nodes v).applyQueue = []) (peers : List PeerId) : ∃ t,
    Reaches (Cluster.step m) (Finishes v) s t ∧ Halting m v t ∧
      Settles (s.nodes v) (t.nodes v) ∧
      ∀ p ∈ peers, ((t.nodes v).appendEntriesThread p).point = .waiting := by
  induction peers with
  | nil => exact ⟨s, .refl s, halting, .refl _, by simp⟩
  | cons p peers ih =>
    obtain ⟨t, first, still, settles, all⟩ := ih
    obtain ⟨u, second, still, settles', own⟩ := still.finish_append (settles.applying idle)
      (settles.queue empty) p
    refine ⟨u, first.trans second, still, settles.trans settles', ?_⟩
    rw [List.forall_mem_cons]
    exact ⟨own, fun q listed => settles'.appends q (all q listed)⟩

theorem finish_vote (halting : Halting m v s) (p : PeerId) : ∃ t,
    Reaches (Cluster.step m) (Finishes v) s t ∧ Halting m v t ∧
      Settles (s.nodes v) (t.nodes v) ∧ (t.nodes v).requestVoteThread p = .waiting := by
  cases at_ : (s.nodes v).requestVoteThread p with
  | waiting => exact ⟨s, .refl s, halting, .refl _, at_⟩
  | calling call =>
    have found : s.act m.peers (.requestVoteReply v p none) = some (v, { s.nodes v with
        requestVoteThread := Function.update (s.nodes v).requestVoteThread p .waiting },
        .nothing) := by
      simp [Cluster.act, at_, received, Node.requestVoteReply, halting.dead]
    obtain ⟨reaches, still⟩ := halting.act found rfl halting.running
    refine ⟨_, reaches, still, ?_, ?_⟩
    · rw [Cluster.update_nodes_self]
      exact .vote _ p
    · rw [Cluster.update_nodes_self]
      simp

theorem finish_votes (halting : Halting m v s) (peers : List PeerId) : ∃ t,
    Reaches (Cluster.step m) (Finishes v) s t ∧ Halting m v t ∧
      Settles (s.nodes v) (t.nodes v) ∧
      ∀ p ∈ peers, (t.nodes v).requestVoteThread p = .waiting := by
  induction peers with
  | nil => exact ⟨s, .refl s, halting, .refl _, by simp⟩
  | cons p peers ih =>
    obtain ⟨t, first, still, settles, all⟩ := ih
    obtain ⟨u, second, still, settles', own⟩ := still.finish_vote p
    refine ⟨u, first.trans second, still, settles.trans settles', ?_⟩
    rw [List.forall_mem_cons]
    exact ⟨own, fun q listed => settles'.votes q (all q listed)⟩

theorem finish_snapshot (halting : Halting m v s) : ∃ t,
    Reaches (Cluster.step m) (Finishes v) s t ∧ Halting m v t ∧
      Settles (s.nodes v) (t.nodes v) ∧ (t.nodes v).snapshotThread = .waiting := by
  cases at_ : (s.nodes v).snapshotThread with
  | waiting => exact ⟨s, .refl s, halting, .refl _, at_⟩
  | sending index term data =>
    have found : s.act m.peers (.snapshotSend v false) =
        some (v, { s.nodes v with snapshotThread := .waiting }, .nothing) := by
      simp [Cluster.act, Node.snapshotSend, at_]
    obtain ⟨reaches, still⟩ := halting.act found rfl halting.running
    refine ⟨_, reaches, still, ?_, ?_⟩
    · rw [Cluster.update_nodes_self]
      exact ⟨id, id, fun _ => id, fun _ => id, fun _ => rfl⟩
    · rw [Cluster.update_nodes_self]
  | sent index term =>
    obtain ⟨n, relocks, same, settles, waits⟩ := Settles.relock at_
    have found : s.act m.peers (.snapshotRelock v) = some (v, n, .nothing) := by
      simp only [Cluster.act, relocks, Option.map_some]
    obtain ⟨reaches, still⟩ := halting.act found rfl (same.trans halting.running)
    refine ⟨_, reaches, still, ?_, ?_⟩
    · rw [Cluster.update_nodes_self]
      exact settles
    · rw [Cluster.update_nodes_self]
      exact waits

theorem exits (halting : Halting m v s) : ∃ t,
    Reaches (Cluster.step m) (Finishes v) s t ∧ Halting m v t ∧ Exited m.peers (t.nodes v) := by
  obtain ⟨t₁, drains, halting₁, -, idle, empty⟩ := applying.drain halting
  obtain ⟨t₂, second, halting₂, settles₂, appends⟩ := halting₁.finish_appends idle empty m.peers
  obtain ⟨t₃, third, halting₃, settles₃, votes⟩ := halting₂.finish_votes m.peers
  obtain ⟨t₄, last, halting₄, settles₄, snapshots⟩ := halting₃.finish_snapshot
  have settles := (settles₂.trans settles₃).trans settles₄
  refine ⟨t₄, (drains.trans second).trans (third.trans last), halting₄, settles.applying idle,
    settles.queue empty, ?_, ?_, snapshots⟩
  · exact fun p hp => settles₄.votes p (votes p hp)
  · exact fun p hp => (settles₃.trans settles₄).appends p (appends p hp)

end Halting

namespace Exited
variable {peers : List PeerId} {s : Cluster} {v : PeerId} {n n' : Node} {a : Action} {out : Output}

theorem settle (exited : Exited peers n) (settles : Settles n n') : Exited peers n' where
  applying := settles.applying exited.applying
  queue := settles.queue exited.queue
  votes p hp := settles.votes p (exited.votes p hp)
  appends p hp := settles.appends p (exited.appends p hp)
  snapshots := settles.snapshots exited.snapshots

theorem act (exited : Exited peers (s.nodes v)) (found : s.act peers a = some (v, n, out))
    (dead : (s.nodes v).killed = true) (stays : a ≠ .restart v) : Exited peers n := by
  cases a with
  | initVote u elapsed =>
    cases found
    rw [Node.initVote]
    split_ifs
    · exact exited
    · exact exited.settle ⟨id, id, fun _ => id, fun _ => id, id⟩
  | heartbeat u =>
    cases found
    rw [Node.heartbeat]
    split_ifs
    · exact exited.settle ⟨id, id, fun _ => id, fun _ => id, id⟩
    · exact exited
  | requestVote u peer =>
    simp only [Cluster.act] at found
    split_ifs at found
    obtain ⟨done, made, same⟩ := Option.map_eq_some_iff.mp found
    cases same
    simp [Node.requestVote, dead] at made
  | requestVoteReply u peer k =>
    simp only [Cluster.act] at found
    split at found
    · contradiction
    · obtain ⟨reply, _, same⟩ := Option.map_eq_some_iff.mp found
      cases same
      simp only [Node.requestVoteReply, dead, true_or, if_true]
      exact exited.settle (.vote _ peer)
  | requestVoteHandler k =>
    obtain ⟨call, _, same⟩ := Option.map_eq_some_iff.mp found
    cases same
    simpa only [Node.requestVoteHandler, dead, if_true] using exited
  | appendEntries u peer =>
    simp only [Cluster.act] at found
    split_ifs at found
    obtain ⟨done, made, same⟩ := Option.map_eq_some_iff.mp found
    cases same
    simp [Node.appendEntries, dead] at made
  | installSnapshotReply u peer k transport =>
    simp only [Cluster.act] at found
    split at found
    · obtain ⟨reply, _, same⟩ := Option.map_eq_some_iff.mp found
      obtain ⟨rfl, made⟩ := Prod.mk.inj same
      rw [Node.installSnapshotReply_killed dead] at made
      cases made
      exact exited.settle (.append _ peer)
    · contradiction
  | appendEntriesReply u peer k unset =>
    simp only [Cluster.act] at found
    split at found
    · obtain ⟨reply, _, same⟩ := Option.map_eq_some_iff.mp found
      cases same
      rw [Node.appendEntriesReply_killed dead]
      exact exited.settle (.append _ peer)
    · contradiction
  | appendEntriesFinish u peer =>
    obtain ⟨done, made, same⟩ := Option.map_eq_some_iff.mp found
    simp only [Node.appendEntriesFinish] at made
    split_ifs at made
    cases made
    cases same
    exact exited.settle (.append _ peer)
  | appendEntriesHandler k =>
    obtain ⟨call, _, same⟩ := Option.map_eq_some_iff.mp found
    simp only at same
    split_ifs at same with apply
    · cases same
      simp [Node.appendEntriesHandler, dead] at apply
    · cases same
      simpa [Node.appendEntriesHandler, dead] using exited
  | installSnapshotHandler k =>
    obtain ⟨call, _, same⟩ := Option.map_eq_some_iff.mp found
    cases same
    simpa only [Node.installSnapshotHandler, dead, Bool.true_or, if_true] using exited
  | applyEnter u k =>
    obtain ⟨done, made, same⟩ := Option.map_eq_some_iff.mp found
    cases same
    simp [Node.applyEnter, exited.applying, exited.queue] at made
  | applySend u ok =>
    obtain ⟨done, made, same⟩ := Option.map_eq_some_iff.mp found
    cases same
    simp [Node.applySend, exited.applying] at made
  | applyRelock u =>
    obtain ⟨done, made, same⟩ := Option.map_eq_some_iff.mp found
    cases same
    simp [Node.applyRelock, exited.applying] at made
  | snapshotTake u =>
    obtain ⟨done, made, same⟩ := Option.map_eq_some_iff.mp found
    cases same
    simp [Node.snapshotTake, dead] at made
  | snapshotSend u ok =>
    obtain ⟨done, made, same⟩ := Option.map_eq_some_iff.mp found
    cases same
    simp [Node.snapshotSend, exited.snapshots] at made
  | snapshotRelock u =>
    obtain ⟨done, made, same⟩ := Option.map_eq_some_iff.mp found
    cases same
    simp [Node.snapshotRelock, exited.snapshots] at made
  | start u command =>
    cases found
    rw [Node.start, if_pos (Or.inl dead)]
    exact exited
  | snapshot u index data =>
    cases found
    rw [Node.snapshot, if_pos (by simp [dead])]
    exact exited
  | kill u =>
    cases found
    exact exited.settle ⟨id, id, fun _ => id, fun _ => id, id⟩
  | restart u =>
    cases found
    exact absurd rfl stays
  | crash rpc k =>
    simp only [Cluster.act] at found
    split at found
    · split_ifs at found with alive
      cases found
      simp [dead] at alive
    · contradiction

end Exited

/-- The threads of a killed node can all end, in any state of any run and by failing calls
and timeouts alone, and whatever the others do afterwards they do not come back before the
node is constructed again. -/
theorem killed_node_winds_down {m : Membership} {actions : List Action} {s : Cluster}
    (run : Cluster.run m actions = some s) {v : PeerId} (member : v ∈ m.peers)
    (dead : (s.nodes v).killed = true) (running : (s.nodes v).terminated = false) : ∃ t,
    Reaches (Cluster.step m) (Finishes v) s t ∧ Exited m.peers (t.nodes v) ∧
      ∀ rest u, exec (Cluster.step m) t rest = some u → .restart v ∉ rest →
        Exited m.peers (u.nodes v) := by
  have queued : Queued (s.nodes v) := by
    have both := exec_invariant_always
      (fun s : Cluster => (∀ u, (s.nodes u).Synced) ∧ ∀ u, Queued (s.nodes u)) ?_
      ⟨Cluster.initial_synced, ?_⟩ run
    · exact both.2 v
    · rintro s a t ⟨synced, queued⟩ step
      refine ⟨Cluster.step_synced synced step, ?_⟩
      obtain ⟨u, n, out, found, _, _, rfl⟩ := Cluster.step_eq_some step
      exact Cluster.forall_nodes_update (P := fun _ n => Queued n)
        ((queued u).step (Cluster.act_move synced found)) fun w _ => queued w
    · intro u p at_
      simp [Cluster.initial, Node.boot, Node.readPersist] at at_
  have halting : Halting m v s := ⟨member, dead, running, Cluster.run_synced run, queued⟩
  obtain ⟨t, reaches, still, exited⟩ := halting.exits
  refine ⟨t, reaches, exited, fun rest u later stays => ?_⟩
  have good : Along (Cluster.step m) (fun _ a => a ≠ .restart v) t rest :=
    along_of_invariant (fun _ => True) (fun a : Action => a ≠ .restart v)
      (fun _ _ _ _ _ _ => trivial) (fun _ _ _ other => other) trivial
      fun a listed same => stays (same ▸ listed)
  refine (exec_invariant (fun u : Cluster => (u.nodes v).killed = true ∧
    Exited m.peers (u.nodes v)) ?_ ⟨still.dead, exited⟩ good later).2
  rintro s a t ⟨dead, exited⟩ stays step
  obtain ⟨w, n, out, found, _, _, rfl⟩ := Cluster.step_eq_some step
  by_cases same : v = w
  · subst same
    rw [Cluster.update_nodes_self]
    exact ⟨(Cluster.act_killed found dead stays).killed, exited.act found dead stays⟩
  · rw [Cluster.update_nodes_ne _ _ _ same]
    exact ⟨dead, exited⟩

theorem killed_node_winds_down_leader : ∃ s t,
    Cluster.run threePeers (winElection "a" "b" 0 ++
      [.start "a" ⟨default, .noOp⟩, .appendEntries "a" "b", .kill "a"]) = some s ∧
    ((s.nodes "a").appendEntriesThread "b").point ≠ .waiting ∧
    Reaches (Cluster.step threePeers) (Finishes "a") s t ∧
    Exited threePeers.peers (t.nodes "a") ∧
    ∀ rest u, exec (Cluster.step threePeers) t rest = some u → .restart "a" ∉ rest →
      Exited threePeers.peers (u.nodes "a") := by
  obtain ⟨s, run, busy, dead, running⟩ : ∃ s,
      Cluster.run threePeers (winElection "a" "b" 0 ++
        [.start "a" ⟨default, .noOp⟩, .appendEntries "a" "b", .kill "a"]) = some s ∧
      ((s.nodes "a").appendEntriesThread "b").point ≠ .waiting ∧
      (s.nodes "a").killed = true ∧ (s.nodes "a").terminated = false := by
    refine ⟨_, (Option.some_get (by decide +kernel)).symm, by decide +kernel, by decide +kernel,
      by decide +kernel⟩
  obtain ⟨t, ended⟩ := killed_node_winds_down run (by decide) dead running
  exact ⟨s, t, run, busy, ended⟩

end Zdb.Raft
