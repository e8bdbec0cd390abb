import Zdb.Commitment
import Zdb.Delivery
import Zdb.SnapshotFree

/-! Leader completeness and state machine safety in runs without snapshots. What
any node takes to be committed is in the log of every leader from the term of
that node on; and what a node has given to its state machine is the beginning of
its log, up to a point that is committed, so that no two nodes differ. -/

namespace Zdb.Raft
open TermLog LabelledRun LogReplication

section Conditions
variable {m : Membership} {s : Cluster} {a : Action}

theorem SnapshotFree.commits (inv : SnapshotFree m s) (calm : a.isSnapshot = false) :
    commitsSafely s a = true := by
  refine commitsSafely_iff.mpr ⟨inv.keeps a, ?_, ?_⟩
  · cases a with
    | appendEntries v peer =>
      have pos := (inv.threads v).next_pos peer
      have apart : ¬ (s.nodes v).nextIndex peer ≤ 0 := by omega
      simp [sendsStored, (inv.node v).point, apart]
    | _ => rfl
  · cases a with
    | snapshot => cases calm
    | _ => rfl

theorem SnapshotFree.inOrder (inv : SnapshotFree m s) (a : Action) :
    installsInOrder s a = true := by
  cases a with
  | installSnapshotHandler k => simp [installsInOrder, inv.calls]
  | _ => rfl

theorem SnapshotFree.commitSafe {t : Cluster} {h : History} {g : Protocol} {actions : List Action}
    (start : SnapshotFree m s) (rep : Replicated m s h g) (safe : CommitSafe m s g)
    (free : ∀ a ∈ actions, a.isSnapshot = false)
    (run : exec (Cluster.step m) s actions = some t) :
    ∃ k g', Replicated m t k g' ∧ Later g g' ∧ CommitSafe m t g' := by
  obtain ⟨k, runK⟩ := Cluster.exists_history h run
  exact ⟨k, safe.run rep start.synced
    (start.along (fun _ _ inv calm => inv.commits calm) free) runK⟩

end Conditions

/-- Whatever a node has committed, a leader by counting a majority in particular,
is then and later in the log of every leader of the same or a later term. -/
theorem committed_in_later_leaders {m : Membership} {first rest : List Action} {s t : Cluster}
    (free : ∀ a ∈ first ++ rest, a.isSnapshot = false) (run : Cluster.run m first = some s)
    (later : exec (Cluster.step m) s rest = some t) {v u : PeerId} {i : ℕ} (pos : 0 < i)
    (committed : i ≤ (s.nodes v).commitIndex) (leads : (t.nodes u).role = .leader)
    (term : (s.nodes v).currentTerm ≤ (t.nodes u).currentTerm) :
    ∃ e, (s.nodes v).mainLog.atIndex i = some e ∧ (t.nodes u).mainLog.atIndex i = some e := by
  obtain ⟨calm, calm'⟩ := List.forall_mem_append.mp free
  have start := SnapshotFree.initial m
  have inv := start.of_exec calm run
  have inv' := inv.of_exec calm' later
  obtain ⟨h, g, rep, -, safe⟩ := start.commitSafe (Replicated.initial m) (CommitSafe.initial m)
    calm run
  obtain ⟨k, g', rep', past, -⟩ := inv.commitSafe rep safe calm' later
  obtain ⟨long, settled⟩ := (safe.node v).commit.le committed
  obtain ⟨led, log⟩ := rep'.leads leads
  rw [rep.refines.term] at settled
  have held := (settled.mono past rep.refines.inv).prefix_leaderLog rep'.refines.inv term
    (by simp [led])
  rw [log] at held
  obtain ⟨e, found⟩ : ∃ e, (g.log v)[i - 1]? = some e :=
    ⟨_, List.getElem?_eq_getElem (by omega)⟩
  refine ⟨e, ?_, ?_⟩
  · rw [(inv.stored rep v).2, if_pos pos]
    exact found
  · rw [(inv'.stored rep' u).2, if_pos pos]
    exact (getElem?_of_take_initial held (by omega) long).trans found

theorem committed_in_later_leaders_two : ∃ s t,
    Cluster.run threePeers (winElection "a" "b" 0 ++ [.start "a" ⟨default, .noOp⟩] ++
      commitOne "a" "b" 0) = some s ∧
    exec (Cluster.step threePeers) s (winElection "b" "c" 1) = some t ∧
    (s.nodes "a").role = .leader ∧ 1 ≤ (s.nodes "a").commitIndex ∧
    (t.nodes "b").role = .leader ∧
    (s.nodes "a").currentTerm < (t.nodes "b").currentTerm ∧
    ∃ e, (s.nodes "a").mainLog.atIndex 1 = some e ∧ (t.nodes "b").mainLog.atIndex 1 = some e := by
  have free : ∀ a ∈ (winElection "a" "b" 0 ++ [.start "a" ⟨default, .noOp⟩] ++
      commitOne "a" "b" 0) ++ winElection "b" "c" 1, Action.isSnapshot a = false := by decide
  obtain ⟨s, t, run, later, leadsA, committed, leadsB, term⟩ : ∃ s t,
      Cluster.run threePeers (winElection "a" "b" 0 ++ [.start "a" ⟨default, .noOp⟩] ++
        commitOne "a" "b" 0) = some s ∧
      exec (Cluster.step threePeers) s (winElection "b" "c" 1) = some t ∧
      (s.nodes "a").role = .leader ∧ 1 ≤ (s.nodes "a").commitIndex ∧
      (t.nodes "b").role = .leader ∧
      (s.nodes "a").currentTerm < (t.nodes "b").currentTerm := by
    refine ⟨_, _, (Option.some_get (by decide +kernel)).symm,
      (Option.some_get (by decide +kernel)).symm, by decide +kernel, by decide +kernel,
      by decide +kernel, by decide +kernel⟩
  exact ⟨s, t, run, later, leadsA, committed, leadsB, term,
    committed_in_later_leaders free run later (by decide) committed leadsB term.le⟩

theorem InOrder.reached_eq {items : List Item} {last : ℕ} (h : InOrder last items)
    (commands : ∀ item ∈ items, ∃ e, item = .command e) :
    reached last items = last + items.length := by
  induction items generalizing last with
  | nil => rfl
  | cons item rest ih =>
    obtain ⟨e, rfl⟩ := commands item (by simp)
    have next : e.index = last + 1 := h.1
    rw [reached, ih h.2 (fun item hi => commands item (by simp [hi])), Item.index, next,
      List.length_cons]
    omega

structure Delivered (g : Protocol) (v : PeerId) (n : Node) : Prop where
  channel : n.stateMachine <+: (g.log v).map .command
  sending : ∀ caller i c, n.applyThread = some (caller, .sending i c) →
    (g.log v)[i - 1]? = some c

namespace Delivered
variable {m : Membership} {g g' : Protocol} {v : PeerId} {n n' : Node} {a : Action}

theorem reached_eq (given : Delivered g v n) (del : Delivering n) :
    reached 0 n.stateMachine = n.stateMachine.length := by
  rw [del.ordered.reached_eq, Nat.zero_add]
  intro item hi
  obtain ⟨e, _, rfl⟩ := List.mem_map.mp (given.channel.subset hi)
  exact ⟨e, rfl⟩

theorem fixed (given : Delivered g v n) (del : Delivering n) (com : Committing m g v n)
    (clear : n.pendingSnapshot = false) : Fixed m g v n.stateMachine.length := by
  rw [← given.reached_eq del]
  cases at_ : n.applyThread with
  | none =>
    rw [del.idle at_ (by simp [del.snapshotThread_waiting clear])]
    exact com.applied
  | some x =>
    obtain ⟨caller, point⟩ := x
    cases point with
    | sending i c =>
      rw [(del.sending caller i c at_).2.2]
      exact com.applied
    | sent i =>
      rw [(del.sent caller i at_).2]
      exact com.sent caller i at_

theorem step (given : Delivered g v n) (del : Delivering n) (com : Committing m g v n)
    (clear : n.pendingSnapshot = false) (step : Step LogEntry.term (quorums m) g g')
    (inv : Inv LogEntry.term (quorums m) g) : Delivered g' v n where
  channel := by
    have same := ((given.fixed del com clear).step step inv).2
    have taken := List.prefix_iff_eq_take.mp given.channel
    rw [← List.map_take, ← same, List.map_take] at taken
    exact taken ▸ take_initial _ _
  sending caller i c at_ := by
    obtain ⟨rfl, _, _⟩ := del.sending caller i c at_
    have same := ((com.sending caller _ c at_).step step inv).2
    have before := List.getElem?_take_of_succ (l := g.log v) (i := n.lastApplied)
    have after := List.getElem?_take_of_succ (l := g'.log v) (i := n.lastApplied)
    rw [Nat.add_sub_cancel, ← after, same, before]
    exact given.sending caller _ c at_

theorem frame (given : Delivered g v n) (channel : n'.stateMachine = n.stateMachine)
    (thread : n'.applyThread = n.applyThread) : Delivered g v n' := by
  constructor <;> simp only [channel, thread]
  · exact given.channel
  · exact given.sending

theorem idle (given : Delivered g v n) (channel : n'.stateMachine = n.stateMachine)
    (idle : ∀ caller i c, n'.applyThread ≠ some (caller, .sending i c)) : Delivered g v n' where
  channel := channel ▸ given.channel
  sending caller i c at_ := absurd at_ (idle caller i c)

theorem deliver {d : Delivery} {returns : Option ApplyCaller} (given : Delivered g v n)
    (del : Delivering n)
    (stored : ∀ i c, n.mainLog.atIndex i = some c → (g.log v)[i - 1]? = some c)
    (clear : n.pendingSnapshot = false) (delivers : Delivers v n a d returns) :
    Delivered g v { n with toDelivery := d } := by
  have waits := del.snapshotThread_waiting clear
  cases delivers with
  | enterReturn => exact given.idle rfl (by simp)
  | enterSend k caller c free queued behind unset present =>
    refine ⟨given.channel, ?_⟩
    intro caller' i c' at_
    cases at_
    exact stored _ _ present
  | sendOk caller i c at_ =>
    obtain ⟨next, _, here⟩ := del.sending caller i c at_
    have place := given.sending caller i c at_
    rw [given.reached_eq del] at here
    rw [next, Nat.add_sub_cancel, ← here] at place
    refine ⟨?_, by simp⟩
    have grown : ((g.log v).map Item.command).take (n.stateMachine.length + 1) =
        n.stateMachine ++ [.command c] := by
      rw [List.take_add_one, ← List.prefix_iff_eq_take.mp given.channel, List.getElem?_map, place]
      rfl
    exact grown ▸ take_initial _ _
  | sendFail => exact given.idle rfl (by simp)
  | relockReturn => exact given.idle rfl (by simp)
  | relockSend caller i c at_ behind present =>
    refine ⟨given.channel, ?_⟩
    intro caller' i' c' at'
    cases at'
    exact stored _ _ present
  | take at_ pending => simp [clear] at pending
  | handOver index term data at_ => simp [waits] at at_
  | giveUp index term data at_ => simp [waits] at at_
  | installed at_ => simp [waits] at at_
  | overtaken index term at_ => simp [waits] at at_

theorem move {peers : List PeerId} {net : Network} {out : Output} (given : Delivered g v n)
    (del : Delivering n) (r : Represents (g.log v) n') (clear : n.pendingSnapshot = false)
    (move : Move peers net v n a n' out) : Delivered g v n' := by
  cases move with
  | accept k call control d out found here current pending accepts success follows =>
    cases follows <;> exact given.frame rfl rfl
  | reboot => exact ⟨List.nil_prefix, by simp⟩
  | deliver a d delivers =>
    exact given.deliver del (fun _ _ at_ => (r.atIndex_some at_).2.2.1) clear delivers
  | deliverReturn a d caller delivers =>
    have stored : ∀ i c, n.mainLog.atIndex i = some c → (g.log v)[i - 1]? = some c := by
      intro i c at_
      cases caller <;> exact (r.atIndex_some at_).2.2.1
    have moved := given.deliver del stored clear delivers
    cases caller <;> exact moved.frame rfl rfl
  | _ => exact given.frame rfl rfl

end Delivered

structure Serving (m : Membership) (s : Cluster) (g : Protocol) : Prop where
  safe : CommitSafe m s g
  ordered : ∀ v, Delivering (s.nodes v)
  given : ∀ v, Delivered g v (s.nodes v)

theorem Serving.step {m : Membership} {s : Cluster} {h : History} {g g' : Protocol} {v : PeerId}
    {n' : Node} {a : Action} {out : Output} (serving : Serving m s g) (rep : Replicated m s h g)
    (free : SnapshotFree m s) (calm : a.isSnapshot = false) (member : v ∈ m.peers)
    (move : Move m.peers s.network v (s.nodes v) a n' out)
    (step : Step LogEntry.term (quorums m) g g')
    (rep' : Replicated m (s.update v n' out) (h.record v n' out) g') :
    Serving m (s.update v n' out) g' := by
  obtain ⟨safe, ordered, given⟩ := serving
  have kept := fun u => (given u).step (ordered u) (safe.node u) (free.node u).clear step
    rep.refines.inv
  have r := rep'.node v
  rw [Cluster.update_nodes_self] at r
  refine ⟨safe.step rep rep' step (free.commits calm) member move, ?_, ?_⟩
  · exact Cluster.forall_nodes_update (P := fun _ n => Delivering n)
      ((ordered v).step (free.inOrder a) move) fun u _ => ordered u
  · exact Cluster.forall_nodes_update
      ((kept v).move (ordered v) r (free.node v).clear move) fun u _ => kept u

theorem Serving.initial (m : Membership) : Serving m Cluster.initial State.initial where
  safe := CommitSafe.initial m
  ordered _ := Delivering.initial
  given v := by constructor <;> simp [Cluster.initial, Node.boot, Node.readPersist]

/-- What each state machine has been given since boot are the entries 1, 2, 3 and
so on of the log of its node, and of any two state machines one has been given
an initial part of what the other has. -/
theorem state_machines_agree {m : Membership} {actions : List Action} {s : Cluster}
    (free : ∀ a ∈ actions, a.isSnapshot = false) (run : Cluster.run m actions = some s) :
    (∀ v k item, (s.nodes v).stateMachine[k]? = some item →
      ∃ e, item = .command e ∧ (s.nodes v).mainLog.atIndex (k + 1) = some e) ∧
    ∀ u v, (s.nodes u).stateMachine <+: (s.nodes v).stateMachine ∨
      (s.nodes v).stateMachine <+: (s.nodes u).stateMachine := by
  have start := SnapshotFree.initial m
  have inv := start.of_exec free run
  obtain ⟨h, runH⟩ := Cluster.exists_runHistory run
  obtain ⟨g, rep, -, serving⟩ := Cluster.replicated_invariant
    (fun s a => SnapshotFree m s ∧ a.isSnapshot = false) (fun _ a ok => ok.1.keeps a)
    (fun s _ g => Serving m s g)
    (fun _ _ _ _ _ _ _ _ serving rep ok member move step rep' =>
      serving.step rep ok.1 ok.2 member move step rep')
    Cluster.initial_synced (Replicated.initial m) (Serving.initial m)
    (start.along (fun _ _ inv calm => ⟨inv, calm⟩) free) runH
  have taken : ∀ v, (s.nodes v).stateMachine =
      ((g.log v).take (s.nodes v).stateMachine.length).map .command := by
    intro v
    rw [List.map_take]
    exact List.prefix_iff_eq_take.mp (serving.given v).channel
  refine ⟨fun v k item found => ?_, fun u v => ?_⟩
  · obtain ⟨inside, rfl⟩ := List.getElem?_eq_some_iff.mp found
    have here := List.prefix_iff_getElem?.mp (serving.given v).channel k inside
    obtain ⟨e, stored, same⟩ := Option.map_eq_some_iff.mp ((List.getElem?_map).symm.trans here)
    refine ⟨e, same.symm, ?_⟩
    rw [(inv.stored rep v).2, if_pos (by omega), Nat.add_sub_cancel, stored]
  · have fixed := fun w => (serving.given w).fixed (serving.ordered w) (serving.safe.node w)
      (inv.node w).clear
    rw [taken u, taken v]
    rcases (fixed u).2.comparable rep.refines.inv (fixed v).2 with short | long
    · exact Or.inl (short.map _)
    · exact Or.inr (long.map _)

def deliverAhead : List Action :=
  winElection "a" "b" 0 ++ [.start "a" ⟨default, .noOp⟩] ++ commitOne "a" "b" 0 ++
    [.start "a" ⟨default, .size⟩, .appendEntries "a" "b", .appendEntriesHandler 1] ++
    applyOne "b" ++ [.appendEntriesReply "a" "b" (some 1) (0, 0)] ++ applyOne "a"

theorem state_machines_agree_ahead : ∃ s, Cluster.run threePeers deliverAhead = some s ∧
    (s.nodes "a").stateMachine =
      [.command ⟨1, 1, ⟨default, .noOp⟩⟩, .command ⟨2, 1, ⟨default, .size⟩⟩] ∧
    (s.nodes "b").stateMachine = [.command ⟨1, 1, ⟨default, .noOp⟩⟩] ∧
    (∃ e, Item.command ⟨2, 1, ⟨default, .size⟩⟩ = .command e ∧
      (s.nodes "a").mainLog.atIndex 2 = some e) ∧
    ((s.nodes "a").stateMachine <+: (s.nodes "b").stateMachine ∨
      (s.nodes "b").stateMachine <+: (s.nodes "a").stateMachine) := by
  have free : ∀ a ∈ deliverAhead, Action.isSnapshot a = false := by decide
  obtain ⟨s, run, itemsA, itemsB⟩ : ∃ s, Cluster.run threePeers deliverAhead = some s ∧
      (s.nodes "a").stateMachine =
        [.command ⟨1, 1, ⟨default, .noOp⟩⟩, .command ⟨2, 1, ⟨default, .size⟩⟩] ∧
      (s.nodes "b").stateMachine = [.command ⟨1, 1, ⟨default, .noOp⟩⟩] := by
    refine ⟨_, (Option.some_get (by decide +kernel)).symm, by decide +kernel, by decide +kernel⟩
  have both := state_machines_agree free run
  exact ⟨s, run, itemsA, itemsB, both.1 "a" 1 _ (by simp [itemsA]), both.2 "a" "b"⟩

end Zdb.Raft
