import Zdb.Refinement

/-! Commit indices. A leader commits what a majority has confirmed; everybody
else learns how far the leader has committed from a request that ends at or
after that point, or from a snapshot of applied entries. So every commit index
stands for a prefix that some leader has committed, as long as no leader whose
log is fully compacted sends to a peer behind its snapshot point: such a request
is empty and says nothing about the entries below the commit index it carries. -/

namespace Zdb.Raft
open TermLog LabelledRun LogReplication

/-- A leader sends from positions it stores, or from right after its snapshot
point. -/
def sendsStored (s : Cluster) : Action → Bool
  | .appendEntries v peer =>
      !((s.nodes v).mainLog.entries.isEmpty &&
        decide ((s.nodes v).nextIndex peer ≤ (s.nodes v).lastIncludedIndex))
  | _ => true

/-- The conditions under which commit indices can be trusted. -/
def commitsSafely (s : Cluster) (a : Action) : Bool :=
  keepsConfirmed s a && sendsStored s a && snapshotsApplied s a

theorem commitsSafely_iff {s : Cluster} {a : Action} : commitsSafely s a = true ↔
    keepsConfirmed s a = true ∧ sendsStored s a = true ∧ snapshotsApplied s a = true := by
  simp [commitsSafely, and_assoc]

/-- The first `k` entries of `v` are committed. -/
def Fixed (m : Membership) (g : Protocol) (v : PeerId) (k : ℕ) : Prop :=
  k ≤ (g.log v).length ∧ Settled LogEntry.term (quorums m) g (g.term v) ((g.log v).take k)

/-- The first `k` entries of the leader of term `T` are committed. -/
def Certified (m : Membership) (g : Protocol) (T k : ℕ) : Prop :=
  g.leader T ≠ none ∧ k ≤ (g.leaderLog T).length ∧
    Settled LogEntry.term (quorums m) g T ((g.leaderLog T).take k)

section Fixed
variable {m : Membership} {g g' : Protocol} {v : PeerId} {j k T : ℕ}

theorem Fixed.zero : Fixed m g v 0 := ⟨Nat.zero_le _, by rw [List.take_zero]; exact .nil _⟩

theorem Fixed.le (fixed : Fixed m g v k) (le : j ≤ k) : Fixed m g v j :=
  ⟨le.trans fixed.1, fixed.2.initial (List.take_prefix_take_left le)⟩

theorem Fixed.step (fixed : Fixed m g v k) (step : Step LogEntry.term (quorums m) g g')
    (inv : Inv LogEntry.term (quorums m) g) :
    Fixed m g' v k ∧ (g'.log v).take k = (g.log v).take k := by
  have held := fixed.2.kept step inv (take_initial k (g.log v))
  have len : ((g.log v).take k).length = k := List.length_take_of_le fixed.1
  have same : (g'.log v).take k = (g.log v).take k := by
    rw [List.prefix_iff_eq_take.mp held, len]
  refine ⟨⟨?_, ?_⟩, same⟩
  · exact len.ge.trans held.length_le
  · rw [same]
    exact (fixed.2.mono (step.later inv) inv).of_le (step.term_le v)

theorem Certified.later (cert : Certified m g T k) (later : Later g g')
    (inv : Inv LogEntry.term (quorums m) g) : Certified m g' T k := by
  obtain ⟨led, long, settled⟩ := cert
  refine ⟨later.grows.leader_ne led, long.trans (later.grows T led).2.2.length_le, ?_⟩
  rw [later.grows.take_eq led long]
  exact settled.mono later inv

theorem Certified.fixed (cert : Certified m g T k) (now : g.term v = T)
    (agree : (g.leaderLog T).take k <+: g.log v) : Fixed m g v k := by
  obtain ⟨_, long, settled⟩ := cert
  have len : ((g.leaderLog T).take k).length = k := List.length_take_of_le long
  have same := List.prefix_iff_eq_take.mp agree
  rw [len] at same
  refine ⟨len.ge.trans agree.length_le, ?_⟩
  rw [← same, now]
  exact settled

end Fixed

structure Committing (m : Membership) (g : Protocol) (v : PeerId) (n : Node) : Prop where
  commit : Fixed m g v n.commitIndex
  applied : Fixed m g v n.lastApplied
  point : Fixed m g v n.lastIncludedIndex
  sending : ∀ caller i c, n.applyThread = some (caller, .sending i c) → Fixed m g v i
  sent : ∀ caller i, n.applyThread = some (caller, .sent i) → Fixed m g v i
  matched : n.role = .leader → ∀ p i, n.lastIncludedIndex < i → i ≤ n.matchIndex p →
    g.acked p n.currentTerm i

structure CommitSafe (m : Membership) (s : Cluster) (g : Protocol) : Prop where
  node : ∀ v, Committing m g v (s.nodes v)
  append : ∀ arg, Prepared s arg →
    arg.leaderCommit ≤ arg.prevLogIndex + arg.entries.entries.length ∧
      Certified m g arg.term arg.leaderCommit
  install : ∀ c ∈ s.network.installCalls, Certified m g c.arg.term c.arg.lastIncludedIndex

namespace Committing
variable {m : Membership} {g g' : Protocol} {v : PeerId} {n n' : Node} {a : Action}

theorem step (com : Committing m g v n) (step : Step LogEntry.term (quorums m) g g')
    (inv : Inv LogEntry.term (quorums m) g) : Committing m g' v n where
  commit := (com.commit.step step inv).1
  applied := (com.applied.step step inv).1
  point := (com.point.step step inv).1
  sending caller i c at_ := ((com.sending caller i c at_).step step inv).1
  sent caller i at_ := ((com.sent caller i at_).step step inv).1
  matched leads p i low high := step.acked_mono (com.matched leads p i low high)

theorem frame (com : Committing m g v n) (commit : n'.commitIndex = n.commitIndex)
    (applied : n'.lastApplied = n.lastApplied)
    (point : n'.lastIncludedIndex = n.lastIncludedIndex)
    (thread : n'.applyThread = n.applyThread)
    (lead : n'.role = .leader → ∀ p i, n.lastIncludedIndex < i → i ≤ n'.matchIndex p →
      g.acked p n'.currentTerm i) : Committing m g v n' := by
  constructor <;> simp only [commit, applied, point, thread]
  · exact com.commit
  · exact com.applied
  · exact com.point
  · exact com.sending
  · exact com.sent
  · exact lead

theorem deliver {d : Delivery} {returns : Option ApplyCaller} (com : Committing m g v n)
    (delivers : Delivers v n a d returns) : Committing m g v { n with toDelivery := d } := by
  cases delivers with
  | enterReturn k caller free =>
    exact com.frame rfl rfl rfl free.symm com.matched
  | enterSend k caller c free queued behind =>
    refine ⟨com.commit, com.applied, com.point, ?_, by simp, com.matched⟩
    intro caller' i c' at_
    cases at_
    exact com.commit.le behind
  | sendOk caller i c at_ =>
    refine ⟨com.commit, com.applied, com.point, by simp, ?_, com.matched⟩
    intro caller' i' at'
    cases at'
    exact com.sending caller i c at_
  | sendFail => exact ⟨com.commit, com.applied, com.point, by simp, by simp, com.matched⟩
  | relockReturn caller i at_ =>
    exact ⟨com.commit, com.sent caller i at_, com.point, by simp, by simp, com.matched⟩
  | relockSend caller i c at_ behind =>
    refine ⟨com.commit, com.sent caller i at_, com.point, ?_, by simp, com.matched⟩
    intro caller' i' c' at'
    cases at'
    exact com.commit.le behind
  | installed => exact ⟨com.point, com.point, com.point, com.sending, com.sent, com.matched⟩
  | _ => exact com.frame rfl rfl rfl rfl com.matched

theorem matched_update (com : Committing m g v n) (leads : n.role = .leader) {peer : PeerId}
    {x : ℕ} (known : ∀ i, n.lastIncludedIndex < i → i ≤ x → g.acked peer n.currentTerm i)
    (p : PeerId) (i : ℕ) (low : n.lastIncludedIndex < i)
    (high : i ≤ Function.update n.matchIndex peer x p) : g.acked p n.currentTerm i := by
  by_cases same : p = peer
  · subst same
    rw [Function.update_self] at high
    exact known i low high
  · rw [Function.update_of_ne same] at high
    exact com.matched leads p i low high

end Committing

theorem Node.commitScan_commit {peers : List PeerId} {v : PeerId} {n : Node} {k i : ℕ}
    (scan : n.commitScan peers v k = .commit i) :
    majority peers ≤ n.matchCount peers v i ∧
      ∃ e, n.mainLog.atIndex i = some e ∧ e.term = n.currentTerm := by
  induction k with
  | zero => simp [Node.commitScan] at scan
  | succ k ih =>
    rw [Node.commitScan] at scan
    cases found : n.mainLog.atIndex (k + 1) with
    | none =>
      simp only [found] at scan
      split_ifs at scan
    | some e =>
      simp only [found] at scan
      split_ifs at scan with _ own many
      · cases scan
        exact ⟨many, e, found, own⟩
      · exact ih scan

theorem matchCount_quorum {m : Membership} {v : PeerId} (member : v ∈ m.peers) {n : Node} {i : ℕ}
    (many : majority m.peers ≤ n.matchCount m.peers v i) {P : PeerId → Prop} (self : P v)
    (others : ∀ p, i ≤ n.matchIndex p → P p) : (quorums m).IsQuorum {p | P p} := by
  have distinct : ((otherPeers m.peers v).filter fun p => decide (i ≤ n.matchIndex p)).Nodup :=
    (List.nodup_dedup _).filter _
  refine ⟨insert v ((otherPeers m.peers v).filter fun p => decide (i ≤ n.matchIndex p)).toFinset,
    ?_, ?_, ?_⟩
  · intro p hp
    simp only [Finset.mem_insert, List.mem_toFinset, List.mem_filter] at hp ⊢
    rcases hp with rfl | hp
    · exact member
    · exact (mem_otherPeers.mp hp.1).1
  · rw [Finset.card_insert_of_notMem, List.toFinset_card_of_nodup distinct]
    · rw [Node.matchCount, List.countP_eq_length_filter] at many
      omega
    · simp [mem_otherPeers]
  · intro p hp
    simp only [Finset.mem_insert, List.mem_toFinset, List.mem_filter, decide_eq_true_eq] at hp
    rcases hp with rfl | hp
    · exact self
    · exact others p hp.2

namespace Replicated
variable {m : Membership} {s : Cluster} {h : History} {g : Protocol} {v : PeerId}

theorem known (rep : Replicated m s h g) {peer : PeerId} {call : Call AppendEntriesArg} {next : ℕ}
    {answer : Answer AppendEntriesArg AppendEntriesReply}
    (at_ : ((s.nodes v).appendEntriesThread peer).point = .appending call next)
    (answered : answer ∈ s.network.appendAnswers) (own : answer.call = call)
    (success : answer.reply.success = true)
    (current : call.arg.term = (s.nodes v).currentTerm) {i : ℕ}
    (high : i ≤ next + call.arg.entries.data.length - 1) :
    g.acked peer (s.nodes v).currentTerm i := by
  obtain ⟨_, _, callee, rfl⟩ := (rep.msgs.node v).appending peer call next at_
  have acked := rep.refines.answered answer answered success
  rw [own] at acked
  rw [← callee, ← current]
  exact acked i (by simp only [Log.data] at high; omega)

theorem certified (rep : Replicated m s h g) (member : v ∈ m.peers) {n : Node}
    (here : s.nodes v = n) (leads : n.role = .leader) {i : ℕ} {e : LogEntry}
    (stored : n.mainLog.atIndex i = some e) (own : e.term = n.currentTerm)
    (many : majority m.peers ≤ n.matchCount m.peers v i)
    (matched : ∀ p, i ≤ n.matchIndex p → g.acked p n.currentTerm i) :
    Certified m g n.currentTerm i := by
  subst here
  obtain ⟨led, log⟩ := rep.leads leads
  obtain ⟨_, inside, _, term⟩ := (rep.node v).atIndex_some stored
  have mine := (rep.refines.node v).leader leads i inside
  have committed : Committed LogEntry.term (quorums m) g (s.nodes v).currentTerm i := by
    refine ⟨by simp [led], ?_, _, matchCount_quorum member many mine matched, fun p hp => hp⟩
    rw [log, ← own, term]
  exact ⟨by simp [led], by rwa [log], committed.settled⟩

end Replicated

section Step
variable {m : Membership} {s : Cluster} {h : History} {g g' : Protocol} {v : PeerId} {n' : Node}
  {a : Action} {out : Output}

theorem CommitSafe.agrees (safe : CommitSafe m s g) (inv : Inv LogEntry.term (quorums m) g)
    (inv' : Inv LogEntry.term (quorums m) g') (step : Step LogEntry.term (quorums m) g g')
    {call : Call AppendEntriesArg} (sent : call ∈ s.network.appendCalls) (acked : Acked g' call)
    (now : g'.term call.callee = call.arg.term) :
    Certified m g' call.arg.term call.arg.leaderCommit ∧
      (g'.leaderLog call.arg.term).take call.arg.leaderCommit <+: g'.log call.callee := by
  obtain ⟨below, cert⟩ := safe.append _ (Or.inl ⟨call, sent, rfl⟩)
  have held := acked call.arg.leaderCommit below
  rw [← now] at held
  refine ⟨cert.later (step.later inv) inv, ?_⟩
  rw [← now]
  exact inv'.holds_acked held

theorem CommitSafe.node_step (safe : CommitSafe m s g) (rep : Replicated m s h g)
    (rep' : Replicated m (s.update v n' out) (h.record v n' out) g')
    (step : Step LogEntry.term (quorums m) g g') (ok : commitsSafely s a = true)
    (member : v ∈ m.peers) (move : Move m.peers s.network v (s.nodes v) a n' out) :
    Committing m g' v n' := by
  have inv := rep.refines.inv
  have com := (safe.node v).step step inv
  have r := rep'.node v
  have now := rep'.refines.term v
  rw [Cluster.update_nodes_self] at r now
  cases move with
  | adopt => exact com.frame rfl rfl rfl rfl (by simp)
  | campaign => exact com.frame rfl rfl rfl rfl (by simp)
  | elect =>
    refine com.frame rfl rfl rfl rfl fun _ p i low high => ?_
    replace high : i ≤ 0 := high
    omega
  | grant => exact com.frame rfl rfl rfl rfl (by simp)
  | accept k call control d out found here current clear accepts success follows =>
    subst here
    cases follows with
    | stay => exact com.frame rfl rfl rfl rfl (by simp)
    | raise high =>
      have waits := rep'.refines.node call.callee
      rw [Cluster.update_nodes_self] at waits
      have acked := waits.queued call _
        (Or.inl (List.mem_append_right _ (List.mem_singleton_self _))) rfl
      have agrees := safe.agrees inv rep'.refines.inv step (List.mem_of_getElem? found) acked now
      refine ⟨?_, com.applied, com.point, com.sending, com.sent, by simp⟩
      exact (agrees.1.fixed now agrees.2).le (min_le_left _ _)
  | install k call control found here current clear success =>
    subst here
    have sent := List.mem_of_getElem? found
    obtain ⟨_, other, led⟩ := rep.msgs.install call sent
    have cert := safe.install call sent
    have later := step.later inv
    have held : (g'.leaderLog call.arg.term).take call.arg.lastIncludedIndex <+:
        g'.log call.callee := by
      rw [later.grows.take_eq cert.1 cert.2.1, rep.refines.led, rep'.refines.log,
        History.record_log_self]
      exact List.prefix_append _ _
    exact ⟨com.commit, com.applied, (cert.later later inv).fixed now held, com.sending, com.sent,
      fun leads => absurd leads (rep.votes.roleIn_ne_leader led other current)⟩
  | installed peer k transport call arg next at_ leads current =>
    refine com.frame rfl rfl rfl rfl fun _ => com.matched_update leads ?_
    intro i low high
    omega
  | acknowledged peer k unset call next answer control at_ answered own leads success current =>
    exact com.frame rfl rfl rfl rfl fun _ => com.matched_update leads fun i _ high =>
      step.acked_mono (rep.known at_ answered own success current high)
  | commit peer k unset call next answer i mid at_ answered own leads success current scan low log
      term known =>
    have matched := com.matched_update leads fun i _ high =>
      step.acked_mono (rep.known at_ answered own success current high)
    obtain ⟨many, e, stored, mine⟩ := Node.commitScan_commit scan
    rw [log] at stored
    rw [term] at mine
    rw [Node.matchCount, known] at many
    have above := (r.atIndex_some stored).1
    have cert := rep'.certified member (Cluster.update_nodes_self s v _ _) leads stored mine many
      fun p high => matched p i above high
    have held : (g'.leaderLog (s.nodes v).currentTerm).take i <+: g'.log v := by
      have led := (rep'.leads (by rw [Cluster.update_nodes_self]; exact leads)).2
      rw [Cluster.update_nodes_self] at led
      exact led ▸ take_initial i _
    exact ⟨cert.fixed now held, com.applied, com.point, com.sending, com.sent, fun _ => matched⟩
  | compact index data e control clear above within present =>
    have applied : index ≤ (s.nodes v).lastApplied := by
      simpa [snapshotsApplied] using (commitsSafely_iff.mp ok).2.2
    exact ⟨com.commit, com.applied, com.applied.le applied, com.sending, com.sent,
      fun leads p i low => com.matched leads p i (above.trans low)⟩
  | reboot => exact ⟨Fixed.zero, Fixed.zero, com.point, by simp, by simp, by simp⟩
  | deliver a d delivers => exact com.deliver delivers
  | deliverReturn a d caller delivers =>
    have moved := com.deliver delivers
    cases caller <;> exact moved.frame rfl rfl rfl rfl moved.matched
  | _ => exact com.frame rfl rfl rfl rfl com.matched

theorem CommitSafe.built (safe : CommitSafe m s g) (rep : Replicated m s h g) {peer : PeerId}
    {arg : AppendEntriesArg} (builds : Builds v (s.nodes v) a peer arg)
    (ok : sendsStored s a = true) :
    arg.leaderCommit ≤ arg.prevLogIndex + arg.entries.entries.length ∧
      Certified m g arg.term arg.leaderCommit := by
  have plain : ¬ (s.nodes v).compactedPast peer := by
    rw [builds.label] at ok
    rintro ⟨empty, behind⟩
    simp [sendsStored, empty, behind] at ok
  obtain ⟨truthful, _⟩ := builds.truthful (rep.logs.node v) (rep.logs.next v peer builds.leads)
    ((rep.msgs.node v).next_pos peer) plain
  obtain ⟨long, settled⟩ := (safe.node v).commit
  obtain ⟨led, log⟩ := rep.leads builds.leads
  have term := rep.refines.term v
  obtain ⟨_, t, _, rfl, _⟩ := builds.built
  refine ⟨?_, by simp [Node.argFor, led], ?_, ?_⟩
  · rw [truthful.entries, List.length_drop, ← rep.refines.log]
    have := truthful.within
    rw [← rep.refines.log] at this
    simp only [Node.argFor] at this ⊢
    omega
  · simpa only [Node.argFor, log] using long
  · simpa only [Node.argFor, log, term] using settled

theorem CommitSafe.step (safe : CommitSafe m s g) (rep : Replicated m s h g)
    (rep' : Replicated m (s.update v n' out) (h.record v n' out) g')
    (step : Step LogEntry.term (quorums m) g g') (ok : commitsSafely s a = true)
    (member : v ∈ m.peers) (move : Move m.peers s.network v (s.nodes v) a n' out) :
    CommitSafe m (s.update v n' out) g' := by
  have inv := rep.refines.inv
  have later := step.later inv
  refine ⟨?_, ?_, ?_⟩
  · exact Cluster.forall_nodes_update (safe.node_step rep rep' step ok member move)
      fun u _ => (safe.node u).step step inv
  · intro arg ready
    rcases ready.of_update move with old | ⟨peer, builds⟩
    · exact ⟨(safe.append arg old).1, (safe.append arg old).2.later later inv⟩
    · have made := safe.built rep builds (commitsSafely_iff.mp ok).2.1
      exact ⟨made.1, made.2.later later inv⟩
  · intro c sent
    rcases Network.mem_installCalls_emit sent with old | new
    · exact (safe.install c old).later later inv
    · obtain ⟨_, _, leads, _, term, index, _⟩ := move.installSnapshot_out new
      obtain ⟨long, settled⟩ := (safe.node v).point
      obtain ⟨led, log⟩ := rep.leads leads
      rw [rep.refines.term, ← log] at settled
      rw [← log] at long
      rw [term, index]
      exact Certified.later ⟨by simp [led], long, settled⟩ later inv

theorem CommitSafe.initial (m : Membership) : CommitSafe m Cluster.initial State.initial := by
  refine ⟨fun v => ?_, ?_, by simp [Cluster.initial]⟩
  · refine ⟨Fixed.zero, Fixed.zero, Fixed.zero, ?_, ?_, ?_⟩ <;>
      simp [Cluster.initial, Node.boot, Node.readPersist]
  · rintro arg (⟨c, sent, _⟩ | ⟨v, p, call, next, at_⟩)
    · simp [Cluster.initial] at sent
    · simp [Cluster.initial, Node.boot, Node.readPersist] at at_

end Step

theorem CommitSafe.run {m : Membership} {s t : Cluster} {h k : History} {g : Protocol}
    {actions : List Action} (safe : CommitSafe m s g) (rep : Replicated m s h g)
    (synced : ∀ u, (s.nodes u).Synced)
    (good : Along (Cluster.step m) (fun s a => commitsSafely s a = true) s actions)
    (run : exec (observed (Cluster.step m) (History.recordStep m)) (s, h) actions =
      some (t, k)) : ∃ g', Replicated m t k g' ∧ Later g g' ∧ CommitSafe m t g' :=
  Cluster.replicated_invariant _ (fun _ _ ok => (commitsSafely_iff.mp ok).1)
    (fun s _ g => CommitSafe m s g)
    (fun _ _ _ _ _ _ _ _ safe rep ok member move step rep' =>
      safe.step rep rep' step ok member move) synced rep safe good run

theorem Move.raised_by {peers : List PeerId} {net : Network} {v : PeerId} {n n' : Node} {k : ℕ}
    {out : Output} {call : Call AppendEntriesArg}
    (move : Move peers net v n (.appendEntriesHandler k) n' out)
    (found : net.appendCalls[k]? = some call) (raised : n.commitIndex < n'.commitIndex) :
    n'.Waits (.handler call { success := true, term := call.arg.term }) ∧
      n'.currentTerm = call.arg.term ∧ n'.commitIndex ≤ call.arg.leaderCommit := by
  cases move with
  | accept k call' control d out found' here current clear accepts success follows =>
    obtain rfl : call' = call := Option.some.inj (found'.symm.trans found)
    cases follows with
    | stay => exact absurd raised (lt_irrefl _)
    | raise =>
      exact ⟨Or.inl (List.mem_append_right _ (List.mem_singleton_self _)), rfl, min_le_left _ _⟩
  | quiet => exact absurd raised (lt_irrefl _)
  | adopt => exact absurd raised (lt_irrefl _)
  | reboot => exact absurd raised (Nat.not_lt_zero _)
  | deliver a d delivers => cases delivers
  | deliverReturn a d caller delivers => cases delivers

/-- When a follower raises its commit index on a request, every entry it stores
up to there is the one in the logical log of the leader that sent the request. -/
theorem raised_commit_agrees {m : Membership} {actions : List Action} {s t : Cluster}
    {h : History} {k : ℕ} {call : Call AppendEntriesArg}
    (good : Along (Cluster.step m) (fun s a => commitsSafely s a = true) Cluster.initial
      (actions ++ [.appendEntriesHandler k]))
    (run : Cluster.runHistory m actions = some (s, h))
    (found : s.network.appendCalls[k]? = some call)
    (handled : Cluster.step m s (.appendEntriesHandler k) = some t)
    (raised : (s.nodes call.callee).commitIndex < (t.nodes call.callee).commitIndex) :
    h.leader call.arg.term = some call.caller ∧
    ∀ i e, i ≤ (t.nodes call.callee).commitIndex →
      (t.nodes call.callee).mainLog.atIndex i = some e →
      (h.led call.arg.term)[i - 1]? = some e := by
  have synced := Cluster.run_synced (Cluster.run_of_runHistory run)
  obtain ⟨g, rep, -, safe⟩ := (CommitSafe.initial m).run (Replicated.initial m)
    Cluster.initial_synced good.left run
  have ok := (good.right (Cluster.run_of_runHistory run)).1
  obtain ⟨v, n, out, acted, member, -, rfl⟩ := Cluster.step_eq_some handled
  have move := Cluster.act_move synced acted
  obtain ⟨g', step, rep'⟩ := rep.step synced (Cluster.act_synced synced acted)
    (commitsSafely_iff.mp ok).1 member move
  obtain rfl : call.callee = v := by
    by_contra apart
    rw [Cluster.update_nodes_ne s n out apart] at raised
    omega
  have inv := rep.refines.inv
  have sent := List.mem_of_getElem? found
  refine ⟨(rep.msgs.append call sent).2.2, fun i e below stored => ?_⟩
  have node := rep'.node call.callee
  have hold := rep'.refines.node call.callee
  have now := rep'.refines.term call.callee
  rw [Cluster.update_nodes_self] at raised below stored node hold now
  obtain ⟨waits, term, high⟩ := move.raised_by found raised
  have acked := hold.queued call _ waits rfl
  obtain ⟨_, agree⟩ := safe.agrees inv rep'.refines.inv step sent acked (now.trans term)
  obtain ⟨_, led, long, _⟩ := safe.append _ (Or.inl ⟨call, sent, rfl⟩)
  rw [(step.later inv).grows.take_eq led long] at agree
  obtain ⟨above, _, place, _⟩ := node.atIndex_some stored
  rw [← rep.refines.led, ← getElem?_of_take_initial agree (by omega) long, place]

theorem raised_commit_agrees_after_snapshot : ∃ s h t call,
    Cluster.runHistory threePeers announceSecond = some (s, h) ∧
    Cluster.step threePeers s (.appendEntriesHandler 2) = some t ∧
    s.network.appendCalls[2]? = some call ∧ (t.nodes call.callee).commitIndex = 2 ∧
    h.leader call.arg.term = some call.caller ∧
    ∃ e, (t.nodes call.callee).mainLog.atIndex 2 = some e ∧
      (h.led call.arg.term)[1]? = some e := by
  have good : Along (Cluster.step threePeers) (fun s a => commitsSafely s a = true)
      Cluster.initial (announceSecond ++ [.appendEntriesHandler 2]) := by decide +kernel
  obtain ⟨s, h, t, call, run, handled, found, low, high, stored⟩ : ∃ s h t call,
      Cluster.runHistory threePeers announceSecond = some (s, h) ∧
      Cluster.step threePeers s (.appendEntriesHandler 2) = some t ∧
      s.network.appendCalls[2]? = some call ∧ (s.nodes call.callee).commitIndex = 1 ∧
      (t.nodes call.callee).commitIndex = 2 ∧
      (t.nodes call.callee).mainLog.atIndex 2 = some ⟨2, 1, ⟨default, .noOp⟩⟩ := by
    refine ⟨_, _, _, _, (Option.some_get (by decide +kernel)).symm,
      (Option.some_get (by decide +kernel)).symm, (Option.some_get (by decide +kernel)).symm,
      by decide +kernel, by decide +kernel, by decide +kernel⟩
  have agrees := raised_commit_agrees good run found handled (by omega)
  exact ⟨s, h, t, call, run, handled, found, high, agrees.1, _, stored,
    agrees.2 2 _ (by omega) stored⟩

/-- `c` leads term 1 and has entry 1 on its own; `a` leads term 2, commits and
compacts another entry 1 with `b`, and then sends `c` the empty request of a
fully compacted log. -/
def staleFollower : List Action :=
  winElection "c" "b" 0 ++ [.start "c" ⟨default, .size⟩, .initVote "a" true] ++
    winElection "a" "b" 1 ++ [.start "a" ⟨default, .noOp⟩] ++ commitOne "a" "b" 0 ++
    [.snapshot "a" 1 [1], .appendEntries "a" "c"]

/-- `c` commits its own entry 1 where the leader had another command. -/
theorem raised_commit_differs : ∃ s h t call,
    Cluster.runHistory threePeers staleFollower = some (s, h) ∧
    Along (Cluster.step threePeers) (fun s a => snapshotsApplied s a = true) Cluster.initial
      (staleFollower ++ [.appendEntriesHandler 1]) ∧
    s.network.appendCalls[1]? = some call ∧ call.callee = "c" ∧
    Cluster.step threePeers s (.appendEntriesHandler 1) = some t ∧
    (s.nodes "c").commitIndex < (t.nodes "c").commitIndex ∧ 1 ≤ (t.nodes "c").commitIndex ∧
    (t.nodes "c").mainLog.atIndex 1 = some ⟨1, 1, ⟨default, .size⟩⟩ ∧
    (h.led call.arg.term)[0]? = some ⟨1, 2, ⟨default, .noOp⟩⟩ := by
  refine ⟨_, _, _, _, (Option.some_get (by decide +kernel)).symm, by decide +kernel,
    (Option.some_get (by decide +kernel)).symm, by decide +kernel,
    (Option.some_get (by decide +kernel)).symm, by decide +kernel, by decide +kernel,
    by decide +kernel, by decide +kernel⟩

end Zdb.Raft
