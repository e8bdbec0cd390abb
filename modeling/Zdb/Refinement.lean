import Zdb.Merging

/-! The cluster refines log replication. A protocol state stands beside every
cluster state; each move of a node is one step of the protocol or leaves it as
it is. Vote requests carry the length and last term of the log the candidate's
own ballot was cast with, and a successful answer to AppendEntries, on the
network or still behind `applyCommittedEntries`, confirms what was sent. -/

namespace Zdb.Raft
open TermLog LabelledRun LogReplication

/-- The conditions under which every node keeps what it has confirmed. -/
def keepsConfirmed (s : Cluster) (a : Action) : Bool := mergesInPlace s a && installsForward s a

def Node.Waits (n : Node) (caller : ApplyCaller) : Prop :=
  caller ∈ n.applyQueue ∨ ∃ point, n.applyThread = some (caller, point)

/-- The callee has confirmed everything up to the end of the request. -/
def Acked (g : Protocol) (call : Call AppendEntriesArg) : Prop :=
  ∀ k ≤ call.arg.prevLogIndex + call.arg.entries.entries.length,
    g.acked call.callee call.arg.term k

structure Holding (g : Protocol) (v : PeerId) (n : Node) : Prop where
  candidate : n.role = .candidate →
    n.requestVoteArg.lastLogIndex = (g.ballotLog v n.currentTerm).length ∧
    n.requestVoteArg.lastLogTerm = lastTerm LogEntry.term (g.ballotLog v n.currentTerm) ∧
    (g.leader n.currentTerm = none → g.log v = g.ballotLog v n.currentTerm)
  leader : n.role = .leader → ∀ k ≤ (g.log v).length, g.acked v n.currentTerm k
  queued : ∀ call reply, n.Waits (.handler call reply) → reply.success = true → Acked g call

structure Matches (s : Cluster) (h : History) (g : Protocol) : Prop where
  term : ∀ v, g.term v = (s.nodes v).currentTerm
  ballot : g.ballot = h.ballot
  leader : g.leader = h.leader
  log : g.log = h.log
  led : g.leaderLog = h.led

structure Refines (m : Membership) (s : Cluster) (h : History) (g : Protocol) : Prop
    extends Matches s h g where
  inv : Inv LogEntry.term (quorums m) g
  node : ∀ v, Holding g v (s.nodes v)
  asked : ∀ c ∈ s.network.voteCalls,
    c.arg.lastLogIndex = (g.ballotLog c.caller c.arg.term).length ∧
    c.arg.lastLogTerm = lastTerm LogEntry.term (g.ballotLog c.caller c.arg.term)
  answered : ∀ x ∈ s.network.appendAnswers, x.reply.success = true → Acked g x.call

section Waiting
variable {n n' : Node} {v : PeerId} {a : Action} {d : Delivery} {caller : ApplyCaller}

theorem Delivers.waits {returns : Option ApplyCaller} (delivers : Delivers v n a d returns)
    (waits : ({ n with toDelivery := d } : Node).Waits caller) : n.Waits caller := by
  rcases waits with queued | ⟨point, at_⟩
  · left
    cases delivers with
    | enterReturn => exact List.mem_of_mem_eraseIdx queued
    | enterSend => exact List.mem_of_mem_eraseIdx queued
    | _ => exact queued
  · cases delivers with
    | enterSend k caller' c free waiting =>
      cases at_
      exact Or.inl (List.mem_of_getElem? waiting)
    | sendOk caller' i c before =>
      cases at_
      exact Or.inr ⟨_, before⟩
    | relockSend caller' i c before =>
      cases at_
      exact Or.inr ⟨_, before⟩
    | enterReturn => cases at_
    | sendFail => cases at_
    | relockReturn => cases at_
    | _ => exact Or.inr ⟨point, at_⟩

theorem Delivers.returns_waits (delivers : Delivers v n a d (some caller)) : n.Waits caller := by
  cases delivers with
  | enterReturn k caller free waiting => exact Or.inl (List.mem_of_getElem? waiting)
  | sendFail caller i c before => exact Or.inr ⟨_, before⟩
  | relockReturn caller i before => exact Or.inr ⟨_, before⟩

end Waiting

section Step
variable {m : Membership} {s : Cluster} {h : History} {g g' : Protocol} {v : PeerId} {n' : Node}
  {a : Action} {out : Output}

theorem Acked.step {call : Call AppendEntriesArg} (acked : Acked g call)
    (step : Step LogEntry.term (quorums m) g g') : Acked g' call :=
  fun k hk => step.acked_mono (acked k hk)

theorem Holding.other {u : PeerId} {n : Node} (hold : Holding g u n)
    (step : Step LogEntry.term (quorums m) g g') (inv : Inv LogEntry.term (quorums m) g)
    (voted : n.role = .candidate → g.ballot u n.currentTerm = some u)
    (log : g'.log u = g.log u) : Holding g' u n where
  candidate role := by
    obtain ⟨index, term, same⟩ := hold.candidate role
    rw [step.ballotLog_kept inv (voted role), log]
    refine ⟨index, term, fun vacant => same ?_⟩
    by_contra led
    exact (step.grows inv).leader_ne led vacant
  leader role k hk := step.acked_mono (hold.leader role k (log ▸ hk))
  queued call reply waits success := (hold.queued call reply waits success).step step

theorem Refines.voted (ref : Refines m s h g) (votes : Electing m s h) (u : PeerId)
    (role : (s.nodes u).role = .candidate) : g.ballot u (s.nodes u).currentTerm = some u := by
  rw [ref.ballot, (votes.node u).ballot]
  exact ((votes.node u).stands role).1

theorem Refines.of_step (ref : Refines m s h g) (votes : Electing m s h)
    (move : Move m.peers s.network v (s.nodes v) a n' out)
    (step : Step LogEntry.term (quorums m) g g')
    (same : Matches (s.update v n' out) (h.record v n' out) g') (mine : Holding g' v n')
    (answered : ∀ x, out = .appendEntriesAnswer x → x.reply.success = true → Acked g' x.call) :
    Refines m (s.update v n' out) (h.record v n' out) g' where
  toMatches := same
  inv := step.inv ref.inv
  node := by
    refine Cluster.forall_nodes_update mine fun u apart => ?_
    refine (ref.node u).other step ref.inv (ref.voted votes u) ?_
    rw [same.log, History.record_log_ne apart, ref.log]
  asked := by
    intro c sent
    rcases Network.mem_voteCalls_emit sent with old | new
    · have cast := (votes.asked c old).2.2
      rw [← ref.ballot] at cast
      rw [step.ballotLog_kept ref.inv cast]
      exact ref.asked c old
    · obtain ⟨caller, _, arg, role, _⟩ := move.requestVote_out new
      obtain ⟨_, _, term, _⟩ := (votes.node v).stands role
      obtain ⟨index, last, _⟩ := (ref.node v).candidate role
      rw [caller, arg, term, step.ballotLog_kept ref.inv (ref.voted votes v role)]
      exact ⟨index, last⟩
  answered := by
    intro x sent success
    rcases Network.mem_appendAnswers_emit sent with old | new
    · exact (ref.answered x old success).step step
    · exact answered x new success

theorem Electing.record_ballot (votes : Electing m s h)
    (le : (s.nodes v).currentTerm ≤ n'.currentTerm)
    (vote : n'.votedFor = (s.nodes v).voteIn n'.currentTerm) :
    (h.record v n' out).ballot = h.ballot := by
  have mine : h.ballot v n'.currentTerm = n'.votedFor := by
    have hc := votes.node v
    rcases lt_or_eq_of_le le with later | same
    · rw [vote, Node.voteIn_later later]
      by_contra voted
      obtain ⟨c, hv⟩ := Option.ne_none_iff_exists'.mp voted
      have := hc.ballot_le _ c hv
      omega
    · rw [vote, ← same, Node.voteIn_same le_rfl, hc.ballot]
  simp only [History.record]
  rw [← mine, Function.update_eq_self, Function.update_eq_self]

theorem History.record_log (log : h.newLog v n' out = h.log v) :
    (h.record v n' out).log = h.log := by
  simp only [History.record]
  rw [log, Function.update_eq_self]

theorem History.record_leader_of_not (h : History) (v : PeerId) (out : Output)
    (other : n'.role ≠ .leader) :
    (h.record v n' out).leader = h.leader ∧ (h.record v n' out).led = h.led := by
  simp [History.record, other]

theorem Matches.term_update (same : Matches s h g) (u : PeerId) :
    Function.update g.term v n'.currentTerm u = ((s.update v n' out).nodes u).currentTerm := by
  by_cases here : u = v
  · subst here
    simp
  · rw [Function.update_of_ne here, Cluster.update_nodes_ne s n' out here, same.term]

theorem Refines.quiet (ref : Refines m s h g) (votes : Electing m s h) (logs : Logical s h)
    (move : Move m.peers s.network v (s.nodes v) a n' out)
    (le : (s.nodes v).currentTerm ≤ n'.currentTerm)
    (vote : n'.votedFor = (s.nodes v).voteIn n'.currentTerm)
    (role : n'.role = .follower ∨ (n'.currentTerm = (s.nodes v).currentTerm ∧
      n'.role = (s.nodes v).role ∧ n'.requestVoteArg = (s.nodes v).requestVoteArg))
    (log : h.newLog v n' out = h.log v)
    (waits : ∀ caller, n'.Waits caller → (s.nodes v).Waits caller ∨ ∃ peer, caller = .leader peer)
    (returned : ∀ x, out = .appendEntriesAnswer x → x.reply.success = true →
      (s.nodes v).Waits (.handler x.call x.reply)) :
    ∃ g', Step LogEntry.term (quorums m) g g' ∧
      Refines m (s.update v n' out) (h.record v n' out) g' := by
  have queued : ∀ call reply, n'.Waits (.handler call reply) → reply.success = true →
      Acked g call := by
    intro call reply waiting success
    rcases waits _ waiting with old | ⟨peer, clash⟩
    · exact (ref.node v).queued call reply old success
    · cases clash
  have answered : ∀ x, out = .appendEntriesAnswer x → x.reply.success = true → Acked g x.call :=
    fun x sent success =>
      (ref.node v).queued x.call x.reply (returned x sent success) success
  have ballot : (h.record v n' out).ballot = h.ballot := votes.record_ballot le vote
  rcases lt_or_eq_of_le le with later | now
  · have follows : n'.role = .follower := by
      rcases role with follows | ⟨same, _⟩
      · exact follows
      · omega
    have aside : n'.role ≠ .leader := by simp [follows]
    obtain ⟨leader, led⟩ := History.record_leader_of_not h v out aside
    have step : Step LogEntry.term (quorums m) g (g.adopt v n'.currentTerm) :=
      .adopt g v _ (by rw [ref.term]; exact later)
    refine ⟨_, step, ref.of_step votes move step ?_ ?_ answered⟩
    · refine ⟨ref.toMatches.term_update, ?_, ?_, ?_, ?_⟩
      · exact ref.ballot.trans ballot.symm
      · exact ref.leader.trans leader.symm
      · exact ref.log.trans (History.record_log log).symm
      · exact ref.led.trans led.symm
    · exact ⟨by simp [follows], by simp [follows], queued⟩
  · have leads : n'.role = .leader → (s.nodes v).role = .leader := by
      intro leads
      rcases role with follows | ⟨_, same, _⟩
      · simp [follows] at leads
      · exact same ▸ leads
    have leader : (h.record v n' out).leader = h.leader ∧ (h.record v n' out).led = h.led := by
      by_cases lead : n'.role = .leader
      · have before := leads lead
        simp only [History.record, lead, if_true]
        rw [← now, log, ← (votes.node v).leads before, ← logs.leads v before,
          Function.update_eq_self, Function.update_eq_self]
        exact ⟨rfl, rfl⟩
      · exact History.record_leader_of_not h v out lead
    have step : Step LogEntry.term (quorums m) g g := .stay g
    refine ⟨g, step, ref.of_step votes move step ?_ ?_ answered⟩
    · refine ⟨?_, ?_, ?_, ?_, ?_⟩
      · intro u
        rw [← ref.toMatches.term_update, ← now, ← ref.term, Function.update_eq_self]
      · exact ref.ballot.trans ballot.symm
      · exact ref.leader.trans leader.1.symm
      · exact ref.log.trans (History.record_log log).symm
      · exact ref.led.trans leader.2.symm
    · refine ⟨fun candidate => ?_, fun lead => ?_, queued⟩
      · rcases role with follows | ⟨_, same, arg⟩
        · simp [follows] at candidate
        · rw [arg, ← now]
          exact (ref.node v).candidate (same ▸ candidate)
      · rw [← now]
        exact (ref.node v).leader (leads lead)

theorem Refines.vote (ref : Refines m s h g) (votes : Electing m s h)
    (move : Move m.peers s.network v (s.nodes v) a n' out) {c : PeerId}
    (step : Step LogEntry.term (quorums m) g (g.cast v c n'.currentTerm))
    (vote : n'.votedFor = some c) (aside : n'.role ≠ .leader)
    (log : h.newLog v n' out = h.log v)
    (candidate : n'.role = .candidate → n'.requestVoteArg.lastLogIndex = (h.log v).length ∧
      n'.requestVoteArg.lastLogTerm = lastTerm LogEntry.term (h.log v))
    (waits : ∀ caller, n'.Waits caller → (s.nodes v).Waits caller)
    (silent : ∀ x, out ≠ .appendEntriesAnswer x) :
    ∃ g', Step LogEntry.term (quorums m) g g' ∧
      Refines m (s.update v n' out) (h.record v n' out) g' := by
  obtain ⟨leader, led⟩ := History.record_leader_of_not h v out aside
  refine ⟨_, step, ref.of_step votes move step ?_ ?_ fun x sent => absurd sent (silent x)⟩
  · refine ⟨ref.toMatches.term_update, ?_, ?_, ?_, ?_⟩
    · simp [State.cast, History.record, ref.ballot, vote]
    · exact ref.leader.trans leader.symm
    · exact ref.log.trans (History.record_log log).symm
    · exact ref.led.trans led.symm
  · refine ⟨fun role => ?_, fun leads => absurd leads aside, ?_⟩
    · rw [cast_ballotLog, if_pos ⟨rfl, rfl⟩, ref.log]
      exact ⟨(candidate role).1, (candidate role).2, fun _ => congrFun ref.log v⟩
    · intro call reply waiting success
      exact ((ref.node v).queued call reply (waits _ waiting) success).step step

theorem Refines.take (ref : Refines m s h g) (votes : Electing m s h)
    (move : Move m.peers s.network v (s.nodes v) a n' out) {k : ℕ}
    (step : Step LogEntry.term (quorums m) g
      (g.install v n'.currentTerm k (h.newLog v n' out)))
    (le : (s.nodes v).currentTerm ≤ n'.currentTerm)
    (vote : n'.votedFor = (s.nodes v).voteIn n'.currentTerm) (aside : n'.role ≠ .leader)
    (led : h.leader n'.currentTerm ≠ none)
    (candidate : n'.role = .candidate → n'.currentTerm = (s.nodes v).currentTerm ∧
      (s.nodes v).role = .candidate ∧ n'.requestVoteArg = (s.nodes v).requestVoteArg)
    (waits : ∀ call reply, n'.Waits (.handler call reply) →
      (s.nodes v).Waits (.handler call reply) ∨ (call.callee = v ∧
        call.arg.term = n'.currentTerm ∧
        call.arg.prevLogIndex + call.arg.entries.entries.length = k))
    (answered : ∀ x, out = .appendEntriesAnswer x → x.call.callee = v ∧
      x.call.arg.term = n'.currentTerm ∧
      x.call.arg.prevLogIndex + x.call.arg.entries.entries.length = k) :
    ∃ g', Step LogEntry.term (quorums m) g g' ∧
      Refines m (s.update v n' out) (h.record v n' out) g' := by
  obtain ⟨leader, ledLog⟩ := History.record_leader_of_not h v out aside
  have acked : ∀ call : Call AppendEntriesArg, call.callee = v →
      call.arg.term = n'.currentTerm →
      call.arg.prevLogIndex + call.arg.entries.entries.length = k →
      Acked (g.install v n'.currentTerm k (h.newLog v n' out)) call :=
    fun call callee term len j hj => Or.inr ⟨callee, term, len ▸ hj⟩
  refine ⟨_, step, ref.of_step votes move step ?_ ?_ ?_⟩
  · refine ⟨ref.toMatches.term_update, ?_, ?_, ?_, ?_⟩
    · exact ref.ballot.trans (votes.record_ballot le vote).symm
    · exact ref.leader.trans leader.symm
    · simp [State.install, History.record, ref.log]
    · exact ref.led.trans ledLog.symm
  · refine ⟨fun role => ?_, fun leads => absurd leads aside, ?_⟩
    · obtain ⟨now, before, arg⟩ := candidate role
      obtain ⟨index, last, _⟩ := (ref.node v).candidate before
      rw [arg, now]
      refine ⟨index, last, fun vacant => absurd ?_ led⟩
      rw [now, ← ref.leader]
      exact vacant
    · intro call reply waiting success
      rcases waits call reply waiting with old | ⟨callee, term, len⟩
      · exact ((ref.node v).queued call reply old success).step step
      · exact acked call callee term len
  · intro x sent _
    obtain ⟨callee, term, len⟩ := answered x sent
    exact acked x.call callee term len

theorem Refines.lead (ref : Refines m s h g) (votes : Electing m s h)
    (move : Move m.peers s.network v (s.nodes v) a n' out)
    (step : Step LogEntry.term (quorums m) g g') (leads : n'.role = .leader)
    (vote : n'.votedFor = (s.nodes v).votedFor)
    (now : n'.currentTerm = (s.nodes v).currentTerm) (term : g'.term = g.term)
    (ballot : g'.ballot = g.ballot)
    (leader : g'.leader = Function.update g.leader n'.currentTerm (some v))
    (log : g'.log = Function.update g.log v (h.newLog v n' out))
    (led : g'.leaderLog = Function.update g.leaderLog n'.currentTerm (h.newLog v n' out))
    (acked : ∀ k ≤ (h.newLog v n' out).length, g'.acked v n'.currentTerm k)
    (waits : ∀ caller, n'.Waits caller → (s.nodes v).Waits caller)
    (silent : ∀ x, out ≠ .appendEntriesAnswer x) :
    ∃ g', Step LogEntry.term (quorums m) g g' ∧
      Refines m (s.update v n' out) (h.record v n' out) g' := by
  refine ⟨g', step, ref.of_step votes move step ?_ ?_ fun x sent => absurd sent (silent x)⟩
  · refine ⟨fun u => ?_, ?_, ?_, ?_, ?_⟩
    · rw [← ref.toMatches.term_update, term, now, ← ref.term, Function.update_eq_self]
    · rw [ballot, ref.ballot, votes.record_ballot now.ge]
      rw [vote, now, Node.voteIn_same le_rfl]
    · simp [leader, History.record, leads, ref.leader]
    · simp [log, History.record, ref.log]
    · simp [led, History.record, leads, ref.led]
  · refine ⟨by simp [leads], fun _ k hk => ?_, ?_⟩
    · rw [log, Function.update_self] at hk
      exact acked k hk
    · intro call reply waiting success
      exact ((ref.node v).queued call reply (waits _ waiting) success).step step

theorem Output.Rejects.answer {x : Answer AppendEntriesArg AppendEntriesReply}
    (rejects : out.Rejects) (sent : out = .appendEntriesAnswer x) :
    ¬ x.reply.success = true := by
  subst sent
  rw [Output.Rejects] at rejects
  simp [rejects]

theorem Represents.upToDate {log other : List LogEntry} {n : Node} (r : Represents log n)
    {index term : ℕ} (length : index = other.length)
    (last : term = TermLog.lastTerm LogEntry.term other) (recent : n.upToDate index term = true) :
    UpToDate LogEntry.term other log := by
  simpa only [UpToDate, Node.upToDate, r.lastTerm, r.lastIndex, length, last, Bool.or_eq_true,
    Bool.and_eq_true, beq_iff_eq, decide_eq_true_eq] using recent

theorem Refines.elect_step (ref : Refines m s h g)
    (candidate : (s.nodes v).role = .candidate)
    (vacant : h.leader (s.nodes v).currentTerm = none)
    (quorum : (quorums m).IsQuorum {u | h.ballot u (s.nodes v).currentTerm = some v}) :
    Step LogEntry.term (quorums m) g (g.elect v) := by
  obtain ⟨_, _, same⟩ := (ref.node v).candidate candidate
  rw [← ref.leader, ← ref.term] at vacant
  rw [← ref.ballot, ← ref.term] at quorum
  rw [← ref.term] at same
  exact .elect g v vacant (same vacant) quorum

theorem Refines.grant_step (ref : Refines m s h g) (votes : Electing m s h) (logs : Logical s h)
    {call : Call RequestVoteArg} (asked : call ∈ s.network.voteCalls)
    (current : (s.nodes call.callee).currentTerm ≤ call.arg.term)
    (free : h.ballot call.callee call.arg.term = none)
    (recent : (s.nodes call.callee).upToDate call.arg.lastLogIndex call.arg.lastLogTerm = true) :
    Step LogEntry.term (quorums m) g
      (g.cast call.callee call.arg.candidateId call.arg.term) := by
  obtain ⟨name, _, stands⟩ := votes.asked call asked
  obtain ⟨index, last⟩ := ref.asked call asked
  rw [name]
  refine .grant g _ _ _ ?_ ?_ ?_ ?_
  · rwa [ref.term]
  · rw [ref.ballot, free]
  · rw [ref.ballot, stands]
  · rw [ref.log]
    exact (logs.node call.callee).upToDate index last recent

theorem Refines.accept_merged (ref : Refines m s h g) (msgs : Messaging m s h) (logs : Logical s h)
    {call : Call AppendEntriesArg} (sent : call ∈ s.network.appendCalls)
    (synced : (s.nodes call.callee).Synced)
    (accepts : (s.nodes call.callee).accepts call.arg = true)
    (first : call.arg.prevLogIndex = 0 →
      (s.nodes call.callee).lastIncludedIndex = 0 ∨ call.arg.entries.entries = []) :
    Merged (h.log call.callee) ((h.led call.arg.term).take
      (call.arg.prevLogIndex + call.arg.entries.entries.length))
      ((h.log call.callee).take (s.nodes call.callee).lastIncludedIndex ++
        ((s.nodes call.callee).mainLog.merge call.arg.entries).entries) := by
  obtain ⟨_, _, led⟩ := msgs.append call sent
  have chain := ref.inv.log_chain call.callee
  rw [← ref.leader] at led
  rw [ref.log] at chain
  refine merged_accept (logs.node _) synced chain ?_ (logs.indexed _)
    (logs.sent _ (Or.inl ⟨call, sent, rfl⟩)) accepts first
  rw [← ref.led]
  exact ref.inv.leader_chain _ _ led

theorem Refines.accept_step (ref : Refines m s h g) (msgs : Messaging m s h) (logs : Logical s h)
    {call : Call AppendEntriesArg} (sent : call ∈ s.network.appendCalls)
    (synced : (s.nodes call.callee).Synced)
    (current : (s.nodes call.callee).currentTerm ≤ call.arg.term)
    (accepts : (s.nodes call.callee).accepts call.arg = true)
    (first : call.arg.prevLogIndex = 0 →
      (s.nodes call.callee).lastIncludedIndex = 0 ∨ call.arg.entries.entries = []) :
    Step LogEntry.term (quorums m) g (g.install call.callee call.arg.term
      (call.arg.prevLogIndex + call.arg.entries.entries.length)
      ((h.log call.callee).take (s.nodes call.callee).lastIncludedIndex ++
        ((s.nodes call.callee).mainLog.merge call.arg.entries).entries)) := by
  obtain ⟨_, other, led⟩ := msgs.append call sent
  have reads := logs.sent _ (Or.inl ⟨call, sent, rfl⟩)
  rw [← ref.leader] at led
  rw [← ref.led] at reads
  refine .install g _ call.caller _ _ _ ?_ led (mem_otherPeers.mp other).2 reads.within ?_
  · rwa [ref.term]
  · rw [ref.log, ref.led]
    exact ref.accept_merged msgs logs sent synced accepts first

theorem Refines.install_merged (ref : Refines m s h g) (msgs : Messaging m s h)
    (logs : Logical s h) {call : Call InstallSnapshotArg} (sent : call ∈ s.network.installCalls)
    (forward : (s.nodes call.callee).Forward call.arg) :
    Merged (h.log call.callee) ((h.led call.arg.term).take call.arg.lastIncludedIndex)
      ((h.led call.arg.term).take call.arg.lastIncludedIndex ++
        ((s.nodes call.callee).mainLog.trimPrefix call.arg.lastIncludedIndex
          call.arg.lastIncludedTerm).entries) := by
  obtain ⟨_, _, led⟩ := msgs.install call sent
  obtain ⟨within, term⟩ := logs.install call sent
  have chain := ref.inv.log_chain call.callee
  rw [← ref.leader] at led
  rw [ref.log] at chain
  refine merged_install (logs.node _) chain ?_ within term forward
  rw [← ref.led]
  exact ref.inv.leader_chain _ _ led

theorem Refines.install_step (ref : Refines m s h g) (msgs : Messaging m s h)
    (logs : Logical s h) {call : Call InstallSnapshotArg} (sent : call ∈ s.network.installCalls)
    (current : (s.nodes call.callee).currentTerm ≤ call.arg.term)
    (forward : (s.nodes call.callee).Forward call.arg) :
    Step LogEntry.term (quorums m) g (g.install call.callee call.arg.term
      call.arg.lastIncludedIndex ((h.led call.arg.term).take call.arg.lastIncludedIndex ++
        ((s.nodes call.callee).mainLog.trimPrefix call.arg.lastIncludedIndex
          call.arg.lastIncludedTerm).entries)) := by
  obtain ⟨_, other, led⟩ := msgs.install call sent
  obtain ⟨within, _⟩ := logs.install call sent
  rw [← ref.leader] at led
  rw [← ref.led] at within
  refine .install g _ call.caller _ _ _ ?_ led (mem_otherPeers.mp other).2 within ?_
  · rwa [ref.term]
  · rw [ref.log, ref.led]
    exact ref.install_merged msgs logs sent forward

/-- Every move of a node is matched by a step of the protocol. -/
theorem Refines.step (ref : Refines m s h g) (votes : Electing m s h) (msgs : Messaging m s h)
    (logs : Logical s h) (synced : ∀ u, (s.nodes u).Synced) (member : v ∈ m.peers)
    (ok : keepsConfirmed s a = true) (move : Move m.peers s.network v (s.nodes v) a n' out) :
    ∃ g', Step LogEntry.term (quorums m) g g' ∧
      Refines m (s.update v n' out) (h.record v n' out) g' := by
  rw [keepsConfirmed, Bool.and_eq_true] at ok
  have r := logs.node v
  have frame : _ → _ → _ → h.newLog v n' out = h.log v := History.newLog_frame r
  have grown : ∀ e, _ → _ → h.newLog v n' .nothing = h.log v ++ [e] :=
    fun e => History.newLog_append r
  have same := (Node.voteIn_same (n := s.nodes v) le_rfl).symm
  have moved := move
  cases move with
  | quiet a control t r' out idles hears rejects =>
    exact ref.quiet votes logs moved le_rfl same (Or.inr ⟨rfl, rfl, rfl⟩)
      (frame rfl rfl (History.base_rejects rejects)) (fun _ => Or.inl)
      (fun x sent success => absurd success (rejects.answer sent))
  | adopt a T control t r' out later idles hears rejects =>
    exact ref.quiet votes logs moved later.le (Node.voteIn_later later).symm (Or.inl rfl)
      (frame rfl rfl (History.base_rejects rejects)) (fun _ => Or.inl)
      (fun x sent success => absurd success (rejects.answer sent))
  | campaign control standing =>
    have step : Step LogEntry.term (quorums m) g (g.cast v v (g.term v + 1)) := .timeout g v
    rw [ref.term] at step
    exact ref.vote votes moved step rfl (by simp) (frame rfl rfl rfl)
      (fun _ => ⟨r.lastIndex, r.lastTerm⟩) (fun _ => id) (by simp)
  | elect peer k call answer control at_ answered own candidate granted current enough =>
    have quorum := votes.won member at_ answered own candidate granted current enough
    have vacant : h.leader (s.nodes v).currentTerm = none := by
      rcases votes.leader_step member moved rfl with led | ⟨vacant, _⟩
      · exact absurd led ((votes.node v).stands candidate).2.2.2
      · exact vacant
    have log := frame rfl rfl rfl
    refine ref.lead votes moved (ref.elect_step candidate vacant quorum) rfl rfl rfl rfl rfl
      ?_ ?_ ?_ ?_ (fun _ => id) (by simp)
    · simp [State.elect, ref.term]
    · rw [log, ← ref.log, Function.update_eq_self]
      rfl
    · rw [log]
      simp [State.elect, ref.term, ref.log]
    · intro k hk
      rw [log] at hk
      exact Or.inr ⟨rfl, (ref.term v).symm, by rwa [ref.log]⟩
  | grant k call control found here current free recent =>
    subst here
    by_cases open_ : h.ballot call.callee call.arg.term = none
    · exact ref.vote votes moved
        (ref.grant_step votes logs (List.mem_of_getElem? found) current open_ recent) rfl
        (by simp) (frame rfl rfl rfl) (by simp) (fun _ => id) (by simp)
    · obtain ⟨c, voted⟩ := Option.ne_none_iff_exists'.mp open_
      have hc := votes.node call.callee
      have now : call.arg.term = (s.nodes call.callee).currentTerm :=
        le_antisymm (hc.ballot_le _ c voted) current
      have mine : (s.nodes call.callee).votedFor = some c := by rw [← hc.ballot, ← now, voted]
      rw [Node.voteIn_same now.le, mine] at free
      have again : call.arg.candidateId = c := by simpa [eq_comm] using free
      refine ref.quiet votes logs moved current ?_ (Or.inl rfl) (frame rfl rfl rfl)
        (fun _ => Or.inl) (by simp)
      exact (again ▸ mine).symm.trans (Node.voteIn_same now.le).symm
  | accept k call control d out found here current clear accepts success follows =>
    subst here
    have sent := List.mem_of_getElem? found
    have led : h.leader call.arg.term ≠ none := by simp [(msgs.append call sent).2.2]
    have step := ref.accept_step msgs logs sent (synced _) current accepts
      (mergesInPlace_accept ok.1 found success)
    cases follows with
    | stay low =>
      refine ref.take votes moved step current rfl (by simp) led (by simp) (fun _ _ => Or.inl) ?_
      rintro x returned
      cases returned
      exact ⟨rfl, rfl, rfl⟩
    | raise high =>
      refine ref.take votes moved step current rfl (by simp) led (by simp) ?_ (by simp)
      rintro call' reply (queued | running)
      · rcases List.mem_append.mp queued with old | new
        · exact Or.inl (Or.inl old)
        · simp only [List.mem_singleton, ApplyCaller.handler.injEq] at new
          obtain ⟨rfl, _⟩ := new
          exact Or.inr ⟨rfl, rfl, rfl⟩
      · exact Or.inl (Or.inr running)
  | install k call control found here current clear success =>
    subst here
    have sent := List.mem_of_getElem? found
    obtain ⟨_, other, led⟩ := msgs.install call sent
    have step := ref.install_step msgs logs sent current
      (installsForward_install ok.2 found success)
    refine ref.take votes moved step current rfl (votes.roleIn_ne_leader led other current)
      (by simp [led]) (fun role => ?_) (fun _ _ => Or.inl) (by simp)
    replace role : (s.nodes call.callee).roleIn call.arg.term = .candidate := role
    rcases lt_or_eq_of_le current with later | now
    · simp [Node.roleIn_later later] at role
    · rw [Node.roleIn_same now.ge] at role
      exact ⟨now.symm, role, rfl⟩
  | propose command control leads clear =>
    have led := (votes.node v).leads leads
    rw [← ref.leader, ← ref.term] at led
    have log := grown _ rfl rfl
    have step : Step LogEntry.term (quorums m) g (g.append v
        ⟨(s.nodes v).mainLog.lastIndex + 1, (s.nodes v).currentTerm, command⟩) :=
      .append g v _ led (ref.term v).symm
    refine ref.lead votes moved step leads rfl rfl rfl rfl ?_ ?_ ?_ ?_ (fun _ => id) (by simp)
    · rw [← ref.term, ← led, Function.update_eq_self]
      rfl
    · rw [log]
      simp [State.append, ref.log]
    · rw [log]
      simp [State.append, ref.log, ref.term]
    · intro k hk
      rw [log] at hk
      exact Or.inr ⟨rfl, (ref.term v).symm, by rwa [ref.log]⟩
  | compact index data e control clear above within present =>
    exact ref.quiet votes logs moved le_rfl same (Or.inr ⟨rfl, rfl, rfl⟩)
      (History.newLog_compact r rfl rfl above) (fun _ => Or.inl) (by simp)
  | reboot a T control current =>
    exact ref.quiet votes logs moved current rfl (Or.inl rfl) (frame rfl rfl rfl)
      (by simp [Node.Waits]) (by simp)
  | commit peer k unset call next answer i mid =>
    refine ref.quiet votes logs moved le_rfl same (Or.inr ⟨rfl, rfl, rfl⟩) (frame rfl rfl rfl) ?_
      (by simp)
    rintro caller (queued | running)
    · rcases List.mem_append.mp queued with old | new
      · exact Or.inl (Or.inl old)
      · exact Or.inr ⟨peer, by simpa using new⟩
    · exact Or.inl (Or.inr running)
  | deliver a d delivers =>
    exact ref.quiet votes logs moved le_rfl same (Or.inr ⟨rfl, rfl, rfl⟩) (frame rfl rfl rfl)
      (fun _ waits => Or.inl (delivers.waits waits)) (by simp)
  | deliverReturn a d caller delivers =>
    cases caller with
    | handler call reply =>
      refine ref.quiet votes logs moved le_rfl same (Or.inr ⟨rfl, rfl, rfl⟩) (frame rfl rfl rfl)
        (fun _ waits => Or.inl (delivers.waits waits)) ?_
      rintro x sent _
      cases sent
      exact delivers.returns_waits
    | leader peer =>
      exact ref.quiet votes logs moved le_rfl same (Or.inr ⟨rfl, rfl, rfl⟩) (frame rfl rfl rfl)
        (fun _ waits => Or.inl (delivers.waits waits)) (by simp [Node.resume])
  | _ =>
    exact ref.quiet votes logs moved le_rfl same (Or.inr ⟨rfl, rfl, rfl⟩) (frame rfl rfl rfl)
      (fun _ => Or.inl) (by simp)

theorem Refines.initial (m : Membership) : Refines m Cluster.initial {} State.initial := by
  refine ⟨⟨fun _ => rfl, rfl, rfl, rfl, rfl⟩, inv_initial _ _, fun v => ?_, ?_, ?_⟩
  · constructor <;> simp [Cluster.initial, Node.boot, Node.readPersist, Node.Waits]
  · simp [Cluster.initial]
  · simp [Cluster.initial]

end Step

structure Replicated (m : Membership) (s : Cluster) (h : History) (g : Protocol) : Prop where
  votes : Electing m s h
  msgs : Messaging m s h
  logs : Logical s h
  refines : Refines m s h g

namespace Replicated
variable {m : Membership} {s : Cluster} {h : History} {g : Protocol} {v : PeerId}

theorem initial (m : Membership) : Replicated m Cluster.initial {} State.initial :=
  ⟨Electing.initial m, Messaging.initial m, Logical.initial, Refines.initial m⟩

theorem step {n' : Node} {a : Action} {out : Output} (rep : Replicated m s h g)
    (synced : ∀ u, (s.nodes u).Synced) (inStep : n'.Synced) (ok : keepsConfirmed s a = true)
    (member : v ∈ m.peers) (move : Move m.peers s.network v (s.nodes v) a n' out) :
    ∃ g', Step LogEntry.term (quorums m) g g' ∧
      Replicated m (s.update v n' out) (h.record v n' out) g' := by
  obtain ⟨votes, msgs, logs, ref⟩ := rep
  obtain ⟨g', step, ref'⟩ := ref.step votes msgs logs synced member ok move
  have inPlace : mergesInPlace s a = true := by
    rw [keepsConfirmed, Bool.and_eq_true] at ok
    exact ok.1
  exact ⟨g', step, votes.step member move, msgs.step votes member move,
    logs.step votes msgs synced inStep inPlace member move, ref'⟩

theorem node (rep : Replicated m s h g) (v : PeerId) : Represents (g.log v) (s.nodes v) := by
  rw [rep.refines.log]
  exact rep.logs.node v

theorem leads (rep : Replicated m s h g) (role : (s.nodes v).role = .leader) :
    g.leader (s.nodes v).currentTerm = some v ∧ g.leaderLog (s.nodes v).currentTerm = g.log v := by
  rw [rep.refines.leader, rep.refines.led, rep.refines.log]
  exact ⟨(rep.votes.node v).leads role, rep.logs.leads v role⟩

end Replicated

theorem Cluster.replicated_invariant {m : Membership} (ok : Cluster → Action → Prop)
    (keeps : ∀ s a, ok s a → keepsConfirmed s a = true)
    (P : Cluster → History → Protocol → Prop)
    (kept : ∀ (s : Cluster) (h : History) (g : Protocol) (a : Action) (v : PeerId) (n : Node)
      (out : Output) (g' : Protocol), P s h g → Replicated m s h g → ok s a → v ∈ m.peers →
      Move m.peers s.network v (s.nodes v) a n out → Step LogEntry.term (quorums m) g g' →
      Replicated m (s.update v n out) (h.record v n out) g' →
      P (s.update v n out) (h.record v n out) g')
    {s t : Cluster} {h k : History} {g : Protocol} {actions : List Action}
    (synced : ∀ u, (s.nodes u).Synced) (rep : Replicated m s h g) (start : P s h g)
    (good : Along (Cluster.step m) ok s actions)
    (run : exec (observed (Cluster.step m) (History.recordStep m)) (s, h) actions =
      some (t, k)) : ∃ g', Replicated m t k g' ∧ Later g g' ∧ P t k g' := by
  refine Cluster.history_invariant ok
    (fun s h => ∃ g', Replicated m s h g' ∧ Later g g' ∧ P s h g') ?_ synced
    ⟨g, rep, Later.refl g, start⟩ good run
  rintro s h a v n out ⟨g', rep, later, before⟩ synced inStep allowed member move
  obtain ⟨g'', step, rep'⟩ := rep.step synced inStep (keeps s a allowed) member move
  exact ⟨g'', rep', later.trans (step.later rep.refines.inv),
    kept s h g' a v n out g'' before rep allowed member move step rep'⟩

end Zdb.Raft
