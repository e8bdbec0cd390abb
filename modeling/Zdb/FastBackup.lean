import Zdb.ConflictHints
import Zdb.SnapshotFree

/-! Fast backup: a leader and one follower that exchange AppendEntries and nothing
else. A rejection names a term of which the leader has no entry at that place or
further on, so that the next request starts earlier; an accepted request leaves the
follower with the whole log of the leader. -/

namespace Zdb.Raft
open TermLog LabelledRun LogReplication

def Cluster.handling (s : Cluster) (k : ℕ) : Option AppendEntriesReply :=
  s.network.appendCalls[k]?.map fun call =>
    ((s.nodes call.callee).appendEntriesHandler call.arg).2.1

/-- Rounds of `appendEntries(peer)` on `v` and of the handler on `peer` until one is
accepted: the state then, and `nextIndex[peer]` at the start of each round. The last
round ends in the handler, which may have entries to apply before it answers. -/
def Cluster.exchange (m : Membership) (v peer : PeerId) (unset : ℕ × ℕ) :
    ℕ → Cluster → Option (Cluster × List ℕ)
  | 0, _ => none
  | fuel + 1, s =>
      let call := s.network.appendCalls.length
      let answer := s.network.appendAnswers.length
      let next := (s.nodes v).nextIndex peer
      (s.step m (.appendEntries v peer)).bind fun sent =>
        (sent.step m (.appendEntriesHandler call)).bind fun handled =>
          if (sent.handling call).any (·.success) then some (handled, [next])
          else (handled.step m (.appendEntriesReply v peer (some answer) unset)).bind fun back =>
            (exchange m v peer unset fuel back).map fun done => (done.1, next :: done.2)

def Node.hint (n : Node) (prevLogIndex : ℕ) : ℕ × ℕ :=
  match n.mainLog.atIndex prevLogIndex with
  | some e => (e.term, n.mainLog.termFirstIndex e.term)
  | none => (0, n.mainLog.lastIndex + 1)

def Node.conflictReply (n : Node) (arg : AppendEntriesArg) : AppendEntriesReply :=
  ⟨false, arg.term, some (n.hint arg.prevLogIndex).1, some (n.hint arg.prevLogIndex).2⟩

def Node.backedUp (n : Node) (peer : PeerId) (hint : ℕ × ℕ) : Node :=
  { n.setPoint peer .waiting with
    nextIndex := Function.update n.nextIndex peer (n.backUp hint.1 hint.2) }.raiseAppendNow peer

section Backup
variable {F L : List LogEntry} {f n : Node} {g : Protocol} {arg : AppendEntriesArg}

theorem Represents.termLastIndex (r : Represents L n) (point : n.lastIncludedIndex = 0) {t : ℕ}
    (present : n.mainLog.termLastIndex t ≠ 0) :
    ∃ e, L[n.mainLog.termLastIndex t - 1]? = some e ∧ e.term = t := by
  have entries := r.entries
  rw [point, List.drop_zero] at entries
  rw [Log.termLastIndex, entries] at present ⊢
  split at present
  · exact absurd rfl present
  · rename_i e found
    obtain ⟨i, stored⟩ := List.mem_iff_getElem?.mp
      (List.mem_reverse.mp (List.mem_of_find?_eq_some found))
    have index := r.indexed i e stored
    refine ⟨e, ?_, by simpa using List.find?_some found⟩
    rw [show e.index - 1 = i by omega]
    exact stored

theorem Represents.termFirstIndex_le (r : Represents F f) (point : f.lastIncludedIndex = 0)
    {i : ℕ} {e : LogEntry} (stored : F[i]? = some e) :
    f.mainLog.termFirstIndex e.term ≤ i + 1 := by
  have entries := r.entries
  rw [point, List.drop_zero] at entries
  rw [Log.termFirstIndex, entries]
  cases found : F.find? fun x => x.term == e.term with
  | none => exact Nat.zero_le _
  | some x =>
    obtain ⟨_, j, inside, rfl, before⟩ := List.find?_eq_some_iff_getElem.mp found
    have index := r.indexed j _ (List.getElem?_eq_getElem inside)
    have notAfter : j ≤ i := by
      by_contra later
      obtain ⟨_, rfl⟩ := List.getElem?_eq_some_iff.mp stored
      simpa using before i (by omega)
    dsimp only
    omega

theorem Node.backUp_le {bound conflictTerm conflictIndex : ℕ} (pos : 1 ≤ bound)
    (last : n.mainLog.termLastIndex conflictTerm ≠ 0 →
      n.mainLog.termLastIndex conflictTerm + 1 ≤ bound)
    (first : conflictIndex ≤ bound) : n.backUp conflictTerm conflictIndex ≤ bound := by
  simp only [Node.backUp]
  split_ifs <;> omega

theorem Represents.backUp_hint {Q : QuorumSystem PeerId} (inv : Inv LogEntry.term Q g)
    (rF : Represents F f) (rL : Represents L n) (pointF : f.lastIncludedIndex = 0)
    (pointL : n.lastIncludedIndex = 0) (chainF : Chain LogEntry.term g F)
    (chainL : Chain LogEntry.term g L) (truth : Truthful L arg)
    (rejects : f.accepts arg = false) :
    n.backUp (f.hint arg.prevLogIndex).1 (f.hint arg.prevLogIndex).2 ≤ arg.prevLogIndex := by
  simp only [Node.accepts, Bool.or_eq_false_iff, beq_eq_false_iff_ne] at rejects
  obtain ⟨pos, differs⟩ := rejects
  have first : 1 ≤ arg.prevLogIndex := Nat.one_le_iff_ne_zero.mpr pos
  rw [Node.hint]
  cases found : f.mainLog.atIndex arg.prevLogIndex with
  | none =>
    dsimp only
    -- no entry has term 0, so the leader takes the conflict index
    have short : F.length ≤ arg.prevLogIndex - 1 := by
      rw [rF.atIndex, pointF, if_pos (by omega)] at found
      exact List.getElem?_eq_none_iff.mp found
    refine Node.backUp_le first (fun present => ?_) (by rw [rF.lastIndex]; omega)
    obtain ⟨x, stored, zero⟩ := rL.termLastIndex pointL present
    exact absurd zero (chainL.term_pos inv stored).ne'
  | some e =>
    dsimp only
    obtain ⟨_, _, stored, _⟩ := rF.atIndex_some found
    simp only [found, beq_eq_false_iff_ne] at differs
    have low := rF.termFirstIndex_le pointF stored
    refine Node.backUp_le first (fun present => ?_) (by omega)
    obtain ⟨x, led, same⟩ := rL.termLastIndex pointL present
    by_contra beyond
    -- the leader's entry of that term at or after the place would put `e` in its log too
    have agree := chainF.matching chainL stored led same.symm (by omega)
    have here : L[arg.prevLogIndex - 1]? = some e := by
      have both := congrArg (fun log => log[arg.prevLogIndex - 1]?) agree
      simpa only [List.getElem?_take_of_succ, stored] using both.symm
    have term := termAt_succ LogEntry.term here
    rw [Nat.sub_add_cancel first] at term
    exact differs (term.symm.trans truth.term.symm)

theorem Represents.merge_covers (rF : Represents F f) (synced : f.Synced)
    (pointF : f.lastIncludedIndex = 0) (chainF : Chain LogEntry.term g F)
    (chainL : Chain LogEntry.term g L) (indexed : Consecutive 0 L) (truth : Truthful L arg)
    (accepts : f.accepts arg = true) : L <+: (f.mainLog.merge arg.entries).entries := by
  have merged := merged_accept rF synced chainF chainL indexed truth.reads accepts
    fun _ => Or.inl pointF
  have whole : L.take (arg.prevLogIndex + arg.entries.entries.length) = L := by
    rw [truth.entries, List.length_drop, Nat.add_sub_cancel' truth.within, List.take_length]
  rw [whole, pointF, List.take_zero, List.nil_append] at merged
  rcases merged with ⟨held, result⟩ | ⟨_, result⟩
  · rw [result]
    exact held
  · rw [result]

end Backup

namespace Node
variable {n f : Node} {arg : AppendEntriesArg} {v peer : PeerId} {T : ℕ}

theorem becameFollower_kept (n : Node) (T : ℕ) (peerId : PeerId) :
    (n.becameFollower T peerId).1.toStore = n.toStore ∧
      (n.becameFollower T peerId).1.killed = n.killed ∧
      (n.becameFollower T peerId).1.terminated = n.terminated := by
  rw [becameFollower]
  split_ifs <;> exact ⟨rfl, rfl, rfl⟩

theorem becameFollower_term (peerId : PeerId) (current : n.currentTerm ≤ T) :
    (n.becameFollower T peerId).1.currentTerm = T := by
  obtain ⟨control, followed⟩ := becameFollower_current peerId current
  rw [followed]

theorem accepts_becameFollower (n : Node) (T : ℕ) (peerId : PeerId) (arg : AppendEntriesArg) :
    (n.becameFollower T peerId).1.accepts arg = n.accepts arg := by
  rw [accepts, accepts, (n.becameFollower_kept T peerId).1]

section Handler
variable (live : f.killed = false) (clear : f.pendingSnapshot = false)
  (current : f.currentTerm ≤ arg.term)
include live clear current

theorem appendEntriesHandler_reject (rejects : f.accepts arg = false) :
    f.appendEntriesHandler arg =
      ((f.becameFollower arg.term arg.leaderId).1, f.conflictReply arg, false) := by
  have store := (f.becameFollower_kept arg.term arg.leaderId).1
  have term := becameFollower_term arg.leaderId current
  simp only [appendEntriesHandler, live, clear, Bool.or_self, Bool.false_eq_true, if_false,
    if_neg current.not_gt, accepts_becameFollower, rejects, conflictReply, hint]
  rw [store, term]
  cases f.mainLog.atIndex arg.prevLogIndex <;> rfl

theorem appendEntriesHandler_accept (accepts : f.accepts arg = true) :
    (f.appendEntriesHandler arg).2.1.success = true ∧
      (f.appendEntriesHandler arg).1.mainLog = f.mainLog.merge arg.entries := by
  have store := (f.becameFollower_kept arg.term arg.leaderId).1
  simp only [appendEntriesHandler, live, clear, Bool.or_self, Bool.false_eq_true, if_false,
    if_neg current.not_gt, accepts_becameFollower, accepts, if_true]
  split_ifs
  · exact ⟨rfl, by simp only [persist, store]⟩
  · exact ⟨rfl, by simp only [persist, store]⟩

end Handler

theorem appendEntries_sends {number snapNumber t : ℕ}
    (waits : (n.appendEntriesThread peer).point = .waiting) (live : n.killed = false)
    (leads : n.role = .leader) (flag : (n.appendNow peer || n.shouldStartHeartbeat peer) = true)
    (plain : (n.appendEntriesThread peer).sendSnapshot = false)
    (first : n.mainLog.firstIndex ≤ n.nextIndex peer)
    (term : n.prevLogTerm false (n.nextIndex peer - 1) = some t) :
    n.appendEntries v number snapNumber peer =
      some (n.setPoint peer (.appending ⟨number, v, peer, n.argFor v (n.nextIndex peer) t⟩
          (n.nextIndex peer)),
        .appendEntries ⟨number, v, peer, n.argFor v (n.nextIndex peer) t⟩) := by
  simp only [appendEntries, decide_eq_false first.not_gt, plain, Bool.false_and, Bool.or_self,
    Bool.false_eq_true, if_false, term]
  exact if_pos ⟨waits, live, leads, flag⟩

end Node

theorem Cluster.step_of_act {m : Membership} {s : Cluster} {a : Action} {v : PeerId} {n : Node}
    {out : Output} (found : s.act m.peers a = some (v, n, out)) (member : v ∈ m.peers)
    (running : (s.nodes v).terminated = false) : s.step m a = some (s.update v n out) := by
  rw [Cluster.step, found]
  exact if_pos ⟨member, Or.inl running⟩

def Cluster.request (s : Cluster) (v peer : PeerId) (arg : AppendEntriesArg) :
    Call AppendEntriesArg := ⟨s.network.appendCalls.length, v, peer, arg⟩

def Cluster.sent (s : Cluster) (v peer : PeerId) (arg : AppendEntriesArg) : Cluster :=
  s.update v ((s.nodes v).setPoint peer (.appending (s.request v peer arg)
    ((s.nodes v).nextIndex peer))) (.appendEntries (s.request v peer arg))

def Cluster.refused (s : Cluster) (v peer : PeerId) (arg : AppendEntriesArg) : Cluster :=
  (s.sent v peer arg).update peer ((s.nodes peer).becameFollower arg.term arg.leaderId).1
    (.appendEntriesAnswer ⟨s.request v peer arg, (s.nodes peer).conflictReply arg⟩)

def Cluster.retreated (s : Cluster) (v peer : PeerId) (arg : AppendEntriesArg) : Cluster :=
  (s.refused v peer arg).update v (((s.sent v peer arg).nodes v).backedUp peer
    ((s.nodes peer).hint arg.prevLogIndex)) .nothing

section Sent
variable {m : Membership} {s : Cluster} {v peer : PeerId} {arg : AppendEntriesArg}

theorem Cluster.sent_calls (s : Cluster) (v peer : PeerId) (arg : AppendEntriesArg) :
    (s.sent v peer arg).network.appendCalls[s.network.appendCalls.length]? =
      some (s.request v peer arg) := by
  simp [Cluster.sent, Network.emit]

theorem Cluster.sent_peer (apart : peer ≠ v) : (s.sent v peer arg).nodes peer = s.nodes peer :=
  Cluster.update_nodes_ne s _ _ apart

theorem Cluster.sent_handling (arg : AppendEntriesArg) (apart : peer ≠ v) :
    (s.sent v peer arg).handling s.network.appendCalls.length =
      some ((s.nodes peer).appendEntriesHandler arg).2.1 := by
  rw [Cluster.handling, Cluster.sent_calls, Option.map_some]
  simp only [Cluster.request, Cluster.sent_peer apart]

theorem Cluster.sent_leader (s : Cluster) (v peer : PeerId) (arg : AppendEntriesArg) :
    (s.sent v peer arg).nodes v = (s.nodes v).setPoint peer (.appending (s.request v peer arg)
      ((s.nodes v).nextIndex peer)) := Cluster.update_nodes_self _ _ _ _

theorem Cluster.refused_leader (apart : peer ≠ v) :
    (s.refused v peer arg).nodes v = (s.sent v peer arg).nodes v :=
  Cluster.update_nodes_ne _ _ _ apart.symm

theorem Cluster.retreated_leader (s : Cluster) (v peer : PeerId) (arg : AppendEntriesArg) :
    (s.retreated v peer arg).nodes v = ((s.sent v peer arg).nodes v).backedUp peer
      ((s.nodes peer).hint arg.prevLogIndex) := Cluster.update_nodes_self _ _ _ _

theorem Cluster.retreated_peer (arg : AppendEntriesArg) (apart : peer ≠ v) :
    (s.retreated v peer arg).nodes peer =
      ((s.nodes peer).becameFollower arg.term arg.leaderId).1 := by
  rw [Cluster.retreated, Cluster.update_nodes_ne _ _ _ apart, Cluster.refused,
    Cluster.update_nodes_self]

end Sent

/-- A leader at the top of its loop for `peer`, with something to send, and a live peer
that is not ahead of its term, in a run without snapshots. -/
structure Ready (m : Membership) (v peer : PeerId) (s : Cluster) : Prop where
  free : SnapshotFree m s
  replicated : ∃ h g, Replicated m s h g
  member : v ∈ m.peers
  other : peer ∈ otherPeers m.peers v
  leads : (s.nodes v).role = .leader
  live : (s.nodes v).killed = false
  running : (s.nodes v).terminated = false
  peerLive : (s.nodes peer).killed = false
  peerRunning : (s.nodes peer).terminated = false
  current : (s.nodes peer).currentTerm ≤ (s.nodes v).currentTerm
  waits : ((s.nodes v).appendEntriesThread peer).point = .waiting
  flag : ((s.nodes v).appendNow peer || (s.nodes v).shouldStartHeartbeat peer) = true

section Bounds
variable {m : Membership} {s : Cluster} {h : History} {g : Protocol} {v : PeerId}

theorem SnapshotFree.next_bounds (free : SnapshotFree m s) (rep : Replicated m s h g)
    (leads : (s.nodes v).role = .leader) (peer : PeerId) :
    1 ≤ (s.nodes v).nextIndex peer ∧
      (s.nodes v).nextIndex peer ≤ (s.nodes v).mainLog.lastIndex + 1 := by
  rw [(rep.logs.node v).lastIndex]
  exact ⟨(free.threads v).next_pos peer, rep.logs.next v peer leads⟩

end Bounds

namespace Ready
variable {m : Membership} {v peer : PeerId} {s : Cluster}

theorem next_bounds (ready : Ready m v peer s) : 1 ≤ (s.nodes v).nextIndex peer ∧
    (s.nodes v).nextIndex peer ≤ (s.nodes v).mainLog.lastIndex + 1 := by
  obtain ⟨h, g, rep⟩ := ready.replicated
  exact ready.free.next_bounds rep ready.leads peer

theorem send (ready : Ready m v peer s) : ∃ arg,
    Truthful (s.nodes v).mainLog.entries arg ∧ arg.term = (s.nodes v).currentTerm ∧
    arg.prevLogIndex + 1 = (s.nodes v).nextIndex peer ∧
    s.step m (.appendEntries v peer) = some (s.sent v peer arg) := by
  obtain ⟨low, high⟩ := ready.next_bounds
  obtain ⟨h, g, rep⟩ := ready.replicated
  have r := rep.node v
  have point := (ready.free.node v).point
  rw [r.lastIndex] at high
  have first : (s.nodes v).mainLog.firstIndex ≤ (s.nodes v).nextIndex peer := by
    rw [r.contiguous.firstIndex, r.point, point]
    split_ifs <;> omega
  obtain ⟨t, term⟩ : ∃ t,
      (s.nodes v).prevLogTerm false ((s.nodes v).nextIndex peer - 1) = some t := by
    rw [Node.prevLogTerm, r.atIndex, point]
    by_cases start : (s.nodes v).nextIndex peer - 1 = 0
    · simp [start]
    · rw [if_pos (by omega), List.getElem?_eq_getElem (by omega)]
      exact ⟨_, rfl⟩
  have from_ : (s.nodes v).sendFrom peer = (s.nodes v).nextIndex peer := if_neg first.not_gt
  have builds : Builds v (s.nodes v) (.appendEntries v peer) peer
      ((s.nodes v).argFor v ((s.nodes v).nextIndex peer) t) :=
    ⟨rfl, ready.leads, false, t, by rw [from_, term], by rw [from_], fun _ => first⟩
  have truth := (builds.truthful r high low fun past => by
    have := past.2
    omega).1
  refine ⟨_, by rw [(ready.free.stored rep v).1]; exact truth, rfl, ?_, ?_⟩
  · simp only [Node.argFor]
    omega
  · refine Cluster.step_of_act ?_ ready.member ready.running
    simp only [Cluster.act, if_pos ready.other]
    rw [Node.appendEntries_sends ready.waits ready.live ready.leads ready.flag
      ((ready.free.node v).plain peer) first term]
    rfl

theorem apart (ready : Ready m v peer s) : peer ≠ v := (mem_otherPeers.mp ready.other).2

theorem peer_member (ready : Ready m v peer s) : peer ∈ m.peers := (mem_otherPeers.mp ready.other).1

theorem accepted (ready : Ready m v peer s) {arg : AppendEntriesArg}
    (truth : Truthful (s.nodes v).mainLog.entries arg) (term : arg.term = (s.nodes v).currentTerm)
    (accepts : (s.nodes peer).accepts arg = true) : ∃ handled,
    (s.sent v peer arg).step m (.appendEntriesHandler s.network.appendCalls.length) =
      some handled ∧
    ((s.nodes peer).appendEntriesHandler arg).2.1.success = true ∧
    (handled.nodes v).mainLog = (s.nodes v).mainLog ∧
    (s.nodes v).mainLog.entries <+: (handled.nodes peer).mainLog.entries := by
  obtain ⟨h, g, rep⟩ := ready.replicated
  have chains := rep.refines.inv.log_chain
  have log := (ready.free.stored rep v).1
  obtain ⟨success, merged⟩ := Node.appendEntriesHandler_accept ready.peerLive
    (ready.free.node peer).clear (term ▸ ready.current) accepts
  have covers := (rep.node peer).merge_covers (ready.free.synced peer)
    (ready.free.node peer).point (chains peer) (chains v) (rep.node v).indexed (log ▸ truth) accepts
  have running : ((s.sent v peer arg).nodes peer).terminated = false := by
    rw [Cluster.sent_peer ready.apart]
    exact ready.peerRunning
  obtain ⟨n, out, found, kept⟩ : ∃ n out,
      (s.sent v peer arg).act m.peers (.appendEntriesHandler s.network.appendCalls.length) =
        some (peer, n, out) ∧ n.mainLog = (s.nodes peer).mainLog.merge arg.entries := by
    simp only [Cluster.act, Cluster.sent_calls, Option.map_some, Cluster.request,
      Cluster.sent_peer ready.apart]
    split_ifs
    · exact ⟨_, _, rfl, merged⟩
    · exact ⟨_, _, rfl, merged⟩
  refine ⟨_, Cluster.step_of_act found ready.peer_member running, success, ?_, ?_⟩
  · rw [Cluster.update_nodes_ne _ _ _ ready.apart.symm, Cluster.sent, Cluster.update_nodes_self]
    rfl
  · rw [Cluster.update_nodes_self, kept, log]
    exact covers

theorem refuses (ready : Ready m v peer s) {arg : AppendEntriesArg}
    (term : arg.term = (s.nodes v).currentTerm) (rejects : (s.nodes peer).accepts arg = false) :
    (s.sent v peer arg).step m (.appendEntriesHandler s.network.appendCalls.length) =
      some (s.refused v peer arg) := by
  have handles := Node.appendEntriesHandler_reject ready.peerLive (ready.free.node peer).clear
    (term ▸ ready.current) rejects
  refine Cluster.step_of_act ?_ ready.peer_member ?_
  · simp only [Cluster.act, Cluster.sent_calls, Option.map_some, Cluster.request,
      Cluster.sent_peer ready.apart, handles, Bool.false_eq_true, if_false]
  · rw [Cluster.sent_peer ready.apart]
    exact ready.peerRunning

theorem backs_up (ready : Ready m v peer s) {arg : AppendEntriesArg}
    (term : arg.term = (s.nodes v).currentTerm) (unset : ℕ × ℕ) :
    (s.refused v peer arg).step m
      (.appendEntriesReply v peer (some s.network.appendAnswers.length) unset) =
        some (s.retreated v peer arg) := by
  have conflict : ((s.sent v peer arg).nodes v).conflicts arg
      ((s.nodes peer).conflictReply arg) = true := by
    simp [Node.conflicts, Cluster.sent_leader, Node.setPoint, Node.conflictReply, ready.live,
      ready.leads, term]
  have at_ : (((s.sent v peer arg).nodes v).appendEntriesThread peer).point =
      .appending (s.request v peer arg) ((s.nodes v).nextIndex peer) := by
    simp [Cluster.sent_leader, Node.setPoint]
  have heard : received (s.refused v peer arg).network.appendAnswers (s.request v peer arg)
      (some s.network.appendAnswers.length) = some (some ((s.nodes peer).conflictReply arg)) := by
    simp [received, Cluster.refused, Cluster.sent, Network.emit]
  refine Cluster.step_of_act ?_ ready.member ?_
  · simp only [Cluster.act, Cluster.refused_leader ready.apart, at_, heard, Option.map_some]
    rw [show (s.request v peer arg).arg = arg from rfl,
      Node.appendEntriesReply_conflict m.peers v peer _ unset conflict]
    rfl
  · rw [Cluster.refused_leader ready.apart, Cluster.sent_leader]
    exact ready.running

theorem again (ready : Ready m v peer s) {arg : AppendEntriesArg}
    (term : arg.term = (s.nodes v).currentTerm)
    (sends : s.step m (.appendEntries v peer) = some (s.sent v peer arg))
    (rejects : (s.nodes peer).accepts arg = false) : Ready m v peer (s.retreated v peer arg) := by
  obtain ⟨h, g, rep⟩ := ready.replicated
  let round : List Action := [.appendEntries v peer,
    .appendEntriesHandler s.network.appendCalls.length,
    .appendEntriesReply v peer (some s.network.appendAnswers.length) (0, 0)]
  have run : exec (Cluster.step m) s round = some (s.retreated v peer arg) := by
    simp [round, exec, sends, ready.refuses term rejects, ready.backs_up term]
  have calm : ∀ a ∈ round, a.isSnapshot = false := by simp [round, Action.isSnapshot]
  obtain ⟨k, g', rep', -⟩ := ready.free.replicated rep calm run
  obtain ⟨_, killed, terminated⟩ := (s.nodes peer).becameFollower_kept arg.term arg.leaderId
  have leader : (s.retreated v peer arg).nodes v = _ := Cluster.retreated_leader s v peer arg
  have follower := Cluster.retreated_peer (s := s) arg ready.apart
  rw [Cluster.sent_leader] at leader
  refine ⟨ready.free.of_exec calm run, ⟨k, g', rep'⟩, ready.member, ready.other, ?_, ?_, ?_, ?_, ?_,
    ?_, ?_, ?_⟩
  · rw [leader]
    exact ready.leads
  · rw [leader]
    exact ready.live
  · rw [leader]
    exact ready.running
  · rw [follower]
    exact killed.trans ready.peerLive
  · rw [follower]
    exact terminated.trans ready.peerRunning
  · rw [follower, leader, Node.becameFollower_term _ (term ▸ ready.current)]
    exact term.le
  · rw [leader]
    simp [Node.backedUp, Node.raiseAppendNow, Node.setPoint]
  · rw [leader]
    simp [Node.backedUp, Node.raiseAppendNow]

theorem retreats (ready : Ready m v peer s) {arg : AppendEntriesArg}
    (truth : Truthful (s.nodes v).mainLog.entries arg)
    (next : arg.prevLogIndex + 1 = (s.nodes v).nextIndex peer)
    (rejects : (s.nodes peer).accepts arg = false) :
    ((s.retreated v peer arg).nodes v).nextIndex peer < (s.nodes v).nextIndex peer := by
  obtain ⟨h, g, rep⟩ := ready.replicated
  have chains := rep.refines.inv.log_chain
  rw [(ready.free.stored rep v).1] at truth
  have earlier := (rep.node peer).backUp_hint rep.refines.inv (rep.node v)
    (ready.free.node peer).point (ready.free.node v).point (chains peer) (chains v) truth rejects
  rw [Cluster.retreated_leader, Cluster.sent_leader]
  simp only [Node.backedUp, Node.raiseAppendNow, Function.update_self]
  calc _ ≤ arg.prevLogIndex := earlier
    _ < (s.nodes v).nextIndex peer := by omega

theorem agree (ready : Ready m v peer s) {t : Cluster} (free : SnapshotFree m t)
    (same : (t.nodes v).mainLog = (s.nodes v).mainLog)
    (covers : (s.nodes v).mainLog.entries <+: (t.nodes peer).mainLog.entries) (j : ℕ)
    (pos : 1 ≤ j) (inside : j ≤ (s.nodes v).mainLog.lastIndex) :
    ∃ e, (t.nodes v).mainLog.atIndex j = some e ∧ (t.nodes peer).mainLog.atIndex j = some e := by
  have read : ∀ u, (t.nodes u).mainLog.atIndex j = (t.nodes u).mainLog.entries[j - 1]? := by
    intro u
    rw [(free.gapless.node u).atIndex, (free.synced u).index, (free.node u).point,
      if_pos (by omega), Nat.sub_zero]
  have within : j - 1 < (s.nodes v).mainLog.entries.length := by
    rw [(ready.free.gapless.node v).lastIndex, (ready.free.synced v).index,
      (ready.free.node v).point] at inside
    omega
  have stored := List.getElem?_eq_getElem within
  refine ⟨_, by rw [read, same, stored], ?_⟩
  rw [read]
  exact List.prefix_iff_getElem?.mp covers (j - 1) within

theorem converges (ready : Ready m v peer s) (unset : ℕ × ℕ) {fuel : ℕ}
    (enough : (s.nodes v).nextIndex peer ≤ fuel) : ∃ t nexts,
    s.exchange m v peer unset fuel = some (t, nexts) ∧ nexts.Pairwise (· > ·) ∧
    (∀ x ∈ nexts, 1 ≤ x ∧ x ≤ (s.nodes v).nextIndex peer) ∧
    (t.nodes v).mainLog = (s.nodes v).mainLog ∧
    ∀ j, 1 ≤ j → j ≤ (s.nodes v).mainLog.lastIndex →
      ∃ e, (t.nodes v).mainLog.atIndex j = some e ∧ (t.nodes peer).mainLog.atIndex j = some e := by
  -- a rejection moves `nextIndex` down, so it bounds the rounds that are left
  induction fuel generalizing s with
  | zero =>
    have := ready.next_bounds.1
    omega
  | succ fuel ih =>
    obtain ⟨arg, truth, term, next, sends⟩ := ready.send
    have low := ready.next_bounds.1
    have handling := Cluster.sent_handling (s := s) arg ready.apart
    cases accepts : (s.nodes peer).accepts arg with
    | true =>
      obtain ⟨t, handled, success, same, covers⟩ := ready.accepted truth term accepts
      have free := (ready.free.step rfl sends).step rfl handled
      refine ⟨t, [(s.nodes v).nextIndex peer], ?_, by simp, by simpa using low, same,
        ready.agree free same covers⟩
      simp [Cluster.exchange, sends, handled, handling, success]
    | false =>
      have handled := ready.refuses term accepts
      have took := ready.backs_up term unset
      have less := ready.retreats truth next accepts
      have same : ((s.retreated v peer arg).nodes v).mainLog = (s.nodes v).mainLog := by
        rw [Cluster.retreated_leader, Cluster.sent_leader]
        rfl
      obtain ⟨t, nexts, run, falls, bounds, same', agree⟩ :=
        ih (ready.again term sends accepts) (by omega)
      have fails : ((s.nodes peer).appendEntriesHandler arg).2.1.success = false := by
        rw [Node.appendEntriesHandler_reject ready.peerLive (ready.free.node peer).clear
          (term ▸ ready.current) accepts]
        rfl
      refine ⟨t, (s.nodes v).nextIndex peer :: nexts, ?_, ?_, ?_, same'.trans same, ?_⟩
      · simp [Cluster.exchange, sends, handled, handling, fails, took, run]
      · refine List.pairwise_cons.mpr ⟨fun x later => ?_, falls⟩
        have := (bounds x later).2
        omega
      · intro x listed
        rcases List.mem_cons.mp listed with rfl | later
        · exact ⟨low, le_rfl⟩
        · have := bounds x later
          omega
      · rwa [same] at agree

end Ready

/-- Fast backup converges. In every reachable state without snapshots `nextIndex` of a
leader lies between 1 and the end of its log. From the top of its loop, a leader and a live
peer of no later term need at most `nextIndex` rounds; `nextIndex` falls with every
rejection, and after the success the peer holds the leader's log. -/
theorem fast_backup_converges (m : Membership) (actions : List Action) (s : Cluster)
    (free : ∀ a ∈ actions, a.isSnapshot = false) (run : Cluster.run m actions = some s)
    (v peer : PeerId) (leads : (s.nodes v).role = .leader) (unset : ℕ × ℕ) :
    (1 ≤ (s.nodes v).nextIndex peer ∧
      (s.nodes v).nextIndex peer ≤ (s.nodes v).mainLog.lastIndex + 1) ∧
    (v ∈ m.peers → peer ∈ otherPeers m.peers v →
      (s.nodes v).killed = false → (s.nodes v).terminated = false →
      (s.nodes peer).killed = false → (s.nodes peer).terminated = false →
      (s.nodes peer).currentTerm ≤ (s.nodes v).currentTerm →
      ((s.nodes v).appendEntriesThread peer).point = .waiting →
      ((s.nodes v).appendNow peer || (s.nodes v).shouldStartHeartbeat peer) = true →
      ∃ t nexts,
        s.exchange m v peer unset ((s.nodes v).nextIndex peer) = some (t, nexts) ∧
        nexts.Pairwise (· > ·) ∧
        (∀ x ∈ nexts, 1 ≤ x ∧ x ≤ (s.nodes v).mainLog.lastIndex + 1) ∧
        (t.nodes v).mainLog = (s.nodes v).mainLog ∧
        ∀ j, 1 ≤ j → j ≤ (s.nodes v).mainLog.lastIndex → ∃ e,
          (t.nodes v).mainLog.atIndex j = some e ∧ (t.nodes peer).mainLog.atIndex j = some e) := by
  have start := SnapshotFree.initial m
  have inv := start.of_exec free run
  obtain ⟨h, g, rep, -⟩ := start.replicated (Replicated.initial m) free run
  have bounds := inv.next_bounds rep leads peer
  refine ⟨bounds, fun member other live running peerLive peerRunning current waits flag => ?_⟩
  have ready : Ready m v peer s := ⟨inv, ⟨h, g, rep⟩, member, other, leads, live, running,
    peerLive, peerRunning, current, waits, flag⟩
  obtain ⟨t, nexts, done, falls, within, same, agree⟩ := ready.converges unset le_rfl
  exact ⟨t, nexts, done, falls, fun x listed => ⟨(within x listed).1,
    (within x listed).2.trans bounds.2⟩, same, agree⟩

theorem fast_backup_converges_shorter : ∃ s t nexts,
    Cluster.run threePeers (winElection "a" "b" 0 ++ [.start "a" ⟨default, .noOp⟩,
      .appendEntries "a" "b", .appendEntriesHandler 0] ++ winElection "b" "c" 1) = some s ∧
    s.exchange threePeers "b" "c" (0, 0) ((s.nodes "b").nextIndex "c") = some (t, nexts) ∧
    nexts.Pairwise (· > ·) ∧ nexts.length = 2 ∧
    ∃ e, (t.nodes "b").mainLog.atIndex 1 = some e ∧ (t.nodes "c").mainLog.atIndex 1 = some e := by
  obtain ⟨s, run, leads, guards, last, two⟩ : ∃ s,
      Cluster.run threePeers (winElection "a" "b" 0 ++ [.start "a" ⟨default, .noOp⟩,
        .appendEntries "a" "b", .appendEntriesHandler 0] ++ winElection "b" "c" 1) = some s ∧
      (s.nodes "b").role = .leader ∧
      ((s.nodes "b").killed = false ∧ (s.nodes "b").terminated = false ∧
        (s.nodes "c").killed = false ∧ (s.nodes "c").terminated = false ∧
        (s.nodes "c").currentTerm ≤ (s.nodes "b").currentTerm ∧
        ((s.nodes "b").appendEntriesThread "c").point = .waiting ∧
        ((s.nodes "b").appendNow "c" || (s.nodes "b").shouldStartHeartbeat "c") = true) ∧
      1 ≤ (s.nodes "b").mainLog.lastIndex ∧
      (s.exchange threePeers "b" "c" (0, 0) ((s.nodes "b").nextIndex "c")).map (·.2.length) =
        some 2 :=
    ⟨_, (Option.some_get (by decide +kernel)).symm, by decide +kernel, by decide +kernel,
      by decide +kernel, by decide +kernel⟩
  obtain ⟨live, running, peerLive, peerRunning, current, waits, flag⟩ := guards
  obtain ⟨t, nexts, done, falls, _, _, agree⟩ := (fast_backup_converges threePeers _ s
    (by decide) run "b" "c" leads (0, 0)).2 (by decide) (by decide) live running peerLive
      peerRunning current waits flag
  rw [done] at two
  exact ⟨s, t, nexts, run, done, falls, Option.some.inj two, agree 1 le_rfl last⟩

end Zdb.Raft
