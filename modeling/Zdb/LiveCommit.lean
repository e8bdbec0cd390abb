import Zdb.EntryIdentity
import Zdb.LiveElection

/-! A live majority can commit. Its leader comes to rest, takes a command, brings
one member after the other up to date, counts them and delivers the entry to its
state machine, without any step of a node outside the majority. -/

namespace Zdb.Raft
open LabelledRun LogReplication

def Node.started (n : Node) (command : Command) : Node :=
  { ({ n with mainLog := n.mainLog.append (nextEntry n command) } : Node).persist with
    appendNow := fun _ => true }

theorem Node.start_eq {n : Node} (live : n.killed = false) (leads : n.role = .leader)
    (clear : n.pendingSnapshot = false) (command : Command) :
    n.start command = (n.started command, true) := by
  rw [Node.start, if_neg (by simp [live, leads]), if_neg (by simp [clear])]
  rfl

/-- Member `v` leads, none of the others is ahead of it, and the last entry of its log
is one of its own term. -/
structure Leading (m : Membership) (Q : Finset PeerId) (v : PeerId) (e : LogEntry)
    (s : Cluster) : Prop where
  group : Group m Q s
  member : v ∈ Q
  leads : (s.nodes v).role = .leader
  top : ∀ q ∈ Q, (s.nodes q).currentTerm ≤ (s.nodes v).currentTerm
  last : (s.nodes v).mainLog.lastIndex = e.index
  stored : (s.nodes v).mainLog.atIndex e.index = some e
  own : e.term = (s.nodes v).currentTerm
  idle : (s.nodes v).applyThread = none
  uncounted : (s.nodes v).commitIndex < e.index ∨ (s.nodes v).applyQueue ≠ []

namespace Group
variable {m : Membership} {Q : Finset PeerId} {s : Cluster} {v : PeerId}

theorem commit_le (group : Group m Q s) (v : PeerId) :
    (s.nodes v).commitIndex ≤ (s.nodes v).mainLog.lastIndex := by
  obtain ⟨h, g, decided, dec⟩ := group.sound
  rw [(dec.rep.node v).lastIndex]
  exact (dec.serving.safe.node v).commit.1

theorem exists_stored (group : Group m Q s) {i : ℕ} (pos : 0 < i)
    (inside : i ≤ (s.nodes v).mainLog.lastIndex) :
    ∃ e, (s.nodes v).mainLog.atIndex i = some e := by
  obtain ⟨h, g, decided, dec⟩ := group.sound
  rw [(dec.rep.node v).lastIndex] at inside
  rw [(dec.free.stored dec.rep v).2, if_pos pos]
  exact ⟨_, List.getElem?_eq_getElem (by omega)⟩

theorem takes_command (group : Group m Q s) (member : v ∈ Q)
    (leads : (s.nodes v).role = .leader)
    (top : ∀ q ∈ Q, (s.nodes q).currentTerm ≤ (s.nodes v).currentTerm)
    (idle : (s.nodes v).applyThread = none) (command : Command) : ∃ t e,
      Reaches (Cluster.step m) (Acts Q) s t ∧ e.command = command ∧ Leading m Q v e t ∧
      (∀ p, ((t.nodes v).appendEntriesThread p) = (s.nodes v).appendEntriesThread p) ∧
      ∀ p, (t.nodes v).appendNow p = true := by
  have found : s.act m.peers (.start v command) =
      some (v, (s.nodes v).started command, .nothing) := by
    simp only [Cluster.act, Node.start_eq (group.alive v member).live leads
      (group.free.node v).clear]
  have first := group.act member found rfl
  have group' := group.reaches first
  have here : (s.update v ((s.nodes v).started command) .nothing).nodes v =
      (s.nodes v).started command := Cluster.update_nodes_self _ _ _ _
  have place : (s.nodes v).mainLog.lastIndex = (s.nodes v).mainLog.entries.length := by
    rw [(group.free.gapless.node v).lastIndex, (group.free.synced v).index,
      (group.free.node v).point, Nat.zero_add]
  refine ⟨_, nextEntry (s.nodes v) command, first, rfl,
    ⟨group', member, ?_, ?_, ?_, ?_, ?_, ?_, ?_⟩, ?_, ?_⟩
  · rw [here]
    exact leads
  · intro q hq
    rw [here]
    by_cases same : q = v
    · rw [same, here]
    · rw [Cluster.update_nodes_ne _ _ _ same]
      exact top q hq
  · rw [here]
    exact Log.lastIndex_append _ _
  · -- the new entry is the last of a log without gaps
    obtain ⟨h, g, decided, dec⟩ := group'.sound
    have read := dec.free.stored dec.rep v
    rw [here] at read
    have pos : 0 < (nextEntry (s.nodes v) command).index := Nat.succ_pos _
    have full : ((s.nodes v).started command).mainLog.entries =
        (s.nodes v).mainLog.entries ++ [nextEntry (s.nodes v) command] := rfl
    rw [here, read.2, if_pos pos, ← read.1, full,
      show (nextEntry (s.nodes v) command).index - 1 = (s.nodes v).mainLog.entries.length from
        place, List.getElem?_concat_length]
  · rw [here]
    rfl
  · rw [here]
    exact idle
  · left
    rw [here]
    exact Nat.lt_succ_of_le (group.commit_le v)
  · intro p
    rw [here]
    rfl
  · intro p
    rw [here]
    rfl

end Group

structure Attends (v p : PeerId) (s t : Cluster) : Prop where
  others : ∀ u, u ≠ v → u ≠ p → t.nodes u = s.nodes u
  store : (t.nodes v).toStore = (s.nodes v).toStore
  delivery : (t.nodes v).toDelivery = (s.nodes v).toDelivery
  role : (t.nodes v).role = (s.nodes v).role
  term : (t.nodes v).currentTerm = (s.nodes v).currentTerm
  matched : (t.nodes v).matchIndex = (s.nodes v).matchIndex
  threads : ∀ q, q ≠ p → (t.nodes v).appendEntriesThread q = (s.nodes v).appendEntriesThread q
  flags : ∀ q, q ≠ p → (t.nodes v).appendNow q = (s.nodes v).appendNow q

namespace Attends
variable {v p : PeerId} {s t u : Cluster} {arg : AppendEntriesArg}

theorem refl (v p : PeerId) (s : Cluster) : Attends v p s s :=
  ⟨fun _ _ _ => rfl, rfl, rfl, rfl, rfl, rfl, fun _ _ => rfl, fun _ _ => rfl⟩

theorem trans (first : Attends v p s t) (rest : Attends v p t u) : Attends v p s u where
  others w notV notP := (rest.others w notV notP).trans (first.others w notV notP)
  store := rest.store.trans first.store
  delivery := rest.delivery.trans first.delivery
  role := rest.role.trans first.role
  term := rest.term.trans first.term
  matched := rest.matched.trans first.matched
  threads q apart := (rest.threads q apart).trans (first.threads q apart)
  flags q apart := (rest.flags q apart).trans (first.flags q apart)

theorem sent (s : Cluster) (v p : PeerId) (arg : AppendEntriesArg) :
    Attends v p s (s.sent v p arg) := by
  refine ⟨fun u notV _ => Cluster.update_nodes_ne _ _ _ notV, ?_, ?_, ?_, ?_, ?_, ?_, ?_⟩
  all_goals rw [Cluster.sent_leader]
  · rfl
  · rfl
  · rfl
  · rfl
  · rfl
  · intro q apart
    simp [Node.setPoint, apart]
  · intro q _
    rfl

theorem of_others (apart : p ≠ v) (others : ∀ u, u ≠ p → t.nodes u = s.nodes u) :
    Attends v p s t := by
  have same := others v apart.symm
  refine ⟨fun u _ notP => others u notP, ?_, ?_, ?_, ?_, ?_, ?_, ?_⟩
  all_goals simp only [same, implies_true]

theorem retreated (s : Cluster) (v p : PeerId) (arg : AppendEntriesArg) :
    Attends v p s (s.retreated v p arg) := by
  refine ⟨fun u notV notP => ?_, ?_, ?_, ?_, ?_, ?_, ?_, ?_⟩
  · rw [Cluster.retreated, Cluster.update_nodes_ne _ _ _ notV, Cluster.refused,
      Cluster.update_nodes_ne _ _ _ notP, Cluster.sent, Cluster.update_nodes_ne _ _ _ notV]
  all_goals rw [Cluster.retreated_leader, Cluster.sent_leader]
  · rfl
  · rfl
  · rfl
  · rfl
  · rfl
  · intro q notP
    simp [Node.backedUp, Node.raiseAppendNow, Node.setPoint, notP]
  · intro q notP
    simp [Node.backedUp, Node.raiseAppendNow, Node.setPoint, notP]

end Attends

theorem Node.appendEntriesHandler_confirms {f : Node} {arg : AppendEntriesArg}
    (live : f.killed = false) (clear : f.pendingSnapshot = false)
    (current : f.currentTerm ≤ arg.term) (accepts : f.accepts arg = true) :
    (f.appendEntriesHandler arg).2.1 = { success := true, term := arg.term } ∧
      (f.appendEntriesHandler arg).1.currentTerm = arg.term := by
  have term := becameFollower_term arg.leaderId current
  simp only [appendEntriesHandler, live, clear, Bool.or_self, Bool.false_eq_true, if_false,
    if_neg current.not_gt, accepts_becameFollower, accepts, if_true]
  split_ifs
  · exact ⟨by simp only [persist, term], by simp only [persist, term]⟩
  · exact ⟨by simp only [persist, term], by simp only [persist, term]⟩

structure Confirmed (v p : PeerId) (t : Cluster) : Prop where
  answer : ∃ call reply, ((t.nodes v).appendEntriesThread p).point =
      .appending call (call.arg.prevLogIndex + 1) ∧
    ⟨call, reply⟩ ∈ t.network.appendAnswers ∧ reply.success = true ∧
    reply.term = (t.nodes v).currentTerm ∧ call.arg.term = (t.nodes v).currentTerm ∧
    call.arg.prevLogIndex + call.arg.entries.entries.length = (t.nodes v).mainLog.lastIndex
  current : (t.nodes p).currentTerm ≤ (t.nodes v).currentTerm

namespace Ready
variable {m : Membership} {Q : Finset PeerId} {v p : PeerId} {s : Cluster}

theorem confirms (ready : Ready m v p s) (group : Group m Q s) (member : v ∈ Q) (member' : p ∈ Q)
    {arg : AppendEntriesArg} (truth : Truthful (s.nodes v).mainLog.entries arg)
    (term : arg.term = (s.nodes v).currentTerm)
    (next : arg.prevLogIndex + 1 = (s.nodes v).nextIndex p)
    (sends : s.step m (.appendEntries v p) = some (s.sent v p arg))
    (accepts : (s.nodes p).accepts arg = true) : ∃ t,
      Reaches (Cluster.step m) (Acts Q) s t ∧ Attends v p s t ∧ Confirmed v p t := by
  have apart := ready.apart
  obtain ⟨reply, adopted⟩ := Node.appendEntriesHandler_confirms ready.peerLive
    (ready.free.node p).clear (term ▸ ready.current) accepts
  have first : Reaches (Cluster.step m) (Acts Q) s (s.sent v p arg) :=
    .single sends ⟨rfl, v, member, rfl⟩
  have group₁ := group.reaches first
  have ends : arg.prevLogIndex + arg.entries.entries.length = (s.nodes v).mainLog.lastIndex := by
    rw [truth.entries, List.length_drop, Nat.add_sub_cancel' truth.within,
      (group.free.gapless.node v).lastIndex, (group.free.synced v).index,
      (group.free.node v).point, Nat.zero_add]
  -- what is left to show once the answer is on the network
  have done : ∀ t, Reaches (Cluster.step m) (Acts Q) (s.sent v p arg) t →
      (∀ u, u ≠ p → t.nodes u = (s.sent v p arg).nodes u) →
      ⟨s.request v p arg, { success := true, term := arg.term }⟩ ∈ t.network.appendAnswers →
      (t.nodes p).currentTerm = arg.term → ∃ t,
        Reaches (Cluster.step m) (Acts Q) s t ∧ Attends v p s t ∧ Confirmed v p t := by
    intro t later others answered now
    have all := (Attends.sent s v p arg).trans (.of_others apart others)
    refine ⟨t, first.trans later, all, ⟨s.request v p arg, _, ?_, answered, rfl, ?_, ?_, ?_⟩, ?_⟩
    · rw [others v apart.symm, Cluster.sent_leader]
      simp [Node.setPoint, Cluster.request, next]
    · rw [all.term]
      exact term
    · rw [all.term]
      exact term
    · rw [all.store]
      exact ends
    · rw [now, all.term]
      exact term.le
  have handler : (s.sent v p arg).act m.peers (.appendEntriesHandler s.network.appendCalls.length) =
      (let n := ((s.nodes p).appendEntriesHandler arg).1
       if ((s.nodes p).appendEntriesHandler arg).2.2 then
         some (p, { n with applyQueue := n.applyQueue ++ [.handler (s.request v p arg)
           { success := true, term := arg.term }] }, .nothing)
       else some (p, n, .appendEntriesAnswer ⟨s.request v p arg,
         { success := true, term := arg.term }⟩)) := by
    simp only [Cluster.act, Cluster.sent_calls, Option.map_some, Cluster.request,
      Cluster.sent_peer apart, reply]
    split_ifs <;> rfl
  by_cases apply : ((s.nodes p).appendEntriesHandler arg).2.2 = true
  · simp only [apply, if_true] at handler
    have second := group₁.act member' handler rfl
    obtain ⟨t, later, eased, idle, empty⟩ := (group₁.reaches second).drain member'
    refine done t (second.trans later) (fun u notP => ?_) ?_ ?_
    · rw [eased.others u notP, Cluster.update_nodes_ne _ _ _ notP]
    · have returns := eased.answered (s.request v p arg) { success := true, term := arg.term } (by
        rw [Cluster.update_nodes_self]
        exact Or.inl (List.mem_append_right _ (List.mem_singleton_self _)))
      rcases returns with (listed | ⟨point, held⟩) | sent
      · simp [empty] at listed
      · simp [idle] at held
      · exact sent
    · rw [eased.term, Cluster.update_nodes_self]
      exact adopted
  · simp only [apply] at handler
    refine done _ (group₁.act member' handler rfl)
      (fun u notP => Cluster.update_nodes_ne _ _ _ notP) ?_ ?_
    · simp [Network.emit]
    · rw [Cluster.update_nodes_self]
      exact adopted

theorem persuades (ready : Ready m v p s) (group : Group m Q s) (member : v ∈ Q)
    (member' : p ∈ Q) : ∃ t, Reaches (Cluster.step m) (Acts Q) s t ∧ Attends v p s t ∧
      Confirmed v p t := by
  -- every refusal moves `nextIndex` down
  induction bound : (s.nodes v).nextIndex p using Nat.strong_induction_on generalizing s with
  | _ next ih =>
    obtain ⟨arg, truth, term, from_, sends⟩ := ready.send
    cases accepts : (s.nodes p).accepts arg with
    | true => exact ready.confirms group member member' truth term from_ sends accepts
    | false =>
      have first : Reaches (Cluster.step m) (Acts Q) s (s.sent v p arg) :=
        .single sends ⟨rfl, v, member, rfl⟩
      have second : Reaches (Cluster.step m) (Acts Q) (s.sent v p arg) (s.refused v p arg) :=
        .single (ready.refuses term accepts)
          ⟨rfl, p, member', by simp [Action.actor, Cluster.sent_calls, Cluster.request]⟩
      have third : Reaches (Cluster.step m) (Acts Q) (s.refused v p arg) (s.retreated v p arg) :=
        .single (ready.backs_up term (0, 0)) ⟨rfl, v, member, rfl⟩
      have round := (first.trans second).trans third
      obtain ⟨t, later, attends, confirmed⟩ := ih _ (bound ▸ ready.retreats truth from_ accepts)
        (ready.again term sends accepts) (group.reaches round) rfl
      exact ⟨t, round.trans later, (Attends.retreated s v p arg).trans attends, confirmed⟩

end Ready

namespace Node
variable {n : Node} {peers : List PeerId} {v p : PeerId} {arg : AppendEntriesArg} {next : ℕ}
  {reply : AppendEntriesReply}

def counted (n : Node) (p : PeerId) (next : ℕ) : Node :=
  { n.setPoint p .waiting with
    nextIndex := Function.update n.nextIndex p next
    matchIndex := Function.update n.matchIndex p (next - 1) }

def scanned (n : Node) (p : PeerId) : Scan → Node
  | .nothing => n.clearFlags p
  | .commit i =>
      { n.setPoint p .applying with
        commitIndex := i, applyQueue := n.applyQueue ++ [.leader p] }
  | .missing => { n with terminated := true }

theorem appendEntriesReply_counts (live : n.killed = false) (leads : n.role = .leader)
    (success : reply.success = true) (known : reply.term = n.currentTerm)
    (current : arg.term = n.currentTerm) (unset : ℕ × ℕ) :
    n.appendEntriesReply peers v p arg next (some reply) unset =
      (n.counted p (next + arg.entries.data.length)).scanned p
        ((n.counted p (next + arg.entries.data.length)).commitScan peers v
          n.mainLog.lastIndex) := by
  have followed : (n.setPoint p .waiting).becameFollower reply.term p =
      (n.setPoint p .waiting, false) := becameFollower_same known.le
  have going : ¬ ((n.setPoint p .waiting).killed = true ∨
      (n.setPoint p .waiting).role ≠ .leader) := by
    simp [setPoint, live, leads]
  have fresh : ¬ (reply.term < (n.setPoint p .waiting).currentTerm ∨
      arg.term ≠ (n.setPoint p .waiting).currentTerm) := by
    simp [setPoint, known, current]
  unfold appendEntriesReply
  simp only [if_neg going, followed, Bool.false_eq_true, if_false, if_neg fresh, success, if_true]
  rw [scanned.eq_def]
  rfl

theorem scanned_frame (scan : Scan) : (n.scanned p scan).toStore = n.toStore ∧
    (n.scanned p scan).role = n.role ∧ (n.scanned p scan).currentTerm = n.currentTerm ∧
    (n.scanned p scan).matchIndex = n.matchIndex ∧
    (n.scanned p scan).applyThread = n.applyThread ∧
    (∀ q, q ≠ p → (n.scanned p scan).appendEntriesThread q = n.appendEntriesThread q) ∧
    ∀ q, q ≠ p → (n.scanned p scan).appendNow q = n.appendNow q := by
  cases scan with
  | nothing =>
    refine ⟨rfl, rfl, rfl, rfl, rfl, fun _ _ => rfl, fun q apart => ?_⟩
    simp [scanned, clearFlags, apart]
  | commit i =>
    refine ⟨rfl, rfl, rfl, rfl, rfl, fun q apart => ?_, fun _ _ => rfl⟩
    simp [scanned, setPoint, apart]
  | missing => exact ⟨rfl, rfl, rfl, rfl, rfl, fun _ _ => rfl, fun _ _ => rfl⟩

theorem scanned_last {e : LogEntry} (pos : 0 < e.index)
    (stored : n.mainLog.atIndex e.index = some e) (own : e.term = n.currentTerm)
    (many : majority peers ≤ n.matchCount peers v e.index) :
    e.index ≤ (n.scanned p (n.commitScan peers v e.index)).commitIndex := by
  obtain ⟨i, index⟩ : ∃ i, e.index = i + 1 := ⟨e.index - 1, by omega⟩
  rw [index] at stored many ⊢
  by_cases above : n.commitIndex < i + 1
  · rw [commitScan, if_pos above, stored]
    simp [own, many, scanned]
  · rw [commitScan, if_neg above]
    exact not_lt.mp above

theorem card_le_matchCount {Q : Finset PeerId} {i : ℕ} (member : v ∈ Q)
    (inside : ∀ q ∈ Q, q ∈ peers) (matched : ∀ q ∈ Q, q ≠ v → i ≤ n.matchIndex q) :
    Q.card ≤ n.matchCount peers v i := by
  have others : Q.erase v ⊆
      ((otherPeers peers v).filter fun peer => decide (i ≤ n.matchIndex peer)).toFinset := by
    intro q hq
    obtain ⟨apart, hq⟩ := Finset.mem_erase.mp hq
    simpa [otherPeers] using ⟨⟨inside q hq, apart⟩, matched q hq apart⟩
  have few := (Finset.card_le_card others).trans (List.toFinset_card_le _)
  rw [← List.countP_eq_length_filter, Finset.card_erase_of_mem member] at few
  rw [matchCount]
  omega

end Node

namespace Leading
variable {m : Membership} {Q : Finset PeerId} {v p : PeerId} {e : LogEntry} {s : Cluster}

theorem pos (leading : Leading m Q v e s) : 0 < e.index := by
  obtain ⟨h, g, decided, dec⟩ := leading.group.sound
  have above := ((dec.rep.node v).atIndex_some leading.stored).1
  omega

theorem attends {t : Cluster} (leading : Leading m Q v e s) (attends : Attends v p s t)
    (reaches : Reaches (Cluster.step m) (Acts Q) s t)
    (current : (t.nodes p).currentTerm ≤ (t.nodes v).currentTerm) : Leading m Q v e t where
  group := leading.group.reaches reaches
  member := leading.member
  leads := attends.role.trans leading.leads
  top q hq := by
    by_cases hv : q = v
    · rw [hv]
    by_cases hp : q = p
    · rw [hp]
      exact current
    rw [attends.others q hv hp, attends.term]
    exact leading.top q hq
  last := by rw [attends.store, leading.last]
  stored := by rw [attends.store, leading.stored]
  own := leading.own.trans attends.term.symm
  idle := by rw [attends.delivery, leading.idle]
  uncounted := by
    rw [attends.delivery]
    exact leading.uncounted

theorem counts (leading : Leading m Q v e s) (confirmed : Confirmed v p s) : ∃ t,
    Reaches (Cluster.step m) (Acts Q) s t ∧ Leading m Q v e t ∧
    (t.nodes v).matchIndex = Function.update (s.nodes v).matchIndex p e.index ∧
    (∀ q, q ≠ p → (t.nodes v).appendEntriesThread q = (s.nodes v).appendEntriesThread q) ∧
    (∀ q, q ≠ p → (t.nodes v).appendNow q = (s.nodes v).appendNow q) ∧
    (majority m.peers ≤ (t.nodes v).matchCount m.peers v e.index →
      e.index ≤ (t.nodes v).commitIndex) := by
  obtain ⟨⟨call, reply, at_, sent, success, known, current, ends⟩, -⟩ := confirmed
  obtain ⟨k, found⟩ := List.mem_iff_getElem?.mp sent
  have heard : received s.network.appendAnswers call (some k) = some (some reply) := by
    simp [received, found]
  have last := leading.last
  have next : call.arg.prevLogIndex + 1 + call.arg.entries.data.length = e.index + 1 := by
    rw [← last, ← ends, Log.data]
    omega
  have taken : s.act m.peers (.appendEntriesReply v p (some k) (0, 0)) =
      some (v, ((s.nodes v).counted p (e.index + 1)).scanned p
        (((s.nodes v).counted p (e.index + 1)).commitScan m.peers v e.index), .nothing) := by
    simp only [Cluster.act, at_, heard, Option.map_some]
    rw [Node.appendEntriesReply_counts (leading.group.alive v leading.member).live leading.leads
      success known current, next, last]
  have step := leading.group.act leading.member taken rfl
  have group := leading.group.reaches step
  generalize scan : ((s.nodes v).counted p (e.index + 1)).commitScan m.peers v e.index = result
    at taken step group
  have here : (s.update v (((s.nodes v).counted p (e.index + 1)).scanned p result)
      .nothing).nodes v = ((s.nodes v).counted p (e.index + 1)).scanned p result :=
    Cluster.update_nodes_self _ _ _ _
  obtain ⟨store, role, term, matched, thread, threads, flags⟩ :=
    Node.scanned_frame (n := (s.nodes v).counted p (e.index + 1)) (p := p) result
  have term' : ((s.nodes v).counted p (e.index + 1)).currentTerm = (s.nodes v).currentTerm := rfl
  refine ⟨_, step, ⟨group, leading.member, ?_, ?_, ?_, ?_, ?_, ?_, ?_⟩, ?_, ?_, ?_, ?_⟩
  all_goals rw [here]
  · rw [role]
    exact leading.leads
  · intro q hq
    rw [term, term']
    by_cases same : q = v
    · rw [same, here, term]
      exact le_rfl
    · rw [Cluster.update_nodes_ne _ _ _ same]
      exact leading.top q hq
  · rw [store]
    exact last
  · rw [store]
    exact leading.stored
  · rw [term]
    exact leading.own
  · rw [thread]
    exact leading.idle
  · cases result with
    | nothing => exact leading.uncounted
    | commit i => exact Or.inr (by simp [Node.scanned])
    | missing =>
      have running := (group.alive v leading.member).running
      rw [here] at running
      simp [Node.scanned] at running
  · rw [matched, Node.counted, Nat.add_sub_cancel]
  · intro q apart
    rw [threads q apart]
    simp [Node.counted, Node.setPoint, apart]
  · intro q apart
    rw [flags q apart]
    rfl
  · intro many
    have count : majority m.peers ≤
        ((s.nodes v).counted p (e.index + 1)).matchCount m.peers v e.index := by
      rw [Node.matchCount, ← matched]
      exact many
    rw [← scan]
    exact Node.scanned_last leading.pos leading.stored leading.own count

theorem serve (leading : Leading m Q v e s) (member : p ∈ Q) (apart : p ≠ v)
    (waits : ((s.nodes v).appendEntriesThread p).point = .waiting)
    (flag : (s.nodes v).appendNow p = true) : ∃ t,
    Reaches (Cluster.step m) (Acts Q) s t ∧ Leading m Q v e t ∧
    (t.nodes v).matchIndex = Function.update (s.nodes v).matchIndex p e.index ∧
    (∀ q, q ≠ p → (t.nodes v).appendEntriesThread q = (s.nodes v).appendEntriesThread q) ∧
    (∀ q, q ≠ p → (t.nodes v).appendNow q = (s.nodes v).appendNow q) ∧
    (majority m.peers ≤ (t.nodes v).matchCount m.peers v e.index →
      e.index ≤ (t.nodes v).commitIndex) := by
  have group := leading.group
  have alive := group.alive v leading.member
  have alive' := group.alive p member
  have ready : Ready m v p s := by
    obtain ⟨h, g, decided, dec⟩ := group.sound
    exact ⟨dec.free, ⟨h, g, dec.rep⟩, group.inside v leading.member,
      by simpa [otherPeers] using ⟨group.inside p member, apart⟩, leading.leads, alive.live,
      alive.running, alive'.live, alive'.running, leading.top p member, waits, by simp [flag]⟩
  obtain ⟨t, first, attends, confirmed⟩ := ready.persuades group leading.member member
  obtain ⟨u, second, led, matched, threads, flags, commits⟩ :=
    (leading.attends attends first confirmed.current).counts confirmed
  refine ⟨u, first.trans second, led, ?_, ?_, ?_, commits⟩
  · rw [matched, attends.matched]
  · exact fun q notP => (threads q notP).trans (attends.threads q notP)
  · exact fun q notP => (flags q notP).trans (attends.flags q notP)

theorem serve_all {ps : List PeerId} (leading : Leading m Q v e s) (some : ps ≠ [])
    (nodup : ps.Nodup) (members : ∀ p ∈ ps, p ∈ Q ∧ p ≠ v)
    (waits : ∀ p ∈ ps, ((s.nodes v).appendEntriesThread p).point = .waiting)
    (flags : ∀ p ∈ ps, (s.nodes v).appendNow p = true) : ∃ t,
    Reaches (Cluster.step m) (Acts Q) s t ∧ Leading m Q v e t ∧
    (∀ p ∈ ps, (t.nodes v).matchIndex p = e.index) ∧
    (∀ q, q ∉ ps → (t.nodes v).matchIndex q = (s.nodes v).matchIndex q) ∧
    (majority m.peers ≤ (t.nodes v).matchCount m.peers v e.index →
      e.index ≤ (t.nodes v).commitIndex) := by
  induction ps generalizing s with
  | nil => exact absurd rfl some
  | cons p rest ih =>
    obtain ⟨fresh, nodup⟩ := List.nodup_cons.mp nodup
    obtain ⟨⟨member, apart⟩, members⟩ := List.forall_mem_cons.mp members
    obtain ⟨waits, later⟩ := List.forall_mem_cons.mp waits
    obtain ⟨flag, flags⟩ := List.forall_mem_cons.mp flags
    obtain ⟨t, first, led, matched, threads, raised, commits⟩ :=
      leading.serve member apart waits flag
    have ne : ∀ q ∈ rest, q ≠ p := fun q listed same => fresh (same ▸ listed)
    by_cases last : rest = []
    · subst last
      refine ⟨t, first, led, by simp [matched], fun q notP => ?_, commits⟩
      rw [matched, Function.update_of_ne (by simpa using notP)]
    · obtain ⟨u, second, led', all, others, commits⟩ := ih led last nodup members
        (fun q listed => by rw [threads q (ne q listed)]; exact later q listed)
        (fun q listed => by rw [raised q (ne q listed)]; exact flags q listed)
      refine ⟨u, first.trans second, led', List.forall_mem_cons.mpr ⟨?_, all⟩, ?_, commits⟩
      · rw [others p fresh, matched, Function.update_self]
      · intro q notIn
        rw [List.mem_cons, not_or] at notIn
        rw [others q notIn.2, matched, Function.update_of_ne notIn.1]

theorem commits (leading : Leading m Q v e s) (many : majority m.peers ≤ Q.card)
    (two : 2 ≤ majority m.peers)
    (waits : ∀ p ∈ Q, ((s.nodes v).appendEntriesThread p).point = .waiting)
    (flags : ∀ p, (s.nodes v).appendNow p = true) : ∃ t,
    Reaches (Cluster.step m) (Acts Q) s t ∧ Leading m Q v e t ∧
      e.index ≤ (t.nodes v).commitIndex := by
  have card := Finset.card_erase_of_mem leading.member
  have listed : ∀ p ∈ (Q.erase v).toList, p ∈ Q ∧ p ≠ v := fun p hp =>
    (Finset.mem_erase.mp (Finset.mem_toList.mp hp)).symm
  have some : (Q.erase v).toList ≠ [] := by
    rw [← List.length_pos_iff, Finset.length_toList]
    omega
  obtain ⟨t, reaches, led, all, -, commits⟩ := leading.serve_all some (Finset.nodup_toList _)
    listed (fun p hp => waits p (listed p hp).1) (fun p _ => flags p)
  refine ⟨t, reaches, led, commits (many.trans ?_)⟩
  refine Node.card_le_matchCount led.member led.group.inside fun q hq apart => ?_
  rw [all q (Finset.mem_toList.mpr (Finset.mem_erase.mpr ⟨apart, hq⟩))]

end Leading

structure Applies (v : PeerId) (s t : Cluster) : Prop where
  store : (t.nodes v).toStore = (s.nodes v).toStore
  commit : (t.nodes v).commitIndex = (s.nodes v).commitIndex
  role : (t.nodes v).role = (s.nodes v).role
  term : (t.nodes v).currentTerm = (s.nodes v).currentTerm

namespace Applies
variable {v : PeerId} {s t u : Cluster} {n : Node} {out : Output}

theorem trans (first : Applies v s t) (rest : Applies v t u) : Applies v s u where
  store := rest.store.trans first.store
  commit := rest.commit.trans first.commit
  role := rest.role.trans first.role
  term := rest.term.trans first.term

theorem of_node (store : n.toStore = (s.nodes v).toStore)
    (commit : n.commitIndex = (s.nodes v).commitIndex) (role : n.role = (s.nodes v).role)
    (term : n.currentTerm = (s.nodes v).currentTerm) : Applies v s (s.update v n out) := by
  constructor
  all_goals rw [Cluster.update_nodes_self]
  · exact store
  · exact commit
  · exact role
  · exact term

end Applies

namespace Node
variable (n : Node) (caller : ApplyCaller)

def handedOver (c : LogEntry) : Node :=
  { n with
    stateMachine := n.stateMachine ++ [.command c]
    applyThread := some (caller, .sent (n.lastApplied + 1)) }

def entered (rest : List ApplyCaller) (c : LogEntry) : Node :=
  { n with
    applyQueue := rest
    applyThread := some (caller, .sending (n.lastApplied + 1) c) }

theorem applyLoop_spec (stored : n.lastApplied < n.commitIndex →
      ∃ c, n.mainLog.atIndex (n.lastApplied + 1) = some c) :
    (n.applyLoop caller).1.toStore = n.toStore ∧
    (n.applyLoop caller).1.commitIndex = n.commitIndex ∧
    (n.applyLoop caller).1.lastApplied = n.lastApplied ∧
    (n.applyLoop caller).1.role = n.role ∧
    (n.applyLoop caller).1.currentTerm = n.currentTerm ∧
    (n.commitIndex ≤ n.lastApplied → (n.applyLoop caller).1.applyThread = none) ∧
    (n.lastApplied < n.commitIndex → ∃ c, (n.applyLoop caller).1.applyThread =
      some (caller, .sending (n.lastApplied + 1) c)) := by
  by_cases done : n.commitIndex ≤ n.lastApplied
  · rw [applyLoop, if_pos done, applyReturn]
    cases caller <;>
      exact ⟨rfl, rfl, rfl, rfl, rfl, fun _ => rfl, fun below => absurd below done.not_gt⟩
  · obtain ⟨c, found⟩ := stored (not_le.mp done)
    rw [applyLoop, if_neg done, found]
    exact ⟨rfl, rfl, rfl, rfl, rfl, fun le => absurd le done, fun _ => ⟨c, rfl⟩⟩

end Node

namespace Group
variable {m : Membership} {Q : Finset PeerId} {v : PeerId} {e : LogEntry} {s : Cluster}

theorem delivered (group : Group m Q s) (idle : (s.nodes v).applyThread = none)
    (stored : (s.nodes v).mainLog.atIndex e.index = some e)
    (applied : e.index ≤ (s.nodes v).lastApplied) : .command e ∈ (s.nodes v).stateMachine := by
  obtain ⟨h, g, decided, dec⟩ := group.sound
  have del := dec.serving.ordered v
  have given := dec.serving.given v
  have waits := del.snapshotThread_waiting (dec.free.node v).clear
  have length := del.idle idle (by simp [waits])
  rw [given.reached_eq del] at length
  obtain ⟨above, -, at_, -⟩ := (dec.rep.node v).atIndex_some stored
  have inside : e.index - 1 < (s.nodes v).stateMachine.length := by omega
  have same := List.prefix_iff_getElem?.mp given.channel _ inside
  rw [List.getElem?_map, at_, Option.map_some, Option.some.injEq] at same
  rw [same]
  exact List.getElem_mem inside

theorem round (group : Group m Q s) (member : v ∈ Q) {caller : ApplyCaller} {c : LogEntry}
    (at_ : (s.nodes v).applyThread = some (caller, .sending ((s.nodes v).lastApplied + 1) c)) :
    ∃ t, Reaches (Cluster.step m) (Acts Q) s t ∧ Applies v s t ∧
      (t.nodes v).lastApplied = (s.nodes v).lastApplied + 1 ∧
      ((t.nodes v).commitIndex ≤ (t.nodes v).lastApplied → (t.nodes v).applyThread = none) ∧
      ((t.nodes v).lastApplied < (t.nodes v).commitIndex → ∃ c, (t.nodes v).applyThread =
        some (caller, .sending ((t.nodes v).lastApplied + 1) c)) := by
  let n := (s.nodes v).handedOver caller c
  have sends : s.act m.peers (.applySend v true) = some (v, n, .nothing) := by
    simp only [Cluster.act, Node.applySend, at_, if_true, Option.map_some]
    rfl
  have first := group.act member sends rfl
  have group' := group.reaches first
  have here : (s.update v n .nothing).nodes v = n := Cluster.update_nodes_self _ _ _ _
  have locks : (s.update v n .nothing).act m.peers (.applyRelock v) =
      some (v, ({ n with lastApplied := (s.nodes v).lastApplied + 1 }).applyLoop caller) := by
    have sent : n.applyThread = some (caller, .sent ((s.nodes v).lastApplied + 1)) := rfl
    simp only [Cluster.act, here, Node.applyRelock, sent, Option.map_some]
  have commit := group'.commit_le v
  rw [here] at commit
  obtain ⟨store, committed, applied, role, term, done, more⟩ :=
    Node.applyLoop_spec { n with lastApplied := (s.nodes v).lastApplied + 1 } caller
      (fun below => by
        have found := group'.exists_stored (v := v) (Nat.succ_pos ((s.nodes v).lastApplied + 1))
          (by rw [here]; exact below.trans_le commit)
        rw [here] at found
        exact found)
  generalize ({ n with lastApplied := (s.nodes v).lastApplied + 1 }).applyLoop caller = x at *
  have second := group'.act member locks rfl
  have leaves : Applies v s (s.update v n .nothing) := .of_node rfl rfl rfl rfl
  have goes : Applies v (s.update v n .nothing) ((s.update v n .nothing).update v x.1 x.2) := by
    refine .of_node ?_ ?_ ?_ ?_
    all_goals rw [here]
    · exact store
    · exact committed
    · exact role
    · exact term
  refine ⟨_, first.trans second, leaves.trans goes, ?_, ?_, ?_⟩
  all_goals rw [Cluster.update_nodes_self, applied]
  · rw [committed]
    exact done
  · rw [committed]
    exact more

theorem applies_from (group : Group m Q s) (member : v ∈ Q) {caller : ApplyCaller} {c : LogEntry}
    (at_ : (s.nodes v).applyThread = some (caller, .sending ((s.nodes v).lastApplied + 1) c))
    (below : (s.nodes v).lastApplied < (s.nodes v).commitIndex) : ∃ t,
    Reaches (Cluster.step m) (Acts Q) s t ∧ Applies v s t ∧ (t.nodes v).applyThread = none ∧
      (t.nodes v).commitIndex ≤ (t.nodes v).lastApplied := by
  obtain ⟨left, far⟩ := Nat.exists_eq_add_of_lt below
  -- on what is left to apply: each round hands over one entry
  induction left generalizing s c with
  | zero =>
    obtain ⟨t, reaches, applies, next, done, -⟩ := group.round member at_
    have all : (t.nodes v).commitIndex ≤ (t.nodes v).lastApplied := by
      rw [applies.commit]
      omega
    exact ⟨t, reaches, applies, done all, all⟩
  | succ left ih =>
    obtain ⟨t, first, applies, next, -, more⟩ := group.round member at_
    have commit := applies.commit
    have below' : (t.nodes v).lastApplied < (t.nodes v).commitIndex := by omega
    obtain ⟨c', at_⟩ := more below'
    obtain ⟨u, later, applies', done⟩ := ih (group.reaches first) at_ below' (by omega)
    exact ⟨u, first.trans later, applies.trans applies', done⟩

end Group

theorem Leading.applies {m : Membership} {Q : Finset PeerId} {v : PeerId} {e : LogEntry}
    {s : Cluster} (leading : Leading m Q v e s) (committed : e.index ≤ (s.nodes v).commitIndex) :
    ∃ t, Reaches (Cluster.step m) (Acts Q) s t ∧ Applies v s t ∧
      .command e ∈ (t.nodes v).stateMachine := by
  have group := leading.group
  by_cases applied : e.index ≤ (s.nodes v).lastApplied
  · exact ⟨s, .refl s, ⟨rfl, rfl, rfl, rfl⟩, group.delivered leading.idle leading.stored applied⟩
  obtain ⟨caller, rest, queue⟩ := List.exists_cons_of_ne_nil
    (leading.uncounted.resolve_left committed.not_gt)
  have below : (s.nodes v).lastApplied < (s.nodes v).commitIndex := by omega
  obtain ⟨c, found⟩ := group.exists_stored (v := v) (Nat.succ_pos (s.nodes v).lastApplied)
    (below.trans_le (group.commit_le v))
  have enters : s.act m.peers (.applyEnter v 0) =
      some (v, (s.nodes v).entered caller rest c, .nothing) := by
    simp [Cluster.act, Node.applyEnter, leading.idle, queue, Node.applyCommittedEntries,
      Node.applyLoop, below.not_ge, (group.free.node v).clear, found, Node.entered]
  have first := group.act leading.member enters rfl
  have here := Cluster.update_nodes_self s v ((s.nodes v).entered caller rest c) .nothing
  obtain ⟨t, later, applies, idle, all⟩ := (group.reaches first).applies_from leading.member
    (by rw [here]; rfl) (by rw [here]; exact below)
  have enter : Applies v s (s.update v ((s.nodes v).entered caller rest c) .nothing) :=
    .of_node rfl rfl rfl rfl
  have leaves := enter.trans applies
  refine ⟨t, first.trans later, leaves, ?_⟩
  refine ((group.reaches first).reaches later).delivered idle ?_ ?_
  · rw [leaves.store, leading.stored]
  · rw [leaves.commit] at all
    exact committed.trans all

/-- From every state of a run without snapshots the live members `Q` of a majority can
commit any command and deliver it on their leader, in steps of their own: no crash,
message or timer of another node is needed or waited for. -/
theorem live_majority_commits {m : Membership} {actions : List Action}
    (calm : ∀ a ∈ actions, a.isSnapshot = false) {s : Cluster}
    (run : Cluster.run m actions = some s) {Q : Finset PeerId}
    (inside : ∀ q ∈ Q, q ∈ m.peers) (many : majority m.peers ≤ Q.card)
    (two : 2 ≤ m.peers.length) (alive : ∀ q ∈ Q, Alive (s.nodes q)) (command : Command) :
    ∃ t v e, Reaches (Cluster.step m) (Acts Q) s t ∧ v ∈ Q ∧ (t.nodes v).role = .leader ∧
      e.command = command ∧ e.term = (t.nodes v).currentTerm ∧
      e.index ≤ (t.nodes v).commitIndex ∧ .command e ∈ (t.nodes v).stateMachine := by
  have two : 2 ≤ majority m.peers := by
    have size := m.size_le
    rw [majority, clusterSize, Nat.mod_eq_of_lt (by omega)]
    omega
  have group := Group.of_run calm run inside alive
  obtain ⟨t₁, v, elects, member, leads, top⟩ := group.elects many two
  have group₁ := group.reaches elects
  obtain ⟨t₂, drains, eased, idle, empty⟩ := group₁.drain member
  have group₂ := group₁.reaches drains
  obtain ⟨t₃, rests, rested, waits⟩ := group₂.rest member (eased.role.trans leads) idle empty
    Q.toList
  have group₃ := group₂.reaches rests
  have top₃ : ∀ q ∈ Q, (t₃.nodes q).currentTerm ≤ (t₃.nodes v).currentTerm := by
    intro q hq
    by_cases same : q = v
    · rw [same]
    · rw [rested.others q same, eased.others q same, rested.term, eased.term]
      exact top q hq
  obtain ⟨t₄, e, takes, given, leading, threads, flags⟩ := group₃.takes_command member
    (rested.role.trans (eased.role.trans leads)) top₃ (by rw [rested.delivery, idle]) command
  obtain ⟨t₅, commits, leading₅, committed⟩ := leading.commits many two
    (fun p hp => by rw [threads p]; exact waits p (Finset.mem_toList.mpr hp)) flags
  obtain ⟨t₆, delivers, applies, delivered⟩ := leading₅.applies committed
  have path := (elects.trans (drains.trans rests)).trans (takes.trans (commits.trans delivers))
  refine ⟨t₆, v, e, path, member, applies.role.trans leading₅.leads, given, ?_, ?_, delivered⟩
  · rw [applies.term, leading₅.own]
  · rw [applies.commit]
    exact committed

theorem live_majority_commits_after_kill : ∃ s t v e,
    Cluster.run threePeers (winElection "a" "b" 0 ++ [.start "a" ⟨default, .noOp⟩, .kill "a"]) =
      some s ∧ (s.nodes "a").killed = true ∧
    Reaches (Cluster.step threePeers) (Acts {"b", "c"}) s t ∧
    v ∈ ({"b", "c"} : Finset PeerId) ∧ (t.nodes v).role = .leader ∧
    e.command = ⟨default, .size⟩ ∧ e.term = (t.nodes v).currentTerm ∧
    e.index ≤ (t.nodes v).commitIndex ∧ .command e ∈ (t.nodes v).stateMachine := by
  obtain ⟨s, run, dead, alive⟩ : ∃ s,
      Cluster.run threePeers (winElection "a" "b" 0 ++ [.start "a" ⟨default, .noOp⟩, .kill "a"]) =
        some s ∧ (s.nodes "a").killed = true ∧
      ∀ q ∈ ({"b", "c"} : Finset PeerId),
        (s.nodes q).killed = false ∧ (s.nodes q).terminated = false := by
    refine ⟨_, (Option.some_get (by decide +kernel)).symm, by decide +kernel, by decide +kernel⟩
  obtain ⟨t, v, e, reaches, found⟩ := live_majority_commits (by decide) run
    (Q := {"b", "c"}) (by decide) (by decide) (by decide)
    (fun q hq => ⟨(alive q hq).1, (alive q hq).2⟩) ⟨default, .size⟩
  exact ⟨s, t, v, e, run, dead, reaches, found⟩

/-- Nobody leads without another peer: a vote is counted only when it comes in as an
answer, the candidate's own is not enough even where it is a majority. -/
theorem leader_needs_majority {m : Membership} {actions : List Action} {s : Cluster}
    (run : Cluster.run m actions = some s) {v : PeerId} (leads : (s.nodes v).role = .leader) :
    majority m.peers ≤ m.peers.toFinset.card ∧ ∃ p ∈ m.peers, p ≠ v := by
  obtain ⟨h, runH⟩ := Cluster.exists_runHistory run
  have both : Electing m s h ∧
      ∀ v, (s.nodes v).role = .leader → ∃ p, p ∈ otherPeers m.peers v := by
    refine Cluster.history_invariant (fun _ _ => True)
      (fun s h => Electing m s h ∧
        ∀ v, (s.nodes v).role = .leader → ∃ p, p ∈ otherPeers m.peers v)
      ?_ Cluster.initial_synced ⟨Electing.initial m, ?_⟩ (along_always _ _) runH
    · rintro s h a v n out ⟨inv, before⟩ _ _ _ member move
      refine ⟨inv.step member move, Cluster.forall_nodes_update
        (P := fun v n => n.role = .leader → ∃ p, p ∈ otherPeers m.peers v) ?_
        fun u _ => before u⟩
      intro leads
      obtain ⟨-, led | ⟨p, call, _, at_, _⟩⟩ := move.leader_cases leads
      · exact before v led
      · exact ⟨p, ((inv.node v).calling p call at_).2.2.1⟩
    · intro v leads
      simp [Cluster.initial, Node.boot, Node.readPersist] at leads
  obtain ⟨voters, inside, many, -⟩ := (both.1.elected _ v ((both.1.node v).leads leads)).1
  obtain ⟨p, other⟩ := both.2 v leads
  exact ⟨many.trans (Finset.card_le_card inside), p, mem_otherPeers.mp other⟩

theorem leader_needs_majority_of_three : ∃ s,
    Cluster.run threePeers (winElection "a" "b" 0) = some s ∧ (s.nodes "a").role = .leader ∧
    majority threePeers.peers ≤ threePeers.peers.toFinset.card ∧
    ∃ p ∈ threePeers.peers, p ≠ "a" := by
  obtain ⟨s, run, leads⟩ : ∃ s, Cluster.run threePeers (winElection "a" "b" 0) = some s ∧
      (s.nodes "a").role = .leader := by
    refine ⟨_, (Option.some_get (by decide +kernel)).symm, by decide +kernel⟩
  exact ⟨s, run, leads, leader_needs_majority run leads⟩

end Zdb.Raft
