import Zdb.Contiguity

/-! The logical log behind a compacted one. In a run without gaps every node
stores exactly the part of its logical log after the snapshot point, the point
carries the term of the entry it stands for, and everything a leader puts into a
message is read off its logical log, but for one branch: a leader whose log is
fully compacted claims its snapshot term for an older position. -/

namespace Zdb.Raft
open TermLog LabelledRun

abbrev termOf (log : List LogEntry) (i : ℕ) : ℕ := termAt LogEntry.term log i

/-- A store holds `log` from the snapshot point on. -/
structure Represents (log : List LogEntry) (n : Node) : Prop where
  entries : n.mainLog.entries = log.drop n.lastIncludedIndex
  within : n.lastIncludedIndex ≤ log.length
  indexed : Consecutive 0 log
  term : n.lastIncludedTerm = termOf log n.lastIncludedIndex
  point : n.mainLog.lastIncludedIndex = n.lastIncludedIndex
  pointTerm : n.mainLog.lastIncludedTerm = n.lastIncludedTerm

namespace Represents
variable {log : List LogEntry} {n : Node}

theorem contiguous (r : Represents log n) : n.mainLog.Contiguous := by
  have moved := r.indexed.drop n.lastIncludedIndex
  rw [Nat.zero_add] at moved
  rw [Log.Contiguous, r.entries, r.point]
  exact moved

theorem length (r : Represents log n) :
    n.lastIncludedIndex + n.mainLog.entries.length = log.length := by
  have := r.within
  rw [r.entries, List.length_drop]
  omega

theorem lastIndex (r : Represents log n) : n.mainLog.lastIndex = log.length := by
  rw [r.contiguous.lastIndex, r.point, r.length]

theorem atIndex (r : Represents log n) (i : ℕ) :
    n.mainLog.atIndex i = if n.lastIncludedIndex < i then log[i - 1]? else none := by
  rw [r.contiguous.atIndex, r.point, r.entries]
  split_ifs with above
  · rw [List.getElem?_drop]
    congr 1
    omega
  · rfl

theorem atIndex_some (r : Represents log n) {i : ℕ} {e : LogEntry}
    (present : n.mainLog.atIndex i = some e) :
    n.lastIncludedIndex < i ∧ i ≤ log.length ∧ log[i - 1]? = some e ∧ e.term = termOf log i := by
  rw [r.atIndex] at present
  split_ifs at present with above
  have inside := (List.getElem?_eq_some_iff.mp present).1
  obtain ⟨j, rfl⟩ : ∃ j, i = j + 1 := ⟨i - 1, by omega⟩
  refine ⟨above, by omega, present, ?_⟩
  exact (termAt_succ LogEntry.term present).symm

theorem lastTerm (r : Represents log n) :
    n.mainLog.lastTerm = TermLog.lastTerm LogEntry.term log := by
  rw [Log.lastTerm]
  rcases List.eq_nil_or_concat n.mainLog.entries with empty | ⟨front, last, full⟩
  · have whole := r.length
    simp only [empty, List.getLast?_nil, List.length_nil, Nat.add_zero] at whole ⊢
    rw [r.pointTerm, r.term, whole, TermLog.lastTerm]
  · have whole := List.take_append_drop n.lastIncludedIndex log
    rw [← r.entries, full, List.concat_eq_append, ← List.append_assoc] at whole
    rw [← whole, lastTerm_append_singleton, full]
    simp

theorem take_append (r : Represents log n) :
    log.take n.lastIncludedIndex ++ n.mainLog.entries = log := by
  rw [r.entries, List.take_append_drop]

theorem of_base {base : List LogEntry} (indexed : Consecutive 0 base)
    (within : n.lastIncludedIndex ≤ base.length)
    (term : n.lastIncludedTerm = termOf base n.lastIncludedIndex)
    (shape : n.mainLog.Contiguous) (synced : n.Synced) :
    Represents (base.take n.lastIncludedIndex ++ n.mainLog.entries) n := by
  have front : (base.take n.lastIncludedIndex).length = n.lastIncludedIndex := by
    rw [List.length_take]
    omega
  have initial : base.take n.lastIncludedIndex <+:
      base.take n.lastIncludedIndex ++ n.mainLog.entries := List.prefix_append _ _
  refine ⟨?_, ?_, ?_, ?_, synced.index, synced.term⟩
  · rw [List.drop_append_of_le_length (by omega), List.drop_of_length_le (by omega),
      List.nil_append]
  · rw [List.length_append]
    omega
  · refine (indexed.take _).append ?_
    rw [front, Nat.zero_add]
    rw [Log.Contiguous, synced.index] at shape
    exact shape
  · have short := termAt_of_initial LogEntry.term (take_initial n.lastIncludedIndex base) front.ge
    exact term.trans (short.symm.trans (termAt_of_initial LogEntry.term initial front.ge))

theorem initial : Represents [] (Node.boot {}) := by
  constructor <;> simp [Node.boot, Node.readPersist, Log.clear, Log.merge, Log.setLastIncluded,
    Consecutive.nil]

end Represents

/-- The request says what the leader's log `led` holds: `prevLogTerm` is the term
at `prevLogIndex`, or the request is empty and claims the term of a later
entry. -/
structure Reads (led : List LogEntry) (arg : AppendEntriesArg) : Prop where
  within : arg.prevLogIndex + arg.entries.entries.length ≤ led.length
  entries : arg.entries.entries <+: led.drop arg.prevLogIndex
  term : arg.prevLogTerm = termOf led arg.prevLogIndex ∨ (arg.entries.entries = [] ∧
    ∃ j, arg.prevLogIndex < j ∧ j ≤ led.length ∧ arg.prevLogTerm = termOf led j)

theorem Reads.grow {led more : List LogEntry} {arg : AppendEntriesArg} (h : Reads led arg)
    (grows : led <+: more) : Reads more arg := by
  have longer := grows.length_le
  obtain ⟨within, entries, term⟩ := h
  refine ⟨within.trans longer, entries.trans (grows.drop _), ?_⟩
  rcases term with exact_ | ⟨empty, j, low, high, claimed⟩
  · exact Or.inl (exact_.trans (termAt_of_initial LogEntry.term grows (by omega)))
  · exact Or.inr ⟨empty, j, low, high.trans longer,
      claimed.trans (termAt_of_initial LogEntry.term grows high)⟩

/-- Nothing is claimed but the truth: the exact term and everything up to the
end. -/
structure Truthful (log : List LogEntry) (arg : AppendEntriesArg) : Prop where
  within : arg.prevLogIndex ≤ log.length
  entries : arg.entries.entries = log.drop arg.prevLogIndex
  term : arg.prevLogTerm = termOf log arg.prevLogIndex

theorem Truthful.reads {log : List LogEntry} {arg : AppendEntriesArg} (h : Truthful log arg) :
    Reads log arg := by
  obtain ⟨within, entries, term⟩ := h
  refine ⟨?_, entries ▸ List.prefix_rfl, Or.inl term⟩
  rw [entries, List.length_drop]
  omega

/-- The log is fully compacted and the peer is behind the snapshot point. -/
def Node.compactedPast (n : Node) (peer : PeerId) : Prop :=
  n.mainLog.entries = [] ∧ n.nextIndex peer ≤ n.lastIncludedIndex

section Build
variable {log : List LogEntry} {n : Node} {v peer : PeerId} {a : Action} {arg : AppendEntriesArg}

theorem Represents.prevLogTerm (r : Represents log n) {snap : Bool} {i t : ℕ}
    (above : n.lastIncludedIndex ≤ i) (inside : i ≤ log.length)
    (claimed : n.prevLogTerm snap i = some t) : t = termOf log i := by
  rw [Node.prevLogTerm] at claimed
  cases found : n.mainLog.atIndex i with
  | some e =>
    simp only [found, Option.some.injEq] at claimed
    rw [← claimed]
    exact (r.atIndex_some found).2.2.2
  | none =>
    have here : i = n.lastIncludedIndex := by
      rw [r.atIndex] at found
      split_ifs at found with more
      · have := List.getElem?_eq_none_iff.mp found
        omega
      · omega
    subst here
    simpa [found, r.term] using claimed.symm

theorem Builds.truthful (builds : Builds v n a peer arg) (r : Represents log n)
    (next : n.nextIndex peer ≤ log.length + 1) (pos : 1 ≤ n.nextIndex peer)
    (plain : ¬ n.compactedPast peer) :
    Truthful log arg ∧ n.lastIncludedIndex ≤ arg.prevLogIndex := by
  obtain ⟨snap, t, claimed, rfl, _⟩ := builds.built
  have within := r.within
  have bounds : n.lastIncludedIndex + 1 ≤ n.sendFrom peer ∧ n.sendFrom peer ≤ log.length + 1 := by
    have first := r.contiguous.firstIndex
    rw [r.point] at first
    rw [Node.compactedPast] at plain
    rw [Node.sendFrom, first]
    by_cases empty : n.mainLog.entries = []
    · simp only [empty, true_and, not_le] at plain
      simp only [empty, if_true]
      split_ifs <;> omega
    · simp only [empty, if_false]
      split_ifs <;> omega
  refine ⟨⟨by simp only [Node.argFor]; omega, ?_, ?_⟩, by simp only [Node.argFor]; omega⟩
  · simp only [Node.argFor, Log.ofEntries, Log.data]
    rw [r.contiguous.suffix, r.point, if_pos (by omega), r.entries, List.drop_drop]
    congr 1
    omega
  · exact r.prevLogTerm (by simp only [Node.argFor]; omega) (by simp only [Node.argFor]; omega)
      claimed

theorem Builds.reads (builds : Builds v n a peer arg) (r : Represents log n)
    (next : n.nextIndex peer ≤ log.length + 1) (pos : 1 ≤ n.nextIndex peer) : Reads log arg := by
  by_cases past : n.compactedPast peer
  · obtain ⟨snap, t, claimed, rfl, _⟩ := builds.built
    obtain ⟨empty, behind⟩ := past
    have whole := r.length
    have from_ : n.sendFrom peer = n.nextIndex peer := by
      rw [Node.sendFrom, r.contiguous.firstIndex]
      simp [empty]
    rw [from_] at claimed ⊢
    simp only [empty, List.length_nil, Nat.add_zero] at whole
    have nothing : (n.argFor v (n.nextIndex peer) t).entries.entries = [] := by
      simp only [Node.argFor, Log.ofEntries, Log.data]
      rw [r.contiguous.suffix, r.point, if_neg (by omega)]
    have absent : n.mainLog.atIndex (n.nextIndex peer - 1) = none := by
      rw [r.atIndex, if_neg (by omega)]
    have t_eq : t = n.lastIncludedTerm := by
      have low : n.nextIndex peer - 1 ≤ n.lastIncludedIndex := by omega
      simpa [Node.prevLogTerm, absent, low] using claimed.symm
    refine ⟨?_, by rw [nothing]; exact List.nil_prefix, Or.inr ⟨nothing, n.lastIncludedIndex, ?_,
      whole.le, ?_⟩⟩
    · rw [nothing]
      simp only [Node.argFor, List.length_nil]
      omega
    · simp only [Node.argFor]
      omega
    · exact t_eq.trans r.term
  · exact (builds.truthful r next pos past).1.reads

end Build

structure Logical (s : Cluster) (h : History) : Prop where
  node : ∀ v, Represents (h.log v) (s.nodes v)
  leads : ∀ v, (s.nodes v).role = .leader → h.led (s.nodes v).currentTerm = h.log v
  vacant : ∀ T, h.leader T = none → h.led T = []
  indexed : ∀ T, Consecutive 0 (h.led T)
  next : ∀ v p, (s.nodes v).role = .leader → (s.nodes v).nextIndex p ≤ (h.log v).length + 1
  sent : ∀ arg, Prepared s arg → Reads (h.led arg.term) arg
  install : ∀ c ∈ s.network.installCalls,
    c.arg.lastIncludedIndex ≤ (h.led c.arg.term).length ∧
      c.arg.lastIncludedTerm = termOf (h.led c.arg.term) c.arg.lastIncludedIndex

section NewLog
variable {h : History} {v : PeerId} {n n' : Node} {out : Output}

theorem History.newLog_frame (r : Represents (h.log v) n)
    (entries : n'.mainLog.entries = n.mainLog.entries)
    (point : n'.lastIncludedIndex = n.lastIncludedIndex) (base : h.base v out = h.log v) :
    h.newLog v n' out = h.log v := by
  rw [History.newLog, base, entries, point, r.take_append]

theorem History.base_rejects (rejects : out.Rejects) : h.base v out = h.log v := by
  cases out with
  | installSnapshotAnswer x =>
    simp only [Output.Rejects] at rejects
    simp [History.base, rejects]
  | _ => rfl

theorem History.newLog_compact (r : Represents (h.log v) n) {index term : ℕ}
    (log : n'.mainLog = n.mainLog.trimPrefix index term) (point : n'.lastIncludedIndex = index)
    (above : n.lastIncludedIndex < index) : h.newLog v n' .nothing = h.log v := by
  simp only [History.newLog, History.base]
  rw [log, point, r.contiguous.trimPrefix, r.point, if_pos above, r.entries, List.drop_drop,
    Nat.add_sub_cancel' above.le, List.take_append_drop]

theorem History.newLog_append (r : Represents (h.log v) n) {e : LogEntry}
    (entries : n'.mainLog.entries = n.mainLog.entries ++ [e])
    (point : n'.lastIncludedIndex = n.lastIncludedIndex) :
    h.newLog v n' .nothing = h.log v ++ [e] := by
  simp only [History.newLog, History.base]
  rw [entries, point, ← List.append_assoc, r.take_append]

end NewLog

section Step
variable {m : Membership} {s : Cluster} {h : History} {v : PeerId} {n' : Node} {a : Action}
  {out : Output}

theorem Logical.gapless (inv : Logical s h) : Gapless s where
  node v := (inv.node v).contiguous
  sent arg ready := by
    have moved := (inv.indexed arg.term).drop arg.prevLogIndex
    rw [Nat.zero_add] at moved
    exact moved.initial (inv.sent arg ready).entries

theorem Logical.node_step (inv : Logical s h) (synced : ∀ u, (s.nodes u).Synced)
    (inStep : n'.Synced) (ok : mergesInPlace s a = true)
    (move : Move m.peers s.network v (s.nodes v) a n' out) :
    Represents (h.newLog v n' out) n' := by
  have shape : n'.mainLog.Contiguous := by
    simpa using (inv.gapless.step synced ok move).node v
  have r := inv.node v
  have frame : h.base v out = h.log v → n'.lastIncludedIndex = (s.nodes v).lastIncludedIndex →
      n'.lastIncludedTerm = (s.nodes v).lastIncludedTerm →
      Represents (h.newLog v n' out) n' := by
    intro base point term
    rw [History.newLog, base]
    exact Represents.of_base r.indexed (point ▸ r.within) (by rw [term, point, r.term]) shape
      inStep
  cases move with
  | quiet a control t r' out idles hears rejects =>
    exact frame (History.base_rejects rejects) rfl rfl
  | adopt a T control t r' out later idles hears rejects =>
    exact frame (History.base_rejects rejects) rfl rfl
  | accept k call control d out found here current clear accepts success follows =>
    cases follows <;> exact frame rfl rfl rfl
  | install k call control found here current clear success =>
    obtain ⟨within, term⟩ := inv.install call (List.mem_of_getElem? found)
    exact Represents.of_base (inv.indexed _) within term shape inStep
  | compact index data e control clear above within present =>
    obtain ⟨_, inside, _, term⟩ := r.atIndex_some present
    exact Represents.of_base r.indexed inside term shape inStep
  | deliverReturn a d caller delivers => cases caller <;> exact frame rfl rfl rfl
  | _ => exact frame rfl rfl rfl

theorem Logical.leader_grows (inv : Logical s h) (votes : Electing m s h)
    (msgs : Messaging m s h) (move : Move m.peers s.network v (s.nodes v) a n' out)
    (led : (s.nodes v).role = .leader) (leads : n'.role = .leader) :
    h.log v <+: h.newLog v n' out := by
  have r := inv.node v
  have frame : h.newLog v n' out = h.log v → h.log v <+: h.newLog v n' out := fun same =>
    same ▸ List.prefix_rfl
  have now := (move.leader_cases leads).1
  cases move with
  | quiet a control t r' out idles hears rejects =>
    exact frame (History.newLog_frame r rfl rfl (History.base_rejects rejects))
  | adopt => cases leads
  | accept => cases leads
  | install k call control found here current =>
    obtain ⟨_, other, sender⟩ := msgs.install call (List.mem_of_getElem? found)
    exact absurd led (votes.not_leader sender (here ▸ other) now)
  | propose command =>
    refine ⟨[⟨(s.nodes v).mainLog.lastIndex + 1, (s.nodes v).currentTerm, command⟩], Eq.symm ?_⟩
    exact History.newLog_append r rfl rfl
  | compact index data e control clear above =>
    exact frame (History.newLog_compact r rfl rfl above)
  | deliverReturn a d caller delivers =>
    cases caller <;> exact frame (History.newLog_frame r rfl rfl rfl)
  | _ => exact frame (History.newLog_frame r rfl rfl rfl)

theorem Logical.led_grows (inv : Logical s h) (votes : Electing m s h) (msgs : Messaging m s h)
    (member : v ∈ m.peers) (move : Move m.peers s.network v (s.nodes v) a n' out) (T : ℕ) :
    h.led T <+: (h.record v n' out).led T := by
  by_cases here : n'.role = .leader ∧ T = n'.currentTerm
  · obtain ⟨leads, rfl⟩ := here
    rw [History.record_led_of_leader leads]
    rcases votes.leader_step member move leads with old | ⟨open_, _⟩
    · obtain ⟨now, led | ⟨_, _, _, _, _, _, candidate, _⟩⟩ := move.leader_cases leads
      · rw [now, inv.leads v led]
        exact inv.leader_grows votes msgs move led leads
      · rw [now] at old
        exact absurd old ((votes.node v).stands candidate).2.2.2
    · rw [inv.vacant _ open_]
      exact List.nil_prefix
  · rw [History.record_led_ne (by tauto)]

theorem Logical.next_step (inv : Logical s h) (votes : Electing m s h) (msgs : Messaging m s h)
    (move : Move m.peers s.network v (s.nodes v) a n' out) (leads : n'.role = .leader)
    (p : PeerId) : n'.nextIndex p ≤ (h.newLog v n' out).length + 1 := by
  have r := inv.node v
  obtain ⟨now, led | ⟨_, _, _, _, _, _, candidate, _⟩⟩ := move.leader_cases leads
  · have longer := (inv.leader_grows votes msgs move led leads).length_le
    have before := fun p => inv.next v p led
    have kept : n'.nextIndex = (s.nodes v).nextIndex →
        n'.nextIndex p ≤ (h.newLog v n' out).length + 1 := by
      intro same
      rw [same]
      exact (before p).trans (by omega)
    have moved : ∀ peer k, n'.nextIndex = Function.update (s.nodes v).nextIndex peer k →
        k ≤ (h.log v).length + 1 → n'.nextIndex p ≤ (h.newLog v n' out).length + 1 := by
      intro peer k new bound
      rw [new]
      by_cases same : p = peer
      · subst same
        rw [Function.update_self]
        omega
      · rw [Function.update_of_ne same]
        exact (before p).trans (by omega)
    have ended : ∀ peer call next, ((s.nodes v).appendEntriesThread peer).point =
        .appending call next → call.arg.term = (s.nodes v).currentTerm →
        next + call.arg.entries.data.length ≤ (h.log v).length + 1 := by
      intro peer call next at_ current
      obtain ⟨sent, _, _, rfl⟩ := (msgs.node v).appending peer call next at_
      have reads := (inv.sent _ (Or.inl ⟨call, sent, rfl⟩)).within
      rw [current, inv.leads v led] at reads
      simp only [Log.data]
      omega
    cases move with
    | elect peer k call answer control at_ answered own candidate =>
      rw [led] at candidate
      contradiction
    | installed peer k transport call arg next at_ leads current =>
      exact moved peer _ rfl (by have := r.within; omega)
    | acknowledged peer k unset call next answer control at_ answered own leads success current =>
      exact moved peer _ rfl (ended peer call next at_ current)
    | commit peer k unset call next answer i mid at_ answered own leads success current =>
      exact moved peer _ rfl (ended peer call next at_ current)
    | backUp peer k unset call next control conflictTerm conflictIndex =>
      refine moved peer _ rfl ?_
      rw [← r.lastIndex]
      simp only [Node.backUp]
      split_ifs <;> omega
    | reboot => cases leads
    | deliverReturn a d caller delivers => cases caller <;> exact kept rfl
    | _ => exact kept rfl
  · cases move with
    | elect peer k call answer control =>
      change (s.nodes v).mainLog.lastIndex + 1 ≤ _
      rw [r.lastIndex]
      exact Nat.le_of_eq (congrArg (fun log => log.length + 1)
        (History.newLog_frame r rfl rfl rfl)).symm
    | deliverReturn a d caller delivers => cases caller <;> (rw [candidate] at leads; contradiction)
    | install k call control found here current =>
      replace now : call.arg.term = (s.nodes v).currentTerm := now
      replace leads : (s.nodes v).roleIn call.arg.term = .leader := leads
      rw [Node.roleIn_same now.le, candidate] at leads
      contradiction
    | _ => simp_all

theorem Logical.step (inv : Logical s h) (votes : Electing m s h) (msgs : Messaging m s h)
    (synced : ∀ u, (s.nodes u).Synced) (inStep : n'.Synced) (ok : mergesInPlace s a = true)
    (member : v ∈ m.peers) (move : Move m.peers s.network v (s.nodes v) a n' out) :
    Logical (s.update v n' out) (h.record v n' out) := by
  have mine := inv.node_step synced inStep ok move
  have grows := inv.led_grows votes msgs member move
  have past := votes.extends_record member move
  refine ⟨?_, ?_, ?_, ?_, ?_, ?_, ?_⟩
  · refine Cluster.forall_nodes_update
      (P := fun u n => Represents ((h.record v n' out).log u) n) ?_ ?_
    · rw [History.record_log_self]
      exact mine
    · intro u apart
      rw [History.record_log_ne apart]
      exact inv.node u
  · refine Cluster.forall_nodes_update (P := fun u n => n.role = .leader →
      (h.record v n' out).led n.currentTerm = (h.record v n' out).log u) ?_ ?_
    · intro leads
      rw [History.record_led_of_leader leads, History.record_log_self]
    · intro u apart leads
      have ledU := (votes.node u).leads leads
      have other : n'.role ≠ .leader ∨ (s.nodes u).currentTerm ≠ n'.currentTerm := by
        by_contra both
        push Not at both
        have ledV : (h.record v n' out).leader n'.currentTerm = some v :=
          History.record_leader_of_leader both.1
        rw [← both.2, past.leader _ _ ledU] at ledV
        exact apart (Option.some.inj ledV)
      rw [History.record_led_ne other, History.record_log_ne apart]
      exact inv.leads u leads
  · intro T open_
    have other : n'.role ≠ .leader ∨ T ≠ n'.currentTerm := by
      by_contra both
      push Not at both
      rw [both.2, History.record_leader_of_leader both.1] at open_
      contradiction
    rw [History.record_led_ne other]
    rw [History.record_leader_ne other] at open_
    exact inv.vacant T open_
  · intro T
    by_cases here : n'.role = .leader ∧ T = n'.currentTerm
    · obtain ⟨leads, rfl⟩ := here
      rw [History.record_led_of_leader leads]
      exact mine.indexed
    · rw [History.record_led_ne (by tauto)]
      exact inv.indexed T
  · refine Cluster.forall_nodes_update (P := fun u n => ∀ p, n.role = .leader →
      n.nextIndex p ≤ ((h.record v n' out).log u).length + 1) ?_ ?_
    · intro p leads
      rw [History.record_log_self]
      exact inv.next_step votes msgs move leads p
    · intro u apart p leads
      rw [History.record_log_ne apart]
      exact inv.next u p leads
  · intro arg ready
    rcases ready.of_update move with old | ⟨peer, builds⟩
    · exact (inv.sent arg old).grow (grows _)
    · have reads := builds.reads (inv.node v) (inv.next v peer builds.leads)
        ((msgs.node v).next_pos peer)
      obtain ⟨_, t, _, rfl, _⟩ := builds.built
      have here := grows (s.nodes v).currentTerm
      rw [inv.leads v builds.leads] at here
      exact reads.grow here
  · intro c sent
    rcases Network.mem_installCalls_emit sent with old | new
    · obtain ⟨within, term⟩ := inv.install c old
      have longer := (grows c.arg.term).length_le
      exact ⟨within.trans longer,
        term.trans (termAt_of_initial LogEntry.term (grows c.arg.term) within)⟩
    · obtain ⟨_, _, leads, _, term, index, pointTerm, _⟩ := move.installSnapshot_out new
      have r := inv.node v
      have here := grows c.arg.term
      rw [term, inv.leads v leads] at here
      rw [index, pointTerm, term]
      exact ⟨r.within.trans here.length_le,
        r.term.trans (termAt_of_initial LogEntry.term here r.within)⟩

theorem Logical.initial : Logical Cluster.initial {} where
  node _ := Represents.initial
  leads := by simp [Cluster.initial, Node.boot, Node.readPersist]
  vacant _ _ := rfl
  indexed _ := Consecutive.nil 0
  next := by simp [Cluster.initial, Node.boot, Node.readPersist]
  sent := by
    rintro arg (⟨c, sent, _⟩ | ⟨v, p, call, next, at_⟩)
    · simp [Cluster.initial] at sent
    · simp [Cluster.initial, Node.boot, Node.readPersist] at at_
  install := by simp [Cluster.initial]

end Step

theorem Cluster.runHistory_logical {m : Membership} {actions : List Action} {s : Cluster}
    {h : History}
    (good : Along (Cluster.step m) (fun s a => mergesInPlace s a = true) Cluster.initial actions)
    (run : Cluster.runHistory m actions = some (s, h)) :
    Electing m s h ∧ Messaging m s h ∧ Logical s h := by
  refine Cluster.history_invariant _ (fun s h => Electing m s h ∧ Messaging m s h ∧ Logical s h) ?_
    Cluster.initial_synced ⟨Electing.initial m, Messaging.initial m, Logical.initial⟩ good run
  rintro s h a v n out ⟨votes, msgs, logs⟩ synced inStep ok member move
  exact ⟨votes.step member move, msgs.step votes member move,
    logs.step votes msgs synced inStep ok member move⟩

/-- Every AppendEntries argument a leader builds in a run without gaps describes
its logical log, unless its log is fully compacted and the peer is behind the
snapshot point; and it asks such a peer to install the snapshot first. -/
theorem appendEntries_describes_log {m : Membership} {actions : List Action} {s : Cluster}
    {h : History}
    (good : Along (Cluster.step m) (fun s a => mergesInPlace s a = true) Cluster.initial actions)
    (run : Cluster.runHistory m actions = some (s, h)) {v peer : PeerId} {n : Node} {out : Output}
    (built : s.act m.peers (.appendEntries v peer) = some (v, n, out))
    (plain : ¬ (s.nodes v).compactedPast peer) :
    (h.log v).length = (s.nodes v).mainLog.lastIndex ∧
    (∀ call, out = .appendEntries call → Truthful (h.log v) call.arg ∧
      (s.nodes v).lastIncludedIndex < (s.nodes v).nextIndex peer) ∧
    (∀ call, out = .installSnapshot call → ∃ arg next,
      (n.appendEntriesThread peer).point = .installing call arg next ∧
        Truthful (h.log v) arg) := by
  obtain ⟨_, msgs, logs⟩ := Cluster.runHistory_logical good run
  have move := Cluster.act_move (Cluster.run_synced (Cluster.run_of_runHistory run)) built
  have r := logs.node v
  have truthful : ∀ arg, Builds v (s.nodes v) (.appendEntries v peer) peer arg →
      Truthful (h.log v) arg := fun arg builds =>
    (builds.truthful r (logs.next v peer builds.leads) ((msgs.node v).next_pos peer) plain).1
  refine ⟨r.lastIndex.symm, fun call sent => ?_, fun call sent => ?_⟩
  · cases move with
    | sendAppend peer t other leads at_ fresh ahead term =>
      cases sent
      have from_ : (s.nodes v).sendFrom peer = (s.nodes v).nextIndex peer := if_neg ahead.not_gt
      refine ⟨truthful _ ⟨rfl, leads, false, t, from_ ▸ term, by rw [from_], fun _ => ahead⟩, ?_⟩
      by_contra behind
      have first := r.contiguous.firstIndex
      rw [r.point] at first
      by_cases empty : (s.nodes v).mainLog.entries = []
      · exact plain ⟨empty, not_lt.mp behind⟩
      · simp only [empty, if_false] at first
        omega
    | quiet a control t r' out idles hears rejects => subst sent; exact rejects.elim
    | adopt a T control t r' out later idles hears rejects => subst sent; exact rejects.elim
    | deliverReturn a d caller delivers => cases delivers
    | _ => cases sent
  · cases move with
    | sendInstall peer t next call' other leads at_ next_eq needed term made =>
      cases sent
      refine ⟨(s.nodes v).argFor v next t, next, by simp [Node.setPoint],
        truthful _ ⟨rfl, leads, true, t, ?_, ?_, by simp⟩⟩
      · rwa [Node.sendFrom, ← next_eq]
      · rw [Node.sendFrom, ← next_eq]
    | quiet a control t r' out idles hears rejects => subst sent; exact rejects.elim
    | adopt a T control t r' out later idles hears rejects => subst sent; exact rejects.elim
    | deliverReturn a d caller delivers => cases delivers
    | _ => cases sent

def compactedLeader : List Action :=
  winElection "a" "b" 0 ++ [.start "a" ⟨default, .noOp⟩] ++ commitOne "a" "b" 0 ++
    [.snapshot "a" 1 [1]]

theorem appendEntries_describes_log_caught_up : ∃ s h n call,
    Cluster.runHistory threePeers (compactedLeader ++ [.heartbeat "a"]) = some (s, h) ∧
    s.act threePeers.peers (.appendEntries "a" "b") = some ("a", n, .appendEntries call) ∧
    (h.log "a").length = (s.nodes "a").mainLog.lastIndex ∧ Truthful (h.log "a") call.arg := by
  have good : Along (Cluster.step threePeers) (fun s a => mergesInPlace s a = true)
      Cluster.initial (compactedLeader ++ [.heartbeat "a"]) := by decide +kernel
  obtain ⟨s, h, run, sends, ahead⟩ : ∃ s h,
      Cluster.runHistory threePeers (compactedLeader ++ [.heartbeat "a"]) = some (s, h) ∧
      (s.act threePeers.peers (.appendEntries "a" "b")).map (fun x => (x.1, x.2.2)) =
        some ("a", .appendEntries ⟨1, "a", "b", "a", 1, 1, 1, 1, {}⟩) ∧
      ¬ (s.nodes "a").nextIndex "b" ≤ (s.nodes "a").lastIncludedIndex := by
    refine ⟨_, _, (Option.some_get (by decide +kernel)).symm, by decide +kernel,
      by decide +kernel⟩
  obtain ⟨⟨_, n, _⟩, built, same⟩ := Option.map_eq_some_iff.mp sends
  cases same
  have described := appendEntries_describes_log good run built (fun past => ahead past.2)
  exact ⟨s, h, n, _, run, built, described.1, (described.2.1 _ rfl).1⟩

/-- The leader tells `c` that position 0 has term 1 and sends neither the
snapshot nor entry 1, which it has compacted. -/
theorem appendEntries_misstates_log : ∃ s h n call,
    Cluster.runHistory threePeers compactedLeader = some (s, h) ∧
    Along (Cluster.step threePeers) (fun s a => snapshotsApplied s a = true) Cluster.initial
      compactedLeader ∧
    s.act threePeers.peers (.appendEntries "a" "c") = some ("a", n, .appendEntries call) ∧
    call.arg.prevLogTerm ≠ termOf (h.log "a") call.arg.prevLogIndex ∧
    call.arg.entries.entries ≠ (h.log "a").drop call.arg.prevLogIndex ∧
    (s.nodes "a").nextIndex "c" ≤ (s.nodes "a").lastIncludedIndex := by
  obtain ⟨s, h, run, sends, term, entries, behind⟩ : ∃ s h,
      Cluster.runHistory threePeers compactedLeader = some (s, h) ∧
      (s.act threePeers.peers (.appendEntries "a" "c")).map (fun x => (x.1, x.2.2)) =
        some ("a", .appendEntries ⟨1, "a", "c", "a", 1, 0, 1, 1, {}⟩) ∧
      1 ≠ termOf (h.log "a") 0 ∧ [] ≠ (h.log "a").drop 0 ∧
      (s.nodes "a").nextIndex "c" ≤ (s.nodes "a").lastIncludedIndex := by
    refine ⟨_, _, (Option.some_get (by decide +kernel)).symm, by decide +kernel,
      by decide +kernel, by decide +kernel, by decide +kernel⟩
  obtain ⟨⟨_, n, _⟩, built, same⟩ := Option.map_eq_some_iff.mp sends
  cases same
  exact ⟨s, h, n, _, run, by decide +kernel, built, term, entries, behind⟩

end Zdb.Raft
