import Zdb.Persistence

/-! What one step can do to the node that runs, branch by branch. Every
invariant of whole runs is derived from this list, not from the code again. A
move that leaves the outcome of a branch open (flags, saved copies, who hears a
rejection) covers several branches that differ in nothing else. -/

namespace Zdb.Raft

def Output.Rejects : Output → Prop
  | .nothing => True
  | .requestVoteAnswer a => a.reply.voteGranted = false
  | .appendEntriesAnswer a => a.reply.success = false
  | .installSnapshotAnswer a => a.reply.success = false
  | _ => False

def Idles (before after : PeerId → AppendEntriesThread) : Prop :=
  ∀ p, after p = before p ∨ after p = { before p with point := .waiting }

def Hears (before after : PeerId → RequestVoteThread) : Prop :=
  ∀ p, after p = before p ∨ after p = .waiting

def Node.voteIn (n : Node) (T : ℕ) : Option PeerId :=
  if n.currentTerm < T then none else n.votedFor

def Node.roleIn (n : Node) (T : ℕ) : Role :=
  if n.currentTerm < T then .follower else n.role

/-- Moves between log and state machine. The last argument is the caller that
returns from `applyCommittedEntries`, if one does. -/
inductive Delivers (v : PeerId) (n : Node) : Action → Delivery → Option ApplyCaller → Prop
  | enterReturn (k caller) (free : n.applyThread = none)
      (queued : n.applyQueue[k]? = some caller) :
      Delivers v n (.applyEnter v k)
        { n.toDelivery with applyQueue := n.applyQueue.eraseIdx k, applyThread := none }
        (some caller)
  | enterSend (k caller c) (free : n.applyThread = none)
      (queued : n.applyQueue[k]? = some caller) (behind : n.lastApplied < n.commitIndex)
      (clear : n.pendingSnapshot = false)
      (present : n.mainLog.atIndex (n.lastApplied + 1) = some c) :
      Delivers v n (.applyEnter v k)
        { n.toDelivery with
          applyQueue := n.applyQueue.eraseIdx k
          applyThread := some (caller, .sending (n.lastApplied + 1) c) } none
  | sendOk (caller i c) (at_ : n.applyThread = some (caller, .sending i c)) :
      Delivers v n (.applySend v true)
        { n.toDelivery with
          stateMachine := n.stateMachine ++ [.command c]
          applyThread := some (caller, .sent i) } none
  | sendFail (caller i c) (at_ : n.applyThread = some (caller, .sending i c)) :
      Delivers v n (.applySend v false) { n.toDelivery with applyThread := none } (some caller)
  | relockReturn (caller i) (at_ : n.applyThread = some (caller, .sent i)) :
      Delivers v n (.applyRelock v)
        { n.toDelivery with lastApplied := i, applyThread := none } (some caller)
  | relockSend (caller i c) (at_ : n.applyThread = some (caller, .sent i))
      (behind : i < n.commitIndex) (present : n.mainLog.atIndex (i + 1) = some c) :
      Delivers v n (.applyRelock v)
        { n.toDelivery with
          lastApplied := i
          applyThread := some (caller, .sending (i + 1) c) } none
  | take (at_ : n.snapshotThread = .waiting) (pending : n.pendingSnapshot = true) :
      Delivers v n (.snapshotTake v)
        { n.toDelivery with
          snapshotThread := .sending n.lastIncludedIndex n.lastIncludedTerm n.snapshotData } none
  | handOver (index term data) (at_ : n.snapshotThread = .sending index term data) :
      Delivers v n (.snapshotSend v true)
        { n.toDelivery with
          stateMachine := n.stateMachine ++ [.snapshot index term data]
          snapshotThread := .sent index term } none
  | giveUp (index term data) (at_ : n.snapshotThread = .sending index term data) :
      Delivers v n (.snapshotSend v false) { n.toDelivery with snapshotThread := .waiting } none
  | installed (at_ : n.snapshotThread = .sent n.lastIncludedIndex n.lastIncludedTerm) :
      Delivers v n (.snapshotRelock v)
        { n.toDelivery with
          lastApplied := n.lastIncludedIndex
          commitIndex := n.lastIncludedIndex
          pendingSnapshot := false
          snapshotThread := .waiting } none
  | overtaken (index term) (at_ : n.snapshotThread = .sent index term)
      (differ : ¬ (n.lastIncludedIndex = index ∧ n.lastIncludedTerm = term)) :
      Delivers v n (.snapshotRelock v) { n.toDelivery with snapshotThread := .waiting } none

inductive Follows (n : Node) (call : Call AppendEntriesArg) : Delivery → Output → Prop
  | stay (low : call.arg.leaderCommit ≤ n.commitIndex) :
      Follows n call n.toDelivery
        (.appendEntriesAnswer ⟨call, { success := true, term := call.arg.term }⟩)
  | raise (high : n.commitIndex < call.arg.leaderCommit) :
      Follows n call
        { n.toDelivery with
          commitIndex := min call.arg.leaderCommit (n.mainLog.merge call.arg.entries).lastIndex
          applyQueue := n.applyQueue ++
            [.handler call { success := true, term := call.arg.term }] }
        .nothing

def Node.argFor (n : Node) (v : PeerId) (next prevLogTerm : ℕ) : AppendEntriesArg :=
  ⟨v, n.currentTerm, next - 1, prevLogTerm, n.commitIndex, .ofEntries (n.mainLog.suffix next).data⟩

inductive Move (peers : List PeerId) (net : Network) (v : PeerId) (n : Node) :
    Action → Node → Output → Prop
  | quiet (a control t r out) (idles : Idles n.appendEntriesThread t)
      (hears : Hears n.requestVoteThread r) (rejects : Output.Rejects out) :
      Move peers net v n a
        { n with toControl := control, appendEntriesThread := t, requestVoteThread := r } out
  | adopt (a T control t r out) (later : n.currentTerm < T)
      (idles : Idles n.appendEntriesThread t) (hears : Hears n.requestVoteThread r)
      (rejects : Output.Rejects out) :
      Move peers net v n a
        { n with
          role := .follower, currentTerm := T, votedFor := none
          toControl := control, appendEntriesThread := t, requestVoteThread := r } out
  | campaign (control) (standing : n.role ≠ .leader) :
      Move peers net v n (.initVote v true)
        { n with
          role := .candidate, currentTerm := n.currentTerm + 1, votedFor := some v
          requestVoteArg :=
            ⟨v, n.currentTerm + 1, n.mainLog.lastIndex, n.mainLog.lastTerm⟩
          votesGranted := 1, shouldStartElection := fun _ => true, toControl := control } .nothing
  | ask (peer) (other : peer ∈ otherPeers peers v)
      (at_ : n.requestVoteThread peer = .waiting) (candidate : n.role = .candidate)
      (flag : n.shouldStartElection peer = true) :
      Move peers net v n (.requestVote v peer)
        { n with
          shouldStartElection := Function.update n.shouldStartElection peer false
          requestVoteThread := Function.update n.requestVoteThread peer
            (.calling ⟨net.voteCalls.length, v, peer, n.requestVoteArg⟩) }
        (.requestVote ⟨net.voteCalls.length, v, peer, n.requestVoteArg⟩)
  | count (peer k call answer) (at_ : n.requestVoteThread peer = .calling call)
      (answered : answer ∈ net.voteAnswers) (own : answer.call = call)
      (candidate : n.role = .candidate) (granted : answer.reply.voteGranted = true)
      (current : call.arg.term = n.currentTerm) (few : n.votesGranted + 1 < majority peers) :
      Move peers net v n (.requestVoteReply v peer k)
        { n with
          requestVoteThread := Function.update n.requestVoteThread peer .waiting
          votesGranted := n.votesGranted + 1 } .nothing
  | elect (peer k call answer control) (at_ : n.requestVoteThread peer = .calling call)
      (answered : answer ∈ net.voteAnswers) (own : answer.call = call)
      (candidate : n.role = .candidate) (granted : answer.reply.voteGranted = true)
      (current : call.arg.term = n.currentTerm) (enough : majority peers ≤ n.votesGranted + 1) :
      Move peers net v n (.requestVoteReply v peer k)
        { n with
          requestVoteThread := Function.update n.requestVoteThread peer .waiting
          votesGranted := n.votesGranted + 1
          role := .leader
          nextIndex := fun _ => n.mainLog.lastIndex + 1
          matchIndex := fun _ => 0
          toControl := control } .nothing
  | grant (k call control) (found : net.voteCalls[k]? = some call) (here : call.callee = v)
      (current : n.currentTerm ≤ call.arg.term)
      (free : n.voteIn call.arg.term = none ∨
        n.voteIn call.arg.term = some call.arg.candidateId)
      (recent : n.upToDate call.arg.lastLogIndex call.arg.lastLogTerm = true) :
      Move peers net v n (.requestVoteHandler k)
        { n with
          role := .follower, currentTerm := call.arg.term
          votedFor := some call.arg.candidateId, toControl := control }
        (.requestVoteAnswer ⟨call, ⟨true, call.arg.term⟩⟩)
  | accept (k call control d out) (found : net.appendCalls[k]? = some call)
      (here : call.callee = v) (current : n.currentTerm ≤ call.arg.term)
      (clear : n.pendingSnapshot = false) (accepts : n.accepts call.arg = true)
      (success : (n.appendEntriesHandler call.arg).2.1.success = true)
      (follows : Follows n call d out) :
      Move peers net v n (.appendEntriesHandler k)
        { n with
          role := .follower, currentTerm := call.arg.term, votedFor := n.voteIn call.arg.term
          mainLog := n.mainLog.merge call.arg.entries
          toDelivery := d, toControl := control } out
  | install (k call control) (found : net.installCalls[k]? = some call) (here : call.callee = v)
      (current : n.currentTerm ≤ call.arg.term) (clear : n.pendingSnapshot = false)
      (success : (n.installSnapshotHandler call.arg).2.success = true) :
      Move peers net v n (.installSnapshotHandler k)
        { n with
          role := n.roleIn call.arg.term, currentTerm := call.arg.term
          votedFor := n.voteIn call.arg.term
          mainLog := n.mainLog.trimPrefix call.arg.lastIncludedIndex call.arg.lastIncludedTerm
          lastIncludedIndex := call.arg.lastIncludedIndex
          lastIncludedTerm := call.arg.lastIncludedTerm
          snapshotData := call.arg.data
          pendingSnapshot := true, toControl := control }
        (.installSnapshotAnswer ⟨call, ⟨true, call.arg.term⟩⟩)
  | sendAppend (peer t) (other : peer ∈ otherPeers peers v) (leads : n.role = .leader)
      (at_ : (n.appendEntriesThread peer).point = .waiting)
      (plain : (n.appendEntriesThread peer).sendSnapshot = false)
      (ahead : n.mainLog.firstIndex ≤ n.nextIndex peer)
      (term : n.prevLogTerm false (n.nextIndex peer - 1) = some t) :
      Move peers net v n (.appendEntries v peer)
        (n.setPoint peer (.appending
          ⟨net.appendCalls.length, v, peer, n.argFor v (n.nextIndex peer) t⟩ (n.nextIndex peer)))
        (.appendEntries ⟨net.appendCalls.length, v, peer, n.argFor v (n.nextIndex peer) t⟩)
  | sendInstall (peer t next call) (other : peer ∈ otherPeers peers v) (leads : n.role = .leader)
      (at_ : (n.appendEntriesThread peer).point = .waiting)
      (next_eq : next = if n.nextIndex peer < n.mainLog.firstIndex then n.mainLog.firstIndex
        else n.nextIndex peer)
      (needed : (n.appendEntriesThread peer).sendSnapshot = true ∨
        n.nextIndex peer < n.mainLog.firstIndex)
      (term : n.prevLogTerm true (next - 1) = some t)
      (built : call = ⟨net.installCalls.length, v, peer, v, n.currentTerm, n.lastIncludedIndex,
        n.lastIncludedTerm, n.persister.snapshotData⟩) :
      Move peers net v n (.appendEntries v peer)
        ((n.setSendSnapshot peer true).setPoint peer
          (.installing call (n.argFor v next t) next))
        (.installSnapshot call)
  | installed (peer k transport call arg next)
      (at_ : (n.appendEntriesThread peer).point = .installing call arg next)
      (leads : n.role = .leader) (current : call.arg.term = n.currentTerm) :
      Move peers net v n (.installSnapshotReply v peer k transport)
        { n with
          nextIndex := Function.update n.nextIndex peer (n.lastIncludedIndex + 1)
          matchIndex := Function.update n.matchIndex peer n.lastIncludedIndex
          appendEntriesThread := Function.update n.appendEntriesThread peer
            ⟨false, .appending ⟨net.appendCalls.length, v, peer, arg⟩ next⟩ }
        (.appendEntries ⟨net.appendCalls.length, v, peer, arg⟩)
  | acknowledged (peer k unset call next answer control)
      (at_ : (n.appendEntriesThread peer).point = .appending call next)
      (answered : answer ∈ net.appendAnswers) (own : answer.call = call)
      (leads : n.role = .leader) (success : answer.reply.success = true)
      (current : call.arg.term = n.currentTerm) :
      Move peers net v n (.appendEntriesReply v peer k unset)
        { n with
          nextIndex := Function.update n.nextIndex peer (next + call.arg.entries.data.length)
          matchIndex :=
            Function.update n.matchIndex peer (next + call.arg.entries.data.length - 1)
          appendEntriesThread := Function.update n.appendEntriesThread peer
            { n.appendEntriesThread peer with point := .waiting }
          toControl := control } .nothing
  | commit (peer k unset call next answer i) (mid : Node)
      (at_ : (n.appendEntriesThread peer).point = .appending call next)
      (answered : answer ∈ net.appendAnswers) (own : answer.call = call)
      (leads : n.role = .leader) (success : answer.reply.success = true)
      (current : call.arg.term = n.currentTerm)
      (scan : mid.commitScan peers v n.mainLog.lastIndex = .commit i)
      (low : mid.commitIndex = n.commitIndex) (log : mid.mainLog = n.mainLog)
      (term : mid.currentTerm = n.currentTerm)
      (known : mid.matchIndex =
        Function.update n.matchIndex peer (next + call.arg.entries.data.length - 1)) :
      Move peers net v n (.appendEntriesReply v peer (some k) unset)
        { n with
          nextIndex := Function.update n.nextIndex peer (next + call.arg.entries.data.length)
          matchIndex :=
            Function.update n.matchIndex peer (next + call.arg.entries.data.length - 1)
          appendEntriesThread := Function.update n.appendEntriesThread peer
            { n.appendEntriesThread peer with point := .applying }
          commitIndex := i, applyQueue := n.applyQueue ++ [.leader peer] } .nothing
  | backUp (peer k unset call next control conflictTerm conflictIndex)
      (at_ : (n.appendEntriesThread peer).point = .appending call next)
      (leads : n.role = .leader) :
      Move peers net v n (.appendEntriesReply v peer k unset)
        { n with
          nextIndex := Function.update n.nextIndex peer (n.backUp conflictTerm conflictIndex)
          appendEntriesThread := Function.update n.appendEntriesThread peer
            { n.appendEntriesThread peer with point := .waiting }
          toControl := control } .nothing
  | propose (command control) (leads : n.role = .leader) (clear : n.pendingSnapshot = false) :
      Move peers net v n (.start v command)
        { n with
          mainLog := n.mainLog.append ⟨n.mainLog.lastIndex + 1, n.currentTerm, command⟩
          toControl := control } .nothing
  | refresh (data control) (clear : n.pendingSnapshot = false) :
      Move peers net v n (.snapshot v n.lastIncludedIndex data)
        { n with snapshotData := data, toControl := control } .nothing
  | compact (index data e control) (clear : n.pendingSnapshot = false)
      (above : n.lastIncludedIndex < index) (within : index ≤ n.mainLog.lastIndex)
      (present : n.mainLog.atIndex index = some e) :
      Move peers net v n (.snapshot v index data)
        { n with
          lastIncludedIndex := index
          lastIncludedTerm := e.term
          mainLog := n.mainLog.trimPrefix index e.term
          snapshotData := data
          toControl := control } .nothing
  | reboot (a T control) (current : n.currentTerm ≤ T) :
      Move peers net v n a
        { toStore := n.toStore
          toControl := control
          currentTerm := T
          votedFor := n.voteIn T
          pendingSnapshot := !n.snapshotData.isEmpty } .nothing
  | deliver (a d) (delivers : Delivers v n a d none) :
      Move peers net v n a { n with toDelivery := d } .nothing
  | deliverReturn (a d caller) (delivers : Delivers v n a d (some caller)) :
      Move peers net v n a (({ n with toDelivery := d } : Node).resume caller).1
        (({ n with toDelivery := d } : Node).resume caller).2

namespace Node
variable {n : Node} {T : ℕ} {peerId : PeerId}

theorem voteIn_later (h : n.currentTerm < T) : n.voteIn T = none := if_pos h

theorem voteIn_same (h : T ≤ n.currentTerm) : n.voteIn T = n.votedFor := if_neg h.not_gt

theorem roleIn_later (h : n.currentTerm < T) : n.roleIn T = .follower := if_pos h

theorem roleIn_same (h : T ≤ n.currentTerm) : n.roleIn T = n.role := if_neg h.not_gt

theorem becameFollower_same (h : T ≤ n.currentTerm) : n.becameFollower T peerId = (n, false) :=
  if_neg h.not_gt

theorem becameFollower_later (peerId : PeerId) (h : n.currentTerm < T) : ∃ control,
    n.becameFollower T peerId =
      ({ n with role := .follower, currentTerm := T, votedFor := none, toControl := control },
        true) := by
  rw [becameFollower, if_pos h]
  exact ⟨_, rfl⟩

theorem becameFollower_current (peerId : PeerId) (h : n.currentTerm ≤ T) : ∃ control,
    (n.becameFollower T peerId).1 =
      { n with
        role := n.roleIn T, currentTerm := T, votedFor := n.voteIn T, toControl := control } := by
  rcases lt_or_eq_of_le h with later | rfl
  · obtain ⟨control, followed⟩ := becameFollower_later peerId later
    exact ⟨control, by rw [followed, roleIn_later later, voteIn_later later]⟩
  · exact ⟨n.toControl, by rw [becameFollower_same le_rfl, roleIn_same le_rfl, voteIn_same le_rfl]⟩

end Node

theorem Idles.refl (t : PeerId → AppendEntriesThread) : Idles t t := fun _ => Or.inl rfl

theorem Hears.refl (r : PeerId → RequestVoteThread) : Hears r r := fun _ => Or.inl rfl

theorem Idles.point (t : PeerId → AppendEntriesThread) (peer : PeerId) :
    Idles t (Function.update t peer { t peer with point := .waiting }) := by
  intro p
  by_cases same : p = peer
  · subst same
    simp
  · simp [same]

theorem Hears.peer (r : PeerId → RequestVoteThread) (peer : PeerId) :
    Hears r (Function.update r peer .waiting) := by
  intro p
  by_cases same : p = peer
  · subst same
    simp
  · simp [same]

namespace Move
variable {peers : List PeerId} {net : Network} {v : PeerId} {n n' : Node} {a : Action}
  {out : Output}

theorem flags (control : Control) : Move peers net v n a { n with toControl := control } .nothing :=
  .quiet a control _ _ _ (Idles.refl _) (Hears.refl _) trivial

theorem reject (rejects : out.Rejects) : Move peers net v n a n out :=
  .quiet a n.toControl _ _ _ (Idles.refl _) (Hears.refl _) rejects

theorem follow {T : ℕ} {peerId : PeerId} (rejects : out.Rejects) :
    Move peers net v n a (n.becameFollower T peerId).1 out := by
  rcases lt_or_ge n.currentTerm T with later | stale
  · obtain ⟨control, followed⟩ := Node.becameFollower_later peerId later
    rw [followed]
    exact .adopt a T control _ _ _ later (Idles.refl _) (Hears.refl _) rejects
  · rw [Node.becameFollower_same stale]
    exact reject rejects

theorem of_initVote (elapsed : Bool) :
    Move peers net v n (.initVote v elapsed) (n.initVote v elapsed) .nothing := by
  rw [Node.initVote]
  split_ifs with idle
  · exact flags n.toControl
  · push Not at idle
    obtain rfl : elapsed = true := by simpa using idle.2
    exact .campaign _ idle.1

theorem of_heartbeat : Move peers net v n (.heartbeat v) n.heartbeat .nothing := by
  rw [Node.heartbeat]
  split_ifs
  · exact flags _
  · exact flags n.toControl

theorem of_requestVote {peer : PeerId} (other : peer ∈ otherPeers peers v)
    (done : n.requestVote v net.voteCalls.length peer = some (n', out)) :
    Move peers net v n (.requestVote v peer) n' out := by
  simp only [Node.requestVote] at done
  split_ifs at done with ready
  cases done
  exact .ask peer other ready.1 ready.2.2.1 ready.2.2.2

theorem of_requestVoteHandler {k : ℕ} {call : Call RequestVoteArg}
    (found : net.voteCalls[k]? = some call) (here : call.callee = v) :
    Move peers net v n (.requestVoteHandler k) (n.requestVoteHandler call.arg).1
      (.requestVoteAnswer ⟨call, (n.requestVoteHandler call.arg).2⟩) := by
  rw [Node.requestVoteHandler]
  split_ifs with killed stale
  · exact reject rfl
  · exact reject rfl
  · have current : n.currentTerm ≤ call.arg.term := not_lt.mp stale
    obtain ⟨control, followed⟩ :=
      Node.becameFollower_current call.arg.candidateId current
    simp only
    split_ifs with vote
    · rw [followed] at vote ⊢
      simp only [Bool.and_eq_true, Node.hasVote, Bool.or_eq_true, beq_iff_eq] at vote
      exact .grant k call _ found here current vote.1.symm vote.2
    · exact follow rfl

theorem of_appendEntriesHandler {k : ℕ} {call : Call AppendEntriesArg} {n₁ : Node}
    {reply : AppendEntriesReply} {apply : Bool}
    (found : net.appendCalls[k]? = some call) (here : call.callee = v)
    (handled : n.appendEntriesHandler call.arg = (n₁, reply, apply)) :
    Move peers net v n (.appendEntriesHandler k)
      (if apply then { n₁ with applyQueue := n₁.applyQueue ++ [.handler call reply] } else n₁)
      (if apply then .nothing else .appendEntriesAnswer ⟨call, reply⟩) := by
  have whole := handled
  rw [Node.appendEntriesHandler] at handled
  split_ifs at handled with killed stale
  · cases handled
    exact reject rfl
  · cases handled
    exact reject rfl
  · have current : n.currentTerm ≤ call.arg.term := not_lt.mp stale
    obtain ⟨control, followed⟩ := Node.becameFollower_current call.arg.leaderId current
    have clear : n.pendingSnapshot = false := by
      simp only [Bool.or_eq_true, not_or, Bool.not_eq_true] at killed
      exact killed.2
    have success : reply.success = true → (n.appendEntriesHandler call.arg).2.1.success = true := by
      intro h
      rw [whole]
      exact h
    simp only at handled
    split_ifs at handled with accepts high
    · rw [followed] at accepts high handled
      cases handled
      exact .accept k call _ _ _ found here current clear accepts (success rfl) (.raise high)
    · rw [followed] at accepts high handled
      cases handled
      exact .accept k call _ _ _ found here current clear accepts (success rfl)
        (.stay (not_lt.mp high))
    · split at handled
      · cases handled
        exact follow rfl
      · cases handled
        exact follow rfl

theorem of_installSnapshotHandler {k : ℕ} {call : Call InstallSnapshotArg}
    (found : net.installCalls[k]? = some call) (here : call.callee = v) :
    Move peers net v n (.installSnapshotHandler k) (n.installSnapshotHandler call.arg).1
      (.installSnapshotAnswer ⟨call, (n.installSnapshotHandler call.arg).2⟩) := by
  cases whole : n.installSnapshotHandler call.arg with
  | mk n₁ reply =>
    have handled := whole
    rw [Node.installSnapshotHandler] at handled
    split_ifs at handled with killed stale
    · cases handled
      exact reject rfl
    · cases handled
      exact reject rfl
    · have current : n.currentTerm ≤ call.arg.term := not_lt.mp stale
      obtain ⟨control, followed⟩ :=
        Node.becameFollower_current call.arg.leaderId current
      have clear : n.pendingSnapshot = false := by
        simp only [Bool.or_eq_true, not_or, Bool.not_eq_true] at killed
        exact killed.2
      rw [followed] at handled
      cases handled
      exact .install k call _ found here current clear (by rw [whole])

theorem of_requestVoteReply {peer : PeerId} {k : Option ℕ} {call : Call RequestVoteArg}
    {reply : Option RequestVoteReply} (at_ : n.requestVoteThread peer = .calling call)
    (answered : ∀ r ∈ reply, ∃ answer ∈ net.voteAnswers, answer.call = call ∧ answer.reply = r) :
    Move peers net v n (.requestVoteReply v peer k)
      (n.requestVoteReply peers peer call.arg reply) .nothing := by
  unfold Node.requestVoteReply
  simp only
  split_ifs with gone
  · exact .quiet _ n.toControl _ _ _ (Idles.refl _) (Hears.peer _ peer) trivial
  push Not at gone
  cases reply with
  | none => exact .quiet _ n.toControl _ _ _ (Idles.refl _) (Hears.peer _ peer) trivial
  | some r =>
    obtain ⟨answer, sent, own, rfl⟩ := answered r rfl
    rcases lt_or_ge n.currentTerm answer.reply.term with later | known
    · obtain ⟨control, followed⟩ := Node.becameFollower_later peer
        (n := { n with requestVoteThread := Function.update n.requestVoteThread peer .waiting })
        later
      simp only [followed, if_true]
      exact .adopt _ _ control _ _ _ later (Idles.refl _) (Hears.peer _ peer) trivial
    · simp only [Node.becameFollower_same (n := { n with
        requestVoteThread := Function.update n.requestVoteThread peer .waiting }) known,
        Bool.false_eq_true, if_false]
      split_ifs with stale granted enough
      · exact .quiet _ n.toControl _ _ _ (Idles.refl _) (Hears.peer _ peer) trivial
      · push Not at stale
        exact .elect peer k call answer _ at_ sent own gone.2 granted stale.2 enough
      · push Not at stale
        exact .count peer k call answer at_ sent own gone.2 granted stale.2 (not_le.mp enough)
      · exact .quiet _ n.toControl _ _ _ (Idles.refl _) (Hears.peer _ peer) trivial

theorem of_appendEntries {peer : PeerId} (other : peer ∈ otherPeers peers v)
    (done : n.appendEntries v net.appendCalls.length net.installCalls.length peer =
      some (n', out)) : Move peers net v n (.appendEntries v peer) n' out := by
  simp only [Node.appendEntries] at done
  split_ifs at done with ready wait behind send send
  · cases done
    exact reject trivial
  · rw [send] at done
    split at done
    · cases done
      exact flags _
    · rename_i t term
      cases done
      have low : n.nextIndex peer < n.mainLog.firstIndex := by simpa using behind
      exact .sendInstall peer t _ _ other ready.2.2.1 ready.1 (if_pos low).symm (Or.inr low) term
        rfl
  · simp [behind] at send
  · rw [send] at done
    split at done
    · cases done
      exact flags _
    · rename_i t term
      cases done
      have high : ¬ n.nextIndex peer < n.mainLog.firstIndex := by simpa using behind
      have kept : (n.appendEntriesThread peer).sendSnapshot = true := by simpa [high] using send
      exact .sendInstall peer t _ _ other ready.2.2.1 ready.1 (if_neg high).symm (Or.inl kept) term
        rfl
  · rw [Bool.not_eq_true] at send
    rw [send] at done
    split at done
    · cases done
      exact flags _
    · rename_i t term
      cases done
      simp only [Bool.or_eq_false_iff, decide_eq_false_iff_not, not_lt] at send
      exact .sendAppend peer t other ready.2.2.1 ready.1 send.1 send.2 term

theorem of_installSnapshotReply {peer : PeerId} {call : Call InstallSnapshotArg}
    {arg : AppendEntriesArg} {next : ℕ} {reply : Option InstallSnapshotReply} {k : Option ℕ}
    {transport : Transport}
    (at_ : (n.appendEntriesThread peer).point = .installing call arg next)
    (done : n.installSnapshotReply v net.appendCalls.length peer call.arg arg next reply =
      (n', out)) : Move peers net v n (.installSnapshotReply v peer k transport) n' out := by
  unfold Node.installSnapshotReply at done
  simp only at done
  split_ifs at done with gone
  · cases done
    exact .quiet _ _ _ _ _ (Idles.point _ peer) (Hears.refl _) trivial
  simp only [not_or, Bool.not_eq_true, not_not] at gone
  cases reply with
  | none =>
    cases done
    exact .quiet _ n.toControl _ _ _ (Idles.point _ peer) (Hears.refl _) trivial
  | some r =>
    rcases lt_or_ge n.currentTerm r.term with later | known
    · obtain ⟨control, followed⟩ :=
        Node.becameFollower_later peer (n := n.setPoint peer .waiting) later
      simp only [followed, if_true] at done
      cases done
      exact .adopt _ _ control _ _ _ later (Idles.point _ peer) (Hears.refl _) trivial
    · simp only [Node.becameFollower_same (n := n.setPoint peer .waiting) known,
        Bool.false_eq_true, if_false] at done
      split_ifs at done with stale success
      · cases done
        exact .quiet _ n.toControl _ _ _ (Idles.point _ peer) (Hears.refl _) trivial
      · cases done
        push Not at stale
        have sent : Move peers net v n _ _ _ :=
          .installed peer k transport call arg next at_ gone.2 stale.2
        simpa [Node.setPoint, Node.setSendSnapshot] using sent
      · cases done
        exact .quiet _ n.toControl _ _ _ (Idles.point _ peer) (Hears.refl _) trivial

theorem of_appendEntriesReply {peer : PeerId} {call : Call AppendEntriesArg} {next : ℕ}
    {k : Option ℕ} {reply : Option AppendEntriesReply} {unset : ℕ × ℕ}
    (at_ : (n.appendEntriesThread peer).point = .appending call next)
    (answered : ∀ r ∈ reply, k.isSome = true ∧
      ∃ answer ∈ net.appendAnswers, answer.call = call ∧ answer.reply = r) :
    Move peers net v n (.appendEntriesReply v peer k unset)
      (n.appendEntriesReply peers v peer call.arg next reply unset) .nothing := by
  unfold Node.appendEntriesReply
  simp only
  split_ifs with gone
  · exact .quiet _ _ _ _ _ (Idles.point _ peer) (Hears.refl _) trivial
  simp only [not_or, Bool.not_eq_true, not_not] at gone
  cases reply with
  | none => exact .quiet _ _ _ _ _ (Idles.point _ peer) (Hears.refl _) trivial
  | some r =>
    obtain ⟨known, answer, sent, own, rfl⟩ := answered r rfl
    obtain ⟨k, rfl⟩ := Option.isSome_iff_exists.mp known
    rcases lt_or_ge n.currentTerm answer.reply.term with later | known
    · obtain ⟨control, followed⟩ :=
        Node.becameFollower_later peer (n := n.setPoint peer .waiting) later
      simp only [followed, if_true]
      exact .adopt _ _ control _ _ _ later (Idles.point _ peer) (Hears.refl _) trivial
    · simp only [Node.becameFollower_same (n := n.setPoint peer .waiting) known,
        Bool.false_eq_true, if_false]
      split_ifs with stale success
      · exact .quiet _ _ _ _ _ (Idles.point _ peer) (Hears.refl _) trivial
      · push Not at stale
        split
        · exact .acknowledged peer _ _ call next answer _ at_ sent own gone.2 success stale.2
        · rename_i i scan
          have moved : Move peers net v n _ _ _ := .commit peer k unset call next answer i _ at_
            sent own gone.2 success stale.2 scan rfl rfl rfl rfl
          simpa [Node.setPoint] using moved
        · exact .acknowledged peer _ _ call next answer _ at_ sent own gone.2 success stale.2
      · exact .backUp peer _ _ call next _ _ _ at_ gone.2

theorem of_appendEntriesFinish {peer : PeerId}
    (done : n.appendEntriesFinish peer = some (n', out)) : Move peers net v n a n' out := by
  simp only [Node.appendEntriesFinish] at done
  split_ifs at done
  cases done
  exact .quiet a _ _ _ _ (Idles.point _ peer) (Hears.refl _) trivial

theorem of_applyEnter {k : ℕ} (done : n.applyEnter k = some (n', out)) :
    Move peers net v n (.applyEnter v k) n' out := by
  rw [Node.applyEnter] at done
  split at done
  · rename_i caller free queued
    have back : Move peers net v n _ _ _ :=
      .deliverReturn _ _ caller (.enterReturn k caller free queued)
    simp only [Node.applyCommittedEntries, Node.applyLoop, Node.applyReturn] at done
    split_ifs at done with stop idle
    · rwa [Option.some.inj done] at back
    · rwa [Option.some.inj done] at back
    · simp only [Bool.or_eq_true, decide_eq_true_eq, not_or, Bool.not_eq_true, not_le] at stop
      split at done
      · rwa [Option.some.inj done] at back
      · rename_i c present
        cases done
        exact .deliver _ _ (.enterSend k caller c free queued stop.1 stop.2 present)
  · contradiction

theorem of_applySend {ok : Bool} (done : n.applySend ok = some (n', out)) :
    Move peers net v n (.applySend v ok) n' out := by
  rw [Node.applySend] at done
  split at done
  · rename_i caller i c at_
    split_ifs at done with sent
    · subst sent
      cases done
      exact .deliver _ _ (.sendOk caller i c at_)
    · obtain rfl : ok = false := by simpa using sent
      have back : Move peers net v n _ _ _ :=
        .deliverReturn _ _ caller (.sendFail caller i c at_)
      rw [Node.applyReturn] at done
      rwa [Option.some.inj done] at back
  · contradiction

theorem of_applyRelock (done : n.applyRelock = some (n', out)) :
    Move peers net v n (.applyRelock v) n' out := by
  rw [Node.applyRelock] at done
  split at done
  · rename_i caller i at_
    have back : Move peers net v n _ _ _ :=
      .deliverReturn _ _ caller (.relockReturn caller i at_)
    simp only [Node.applyLoop, Node.applyReturn] at done
    split_ifs at done with stop
    · rwa [Option.some.inj done] at back
    · split at done
      · rwa [Option.some.inj done] at back
      · rename_i c present
        cases done
        exact .deliver _ _ (.relockSend caller i c at_ (not_le.mp stop) present)
  · contradiction

theorem of_snapshotTake (done : n.snapshotTake = some (n', out)) :
    Move peers net v n (.snapshotTake v) n' out := by
  rw [Node.snapshotTake] at done
  split_ifs at done with ready
  cases done
  exact .deliver _ _ (.take ready.1 ready.2.2)

theorem of_snapshotSend {ok : Bool} (done : n.snapshotSend ok = some (n', out)) :
    Move peers net v n (.snapshotSend v ok) n' out := by
  rw [Node.snapshotSend] at done
  split at done
  · rename_i index term data at_
    split_ifs at done with sent
    · subst sent
      cases done
      exact .deliver _ _ (.handOver index term data at_)
    · obtain rfl : ok = false := by simpa using sent
      cases done
      exact .deliver _ _ (.giveUp index term data at_)
  · contradiction

theorem of_snapshotRelock (done : n.snapshotRelock = some (n', out)) :
    Move peers net v n (.snapshotRelock v) n' out := by
  rw [Node.snapshotRelock] at done
  split at done
  · rename_i index term at_
    split_ifs at done with same
    · obtain ⟨rfl, rfl⟩ := same
      cases done
      exact .deliver _ _ (.installed at_)
    · cases done
      exact .deliver _ _ (.overtaken index term at_ same)
  · contradiction

theorem of_start (command : Command) :
    Move peers net v n (.start v command) (n.start command).1 .nothing := by
  rw [Node.start]
  split_ifs with gone pending
  · exact flags n.toControl
  · exact flags n.toControl
  · simp only [not_or, Bool.not_eq_true, not_not] at gone
    exact .propose command _ gone.2 (by simpa using pending)

theorem of_snapshot (index : ℕ) (data : Bytes) :
    Move peers net v n (.snapshot v index data) (n.snapshot index data) .nothing := by
  rw [Node.snapshot]
  split_ifs with gone below beyond same
  · exact flags n.toControl
  · exact flags n.toControl
  · exact flags n.toControl
  · simp only [Bool.or_eq_true, not_or, Bool.not_eq_true] at gone
    subst same
    exact .refresh data _ gone.2
  · simp only [Bool.or_eq_true, not_or, Bool.not_eq_true] at gone
    split
    · exact flags _
    · rename_i e present
      exact .compact index data e _ gone.2 (by omega) (by omega) present

theorem boot_eq (synced : n.Synced) : ∃ control, Node.boot n.persister =
    { toStore := n.toStore
      toControl := control
      currentTerm := n.currentTerm
      votedFor := n.votedFor
      pendingSnapshot := !n.snapshotData.isEmpty } := by
  refine ⟨(Node.boot n.persister).toControl, ?_⟩
  rw [← Node.boot_store synced, ← Node.boot_currentTerm synced, ← Node.boot_votedFor synced]
  rfl

theorem of_crash (T : ℕ) (sender : PeerId) (synced : n.Synced) :
    Move peers net v n a (Node.boot (n.becameFollower T sender).1.persister) .nothing := by
  have follower := synced.becameFollower T sender
  rcases lt_or_ge n.currentTerm T with later | stale
  · obtain ⟨control, followed⟩ := Node.becameFollower_later sender later
    rw [followed] at follower ⊢
    obtain ⟨control', booted⟩ := boot_eq follower
    rw [booted, ← Node.voteIn_later later]
    exact .reboot a T control' later.le
  · rw [Node.becameFollower_same stale]
    obtain ⟨control', booted⟩ := boot_eq synced
    rw [booted, ← Node.voteIn_same le_rfl]
    exact .reboot a _ control' le_rfl

theorem of_restart (synced : n.Synced) : Move peers net v n a (Node.boot n.persister) .nothing := by
  have crash : Move peers net v n a _ .nothing := of_crash 0 v synced
  rwa [Node.becameFollower_same (Nat.zero_le _)] at crash

end Move

theorem received_some {Arg Reply : Type} [DecidableEq Arg] {answers : List (Answer Arg Reply)}
    {call : Call Arg} {k : Option ℕ} {reply : Option Reply}
    (h : received answers call k = some reply) :
    ∀ r ∈ reply, k.isSome = true ∧ ∃ answer ∈ answers, answer.call = call ∧ answer.reply = r := by
  intro r hr
  cases k with
  | none =>
    cases h
    contradiction
  | some k =>
    simp only [received] at h
    split at h
    · rename_i answer found
      split_ifs at h with own
      cases h
      cases hr
      exact ⟨rfl, answer, List.mem_of_getElem? found, own, rfl⟩
    · contradiction

theorem Cluster.act_move {peers : List PeerId} {s : Cluster} {a : Action} {v : PeerId} {n : Node}
    {out : Output} (synced : ∀ u, (s.nodes u).Synced) (found : s.act peers a = some (v, n, out)) :
    Move peers s.network v (s.nodes v) a n out := by
  cases a with
  | initVote u elapsed =>
    cases found
    exact .of_initVote elapsed
  | heartbeat u =>
    cases found
    exact .of_heartbeat
  | requestVote u peer =>
    simp only [act] at found
    split_ifs at found with other
    obtain ⟨_, done, h⟩ := Option.map_eq_some_iff.mp found
    cases h
    exact .of_requestVote other done
  | requestVoteReply u peer answer =>
    simp only [act] at found
    split at found
    · contradiction
    · rename_i call at_
      obtain ⟨reply, given, h⟩ := Option.map_eq_some_iff.mp found
      cases h
      exact .of_requestVoteReply at_ fun r hr => (received_some given r hr).2
  | requestVoteHandler k =>
    obtain ⟨call, sent, h⟩ := Option.map_eq_some_iff.mp found
    cases h
    exact .of_requestVoteHandler sent rfl
  | appendEntries u peer =>
    simp only [act] at found
    split_ifs at found with other
    obtain ⟨_, done, h⟩ := Option.map_eq_some_iff.mp found
    cases h
    exact .of_appendEntries other done
  | installSnapshotReply u peer answer transport =>
    simp only [act] at found
    split at found
    · rename_i call arg next at_
      obtain ⟨reply, _, h⟩ := Option.map_eq_some_iff.mp found
      obtain ⟨rfl, done⟩ := Prod.mk.inj h
      exact .of_installSnapshotReply at_ done
    · contradiction
  | appendEntriesReply u peer answer unset =>
    simp only [act] at found
    split at found
    · rename_i call next at_
      obtain ⟨reply, given, h⟩ := Option.map_eq_some_iff.mp found
      cases h
      exact .of_appendEntriesReply at_ (received_some given)
    · contradiction
  | appendEntriesFinish u peer =>
    obtain ⟨_, done, h⟩ := Option.map_eq_some_iff.mp found
    cases h
    exact .of_appendEntriesFinish done
  | appendEntriesHandler k =>
    obtain ⟨call, sent, h⟩ := Option.map_eq_some_iff.mp found
    obtain ⟨n₁, reply, apply, handled⟩ : ∃ n₁ reply apply,
        (s.nodes call.callee).appendEntriesHandler call.arg = (n₁, reply, apply) := ⟨_, _, _, rfl⟩
    have moved : Move peers s.network _ _ _ _ _ := .of_appendEntriesHandler sent rfl handled
    simp only [handled] at h
    cases apply <;> cases h <;> exact moved
  | installSnapshotHandler k =>
    obtain ⟨call, sent, h⟩ := Option.map_eq_some_iff.mp found
    cases h
    exact .of_installSnapshotHandler sent rfl
  | applyEnter u k =>
    obtain ⟨_, done, h⟩ := Option.map_eq_some_iff.mp found
    cases h
    exact .of_applyEnter done
  | applySend u ok =>
    obtain ⟨_, done, h⟩ := Option.map_eq_some_iff.mp found
    cases h
    exact .of_applySend done
  | applyRelock u =>
    obtain ⟨_, done, h⟩ := Option.map_eq_some_iff.mp found
    cases h
    exact .of_applyRelock done
  | snapshotTake u =>
    obtain ⟨_, done, h⟩ := Option.map_eq_some_iff.mp found
    cases h
    exact .of_snapshotTake done
  | snapshotSend u ok =>
    obtain ⟨_, done, h⟩ := Option.map_eq_some_iff.mp found
    cases h
    exact .of_snapshotSend done
  | snapshotRelock u =>
    obtain ⟨_, done, h⟩ := Option.map_eq_some_iff.mp found
    cases h
    exact .of_snapshotRelock done
  | start u command =>
    cases found
    exact .of_start command
  | snapshot u index data =>
    cases found
    exact .of_snapshot index data
  | kill u =>
    cases found
    exact .flags _
  | restart u =>
    cases found
    exact .of_restart (synced v)
  | crash rpc k =>
    simp only [act] at found
    split at found
    · split_ifs at found
      cases found
      exact .of_crash _ _ (synced v)
    · contradiction

/-- The guards a request of term `term` has to pass in `appendEntriesHandler` and
`installSnapshotHandler`. -/
def Node.admits (n : Node) (term : ℕ) : Bool :=
  !n.killed && !n.pendingSnapshot && decide (n.currentTerm ≤ term)

theorem Node.appendEntriesHandler_admits {n : Node} {arg : AppendEntriesArg}
    (success : (n.appendEntriesHandler arg).2.1.success = true) : n.admits arg.term = true := by
  rw [Node.appendEntriesHandler] at success
  split_ifs at success with closed stale
  all_goals simp_all [Node.admits]

theorem Node.installSnapshotHandler_admits {n : Node} {arg : InstallSnapshotArg}
    (success : (n.installSnapshotHandler arg).2.success = true) : n.admits arg.term = true := by
  rw [Node.installSnapshotHandler] at success
  split_ifs at success with closed stale
  simp_all [Node.admits]

end Zdb.Raft
