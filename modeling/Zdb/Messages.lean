import Zdb.Election

/-! Who sends what. AppendEntries and InstallSnapshot calls of a term come from
the one leader of that term and go to somebody else, so a leader never takes a
message of its own term; and every AppendEntries argument on the network was
built by `appendEntries` at some moment, perhaps before an InstallSnapshot call
that it had to wait for. -/

namespace Zdb.Raft

def Node.sendFrom (n : Node) (peer : PeerId) : ℕ :=
  if n.nextIndex peer < n.mainLog.firstIndex then n.mainLog.firstIndex else n.nextIndex peer

structure Builds (v : PeerId) (n : Node) (a : Action) (peer : PeerId) (arg : AppendEntriesArg) :
    Prop where
  label : a = .appendEntries v peer
  leads : n.role = .leader
  built : ∃ snap t, n.prevLogTerm snap (n.sendFrom peer - 1) = some t ∧
    arg = n.argFor v (n.sendFrom peer) t ∧ (snap = false → n.mainLog.firstIndex ≤ n.nextIndex peer)

/-- On the network, or held back behind an InstallSnapshot call. -/
def Prepared (s : Cluster) (arg : AppendEntriesArg) : Prop :=
  (∃ c ∈ s.network.appendCalls, c.arg = arg) ∨
    ∃ v p call next, ((s.nodes v).appendEntriesThread p).point = .installing call arg next

structure Replicating (peers : List PeerId) (net : Network) (v : PeerId) (n : Node) : Prop where
  next_pos : ∀ p, 1 ≤ n.nextIndex p
  appending : ∀ p call next, (n.appendEntriesThread p).point = .appending call next →
    call ∈ net.appendCalls ∧ call.caller = v ∧ call.callee = p ∧
      next = call.arg.prevLogIndex + 1
  installing : ∀ p call arg next, (n.appendEntriesThread p).point = .installing call arg next →
    call ∈ net.installCalls ∧ call.caller = v ∧ p ∈ otherPeers peers v ∧ arg.leaderId = v ∧
      arg.term = call.arg.term ∧ next = arg.prevLogIndex + 1

structure Messaging (m : Membership) (s : Cluster) (h : History) : Prop where
  node : ∀ v, Replicating m.peers s.network v (s.nodes v)
  append : ∀ c ∈ s.network.appendCalls, c.arg.leaderId = c.caller ∧
    c.callee ∈ otherPeers m.peers c.caller ∧ h.leader c.arg.term = some c.caller
  install : ∀ c ∈ s.network.installCalls, c.arg.leaderId = c.caller ∧
    c.callee ∈ otherPeers m.peers c.caller ∧ h.leader c.arg.term = some c.caller

namespace Network
variable {net : Network} {out : Output}

theorem appendCalls_emit {c : Call AppendEntriesArg} (h : c ∈ net.appendCalls) :
    c ∈ (net.emit out).appendCalls := by
  cases out <;> simp [emit, h]

theorem installCalls_emit {c : Call InstallSnapshotArg} (h : c ∈ net.installCalls) :
    c ∈ (net.emit out).installCalls := by
  cases out <;> simp [emit, h]

end Network

namespace Replicating
variable {peers : List PeerId} {net : Network} {v : PeerId} {n n' : Node} {a : Action}
  {out : Output}

theorem emit (hr : Replicating peers net v n) (out : Output) :
    Replicating peers (net.emit out) v n where
  next_pos := hr.next_pos
  appending p call next at_ := by
    obtain ⟨sent, rest⟩ := hr.appending p call next at_
    exact ⟨Network.appendCalls_emit sent, rest⟩
  installing p call arg next at_ := by
    obtain ⟨sent, rest⟩ := hr.installing p call arg next at_
    exact ⟨Network.installCalls_emit sent, rest⟩

theorem calm (hr : Replicating peers net v n) (pos : ∀ p, 1 ≤ n'.nextIndex p)
    (threads : ∀ p, (n'.appendEntriesThread p).point = (n.appendEntriesThread p).point ∨
      (n'.appendEntriesThread p).point = .waiting ∨
      (n'.appendEntriesThread p).point = .applying ∨
      (n'.appendEntriesThread p).point = .finishing) : Replicating peers net v n' where
  next_pos := pos
  appending p call next at_ := by
    rcases threads p with same | idle | idle | idle
    · exact hr.appending p call next (same ▸ at_)
    all_goals
      rw [idle] at at_
      contradiction
  installing p call arg next at_ := by
    rcases threads p with same | idle | idle | idle
    · exact hr.installing p call arg next (same ▸ at_)
    all_goals
      rw [idle] at at_
      contradiction

theorem sendFrom_pos (hr : Replicating peers net v n) (peer : PeerId) : 1 ≤ n.sendFrom peer := by
  have := hr.next_pos peer
  rw [Node.sendFrom]
  split_ifs <;> omega

end Replicating

theorem Node.backUp_pos (n : Node) (term index : ℕ) : 1 ≤ n.backUp term index := by
  simp only [Node.backUp]
  split_ifs <;> omega

theorem update_pos {f : PeerId → ℕ} {peer : PeerId} {k : ℕ} (pos : ∀ p, 1 ≤ f p)
    (hk : 1 ≤ k) (p : PeerId) : 1 ≤ Function.update f peer k p := by
  by_cases same : p = peer
  · subst same
    simpa using hk
  · simpa [same] using pos p

theorem Idles.points {before after : PeerId → AppendEntriesThread} (h : Idles before after)
    (p : PeerId) : (after p).point = (before p).point ∨ (after p).point = .waiting := by
  rcases h p with same | idle
  · exact Or.inl (by rw [same])
  · exact Or.inr (by rw [idle])

theorem Node.setPoint_points (n : Node) (peer p : PeerId) (point : AppendEntriesPoint) :
    ((n.setPoint peer point).appendEntriesThread p).point =
      if p = peer then point else (n.appendEntriesThread p).point := by
  by_cases same : p = peer
  · subst same
    simp [Node.setPoint]
  · simp [Node.setPoint, same]

section Step
variable {peers : List PeerId} {net : Network} {v : PeerId} {n n' : Node} {a : Action}
  {out : Output}

theorem Replicating.step (hr : Replicating peers net v n) (move : Move peers net v n a n' out) :
    Replicating peers (net.emit out) v n' := by
  have pos := hr.next_pos
  have idle : ∀ peer p, (Function.update n.appendEntriesThread peer
      { n.appendEntriesThread peer with point := .waiting } p).point =
        (n.appendEntriesThread p).point ∨ (Function.update n.appendEntriesThread peer
      { n.appendEntriesThread peer with point := .waiting } p).point = .waiting :=
    fun peer => (Idles.point n.appendEntriesThread peer).points
  cases move with
  | quiet a control t r out idles hears rejects =>
    exact (hr.emit out).calm pos fun p => by rcases idles.points p with h | h <;> simp [h]
  | adopt a T control t r out later idles hears rejects =>
    exact (hr.emit out).calm pos fun p => by rcases idles.points p with h | h <;> simp [h]
  | elect => exact (hr.emit _).calm (fun _ => Nat.le_add_left 1 _) fun _ => Or.inl rfl
  | sendAppend peer t other leads at_ plain ahead term =>
    have start := hr.next_pos peer
    refine ⟨pos, fun p call next at' => ?_, fun p call arg next at' => ?_⟩
    · rw [Node.setPoint_points] at at'
      split_ifs at at' with same
      · subst same
        cases at'
        exact ⟨by simp [Network.emit], rfl, rfl, by simp [Node.argFor]; omega⟩
      · exact (hr.emit _).appending p call next at'
    · rw [Node.setPoint_points] at at'
      split_ifs at at'
      exact (hr.emit _).installing p call arg next at'
  | sendInstall peer t next call other leads at_ next_eq needed term built =>
    have start := hr.sendFrom_pos peer
    rw [Node.sendFrom, ← next_eq] at start
    have kept : ∀ p, p ≠ peer → ((n.setSendSnapshot peer true).appendEntriesThread p).point =
        (n.appendEntriesThread p).point := by
      intro p same
      simp [Node.setSendSnapshot, same]
    refine ⟨pos, fun p call' next' at' => ?_, fun p call' arg next' at' => ?_⟩
    · rw [Node.setPoint_points] at at'
      split_ifs at at' with same
      rw [kept p same] at at'
      exact (hr.emit _).appending p call' next' at'
    · rw [Node.setPoint_points] at at'
      split_ifs at at' with same
      · subst same
        cases at'
        exact ⟨by simp [Network.emit], by rw [built], other, rfl, by rw [built]; rfl,
          by simp [Node.argFor]; omega⟩
      · rw [kept p same] at at'
        exact (hr.emit _).installing p call' arg next' at'
  | installed peer k transport call arg next at_ leads current =>
    obtain ⟨_, _, _, _, _, next_eq⟩ := hr.installing peer call arg next at_
    refine ⟨update_pos pos (Nat.le_add_left 1 _), fun p call' next' at' => ?_,
      fun p call' arg' next' at' => ?_⟩
    · by_cases same : p = peer
      · subst same
        simp only [Function.update_self, AppendEntriesPoint.appending.injEq] at at'
        obtain ⟨rfl, rfl⟩ := at'
        exact ⟨by simp [Network.emit], rfl, rfl, next_eq⟩
      · simp only [Function.update_of_ne same] at at'
        exact (hr.emit _).appending p call' next' at'
    · by_cases same : p = peer
      · subst same
        simp at at'
      · simp only [Function.update_of_ne same] at at'
        exact (hr.emit _).installing p call' arg' next' at'
  | acknowledged peer k unset call next answer control at_ =>
    obtain ⟨_, _, _, next_eq⟩ := hr.appending peer call next at_
    refine (hr.emit _).calm (update_pos pos (by omega)) fun p => ?_
    rcases idle peer p with h | h <;> simp [h]
  | commit peer k unset call next answer i mid at_ =>
    obtain ⟨_, _, _, next_eq⟩ := hr.appending peer call next at_
    refine (hr.emit _).calm (update_pos pos (by omega)) fun p => ?_
    by_cases same : p = peer
    · subst same
      simp
    · simp [same]
  | backUp peer k unset call next control =>
    refine (hr.emit _).calm (update_pos pos (n.backUp_pos _ _)) fun p => ?_
    rcases idle peer p with h | h <;> simp [h]
  | reboot => exact (hr.emit _).calm (fun _ => le_rfl) fun _ => Or.inr (Or.inl rfl)
  | deliverReturn a d caller delivers =>
    cases caller with
    | handler => exact (hr.emit _).calm pos fun _ => Or.inl rfl
    | leader peer =>
      refine (hr.emit _).calm pos fun p => ?_
      have points := ({ n with toDelivery := d } : Node).setPoint_points peer p .finishing
      split_ifs at points
      · exact Or.inr (Or.inr (Or.inr points))
      · exact Or.inl points
  | _ => exact (hr.emit _).calm pos fun _ => Or.inl rfl

theorem Move.appendEntries_out (move : Move peers net v n a n' out) {c : Call AppendEntriesArg}
    (sent : out = .appendEntries c) : c.caller = v ∧
      ((c.callee ∈ otherPeers peers v ∧ Builds v n a c.callee c.arg) ∨
        ∃ call next, (n.appendEntriesThread c.callee).point = .installing call c.arg next) := by
  cases move with
  | sendAppend peer t other leads at_ plain ahead term =>
    cases sent
    have from_ : n.sendFrom peer = n.nextIndex peer := if_neg ahead.not_gt
    exact ⟨rfl, Or.inl ⟨other, rfl, leads, false, t, by rw [from_]; exact term,
      by rw [from_], fun _ => ahead⟩⟩
  | installed peer k transport call arg next at_ =>
    cases sent
    exact ⟨rfl, Or.inr ⟨call, next, at_⟩⟩
  | quiet a control t r out idles hears rejects => subst sent; exact rejects.elim
  | adopt a T control t r out later idles hears rejects => subst sent; exact rejects.elim
  | accept k call control d out found here current clear accepts success follows =>
    cases follows <;> cases sent
  | deliverReturn a d caller delivers => cases caller <;> cases sent
  | _ => cases sent

theorem Move.installSnapshot_out (move : Move peers net v n a n' out)
    {c : Call InstallSnapshotArg} (sent : out = .installSnapshot c) :
    c.caller = v ∧ c.callee ∈ otherPeers peers v ∧ n.role = .leader ∧ c.arg.leaderId = v ∧
      c.arg.term = n.currentTerm ∧ c.arg.lastIncludedIndex = n.lastIncludedIndex ∧
      c.arg.lastIncludedTerm = n.lastIncludedTerm ∧
      ((n.appendEntriesThread c.callee).sendSnapshot = true ∨
        n.nextIndex c.callee < n.mainLog.firstIndex) := by
  cases move with
  | sendInstall peer t next call other leads at_ next_eq needed term built =>
    cases sent
    subst built
    exact ⟨rfl, other, leads, rfl, rfl, rfl, rfl, needed⟩
  | quiet a control t r out idles hears rejects => subst sent; exact rejects.elim
  | adopt a T control t r out later idles hears rejects => subst sent; exact rejects.elim
  | accept k call control d out found here current clear accepts success follows =>
    cases follows <;> cases sent
  | deliverReturn a d caller delivers => cases caller <;> cases sent
  | _ => cases sent

theorem Move.point_cases (move : Move peers net v n a n' out) (p : PeerId) :
    (n'.appendEntriesThread p).point = (n.appendEntriesThread p).point ∨
    (n'.appendEntriesThread p).point ∈
      [AppendEntriesPoint.waiting, AppendEntriesPoint.applying, AppendEntriesPoint.finishing] ∨
    (∃ call next, (n'.appendEntriesThread p).point = .appending call next ∧
      out = .appendEntries call ∧ call.callee = p) ∨
    ∃ call arg next, (n'.appendEntriesThread p).point = .installing call arg next ∧
      out = .installSnapshot call ∧ call.callee = p ∧ Builds v n a p arg := by
  have idle : ∀ t, Idles n.appendEntriesThread t →
      (t p).point = (n.appendEntriesThread p).point ∨ (t p).point ∈
        [AppendEntriesPoint.waiting, AppendEntriesPoint.applying,
          AppendEntriesPoint.finishing] := by
    intro t idles
    rcases idles.points p with same | gone
    · exact Or.inl same
    · exact Or.inr (by simp [gone])
  cases move with
  | quiet a control t r out idles => exact (idle t idles).imp id Or.inl
  | adopt a T control t r out later idles => exact (idle t idles).imp id Or.inl
  | sendAppend peer t other leads at' plain ahead term =>
    rw [Node.setPoint_points]
    split_ifs with same
    · exact Or.inr (Or.inr (Or.inl ⟨_, _, rfl, rfl, same.symm⟩))
    · exact Or.inl rfl
  | sendInstall peer t next' call' other leads at' next_eq needed term built =>
    rw [Node.setPoint_points]
    split_ifs with same
    · subst same
      refine Or.inr (Or.inr (Or.inr ⟨_, _, _, rfl, rfl, by rw [built], rfl, leads, true, t, ?_, ?_,
        by simp⟩))
      · rw [Node.sendFrom, ← next_eq]
        exact term
      · rw [Node.sendFrom, ← next_eq]
    · exact Or.inl (by simp [Node.setSendSnapshot, same])
  | installed peer k transport call' arg' next' at' leads current =>
    by_cases same : p = peer
    · subst same
      exact Or.inr (Or.inr (Or.inl ⟨⟨net.appendCalls.length, v, p, arg'⟩, next', by simp, rfl,
        rfl⟩))
    · exact Or.inl (by simp [same])
  | acknowledged peer => exact (idle _ (Idles.point _ peer)).imp id Or.inl
  | backUp peer => exact (idle _ (Idles.point _ peer)).imp id Or.inl
  | commit peer =>
    by_cases same : p = peer
    · subst same
      exact Or.inr (Or.inl (by simp))
    · exact Or.inl (by simp [same])
  | reboot => exact Or.inr (Or.inl (by simp))
  | deliverReturn a d caller delivers =>
    cases caller with
    | handler => exact Or.inl rfl
    | leader peer =>
      have points := ({ n with toDelivery := d } : Node).setPoint_points peer p .finishing
      split_ifs at points
      · exact Or.inr (Or.inl (by simp [Node.resume, points]))
      · exact Or.inl points
  | _ => exact Or.inl rfl

theorem Move.installing_point (move : Move peers net v n a n' out) {p : PeerId}
    {call : Call InstallSnapshotArg} {arg : AppendEntriesArg} {next : ℕ}
    (at_ : (n'.appendEntriesThread p).point = .installing call arg next) :
    (n.appendEntriesThread p).point = .installing call arg next ∨
      (call.callee = p ∧ Builds v n a p arg) := by
  rcases move.point_cases p with same | rest | ⟨_, _, other, _⟩ | ⟨_, _, _, here, _, callee, built⟩
  · exact Or.inl (same ▸ at_)
  · simp [at_] at rest
  · simp [at_] at other
  · rw [at_] at here
    cases here
    exact Or.inr ⟨callee, built⟩

end Step

section Cluster
variable {m : Membership} {s : Cluster} {h : History} {v : PeerId} {n' : Node} {a : Action}
  {out : Output}

theorem Prepared.of_update (move : Move m.peers s.network v (s.nodes v) a n' out)
    {arg : AppendEntriesArg} (ready : Prepared (s.update v n' out) arg) :
    Prepared s arg ∨ ∃ peer, Builds v (s.nodes v) a peer arg := by
  rcases ready with ⟨c, sent, rfl⟩ | ⟨u, p, call, next, at_⟩
  · rcases Network.mem_appendCalls_emit sent with old | new
    · exact Or.inl (Or.inl ⟨c, old, rfl⟩)
    · rcases (move.appendEntries_out new).2 with ⟨_, builds⟩ | ⟨call, next, at_⟩
      · exact Or.inr ⟨_, builds⟩
      · exact Or.inl (Or.inr ⟨v, _, call, next, at_⟩)
  · by_cases same : u = v
    · subst same
      rw [Cluster.update_nodes_self] at at_
      rcases move.installing_point at_ with old | ⟨_, builds⟩
      · exact Or.inl (Or.inr ⟨u, p, call, next, old⟩)
      · exact Or.inr ⟨p, builds⟩
    · rw [Cluster.update_nodes_ne s n' out same] at at_
      exact Or.inl (Or.inr ⟨u, p, call, next, at_⟩)

theorem Messaging.step (inv : Messaging m s h) (votes : Electing m s h) (member : v ∈ m.peers)
    (move : Move m.peers s.network v (s.nodes v) a n' out) :
    Messaging m (s.update v n' out) (h.record v n' out) := by
  have past := votes.extends_record member move
  refine ⟨?_, ?_, ?_⟩
  · exact Cluster.forall_nodes_update ((inv.node v).step move) fun u _ => (inv.node u).emit out
  · intro c sent
    rcases Network.mem_appendCalls_emit sent with old | new
    · obtain ⟨name, other, led⟩ := inv.append c old
      exact ⟨name, other, past.leader _ _ led⟩
    · obtain ⟨caller, ⟨other, builds⟩ | ⟨call, next, at_⟩⟩ := move.appendEntries_out new
      · obtain ⟨_, t, _, built, _⟩ := builds.built
        have led := (votes.node v).leads builds.leads
        rw [caller, built]
        exact ⟨rfl, other, past.leader _ _ led⟩
      · obtain ⟨held, own, other, name, term, _⟩ := (inv.node v).installing _ call _ next at_
        have led := (inv.install call held).2.2
        rw [caller, name, term]
        exact ⟨rfl, other, past.leader _ _ (own ▸ led)⟩
  · intro c sent
    rcases Network.mem_installCalls_emit sent with old | new
    · obtain ⟨name, other, led⟩ := inv.install c old
      exact ⟨name, other, past.leader _ _ led⟩
    · obtain ⟨caller, other, leads, name, term, _⟩ := move.installSnapshot_out new
      rw [caller, name, term]
      exact ⟨rfl, other, past.leader _ _ ((votes.node v).leads leads)⟩

theorem Messaging.initial (m : Membership) : Messaging m Cluster.initial {} := by
  constructor <;> simp [Cluster.initial]
  intro v
  constructor <;> simp [Node.boot, Node.readPersist]

theorem Electing.not_leader (votes : Electing m s h) {T : ℕ} {c : PeerId}
    (led : h.leader T = some c) (other : v ∈ otherPeers m.peers c)
    (now : T = (s.nodes v).currentTerm) : (s.nodes v).role ≠ .leader := by
  intro leads
  have mine := (votes.node v).leads leads
  rw [← now, led] at mine
  exact (mem_otherPeers.mp other).2 (Option.some.inj mine).symm

theorem Electing.roleIn_ne_leader (votes : Electing m s h) {T : ℕ} {c : PeerId}
    (led : h.leader T = some c) (other : v ∈ otherPeers m.peers c)
    (current : (s.nodes v).currentTerm ≤ T) : (s.nodes v).roleIn T ≠ .leader := by
  rcases lt_or_eq_of_le current with later | now
  · simp [Node.roleIn_later later]
  · rw [Node.roleIn_same now.ge]
    exact votes.not_leader led other now.symm

end Cluster

end Zdb.Raft
