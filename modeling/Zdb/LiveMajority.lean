import Zdb.Counting
import Zdb.FastBackup
import Zdb.Lifecycle
import Zdb.Lookup
import Zdb.StartOrder

/-! A group of nodes that runs on its own. The other nodes may be killed, gone or
cut off: only members of the group take steps, and none of them is killed, started
anew or snapshotted. Whatever the threads of a member are waiting for when the rest
of the cluster goes away, they can be brought to rest. -/

namespace Zdb.Raft
open LabelledRun LogReplication

/-- Steps of timers, threads, handlers and `start` in runs without snapshots. -/
def Action.ordinary : Action → Bool
  | .initVote _ _ | .requestVote _ _ | .requestVoteReply _ _ _ | .requestVoteHandler _
  | .appendEntries _ _ | .appendEntriesReply _ _ _ _ | .appendEntriesFinish _ _
  | .appendEntriesHandler _ | .applyEnter _ _ | .applySend _ _ | .applyRelock _
  | .start _ _ => true
  | _ => false

def Action.actor (net : Network) : Action → Option PeerId
  | .initVote v _ | .heartbeat v | .requestVote v _ | .requestVoteReply v _ _
  | .appendEntries v _ | .installSnapshotReply v _ _ _ | .appendEntriesReply v _ _ _
  | .appendEntriesFinish v _ | .applyEnter v _ | .applySend v _ | .applyRelock v
  | .snapshotTake v | .snapshotSend v _ | .snapshotRelock v | .start v _ | .snapshot v _ _
  | .kill v | .restart v => some v
  | .requestVoteHandler k => net.voteCalls[k]?.map Call.callee
  | .appendEntriesHandler k => net.appendCalls[k]?.map Call.callee
  | .installSnapshotHandler k => net.installCalls[k]?.map Call.callee
  | .crash rpc k => (net.request rpc k).map Prod.fst

theorem Cluster.act_actor {peers : List PeerId} {s : Cluster} {a : Action} {v : PeerId} {n : Node}
    {out : Output} (found : s.act peers a = some (v, n, out)) : a.actor s.network = some v := by
  have mapped : ∀ {u : PeerId} {done : Option (Node × Output)},
      done.map (u, ·) = some (v, n, out) → some u = some v := by
    intro u done same
    obtain ⟨_, _, pair⟩ := Option.map_eq_some_iff.mp same
    exact congrArg some (congrArg Prod.fst pair)
  cases a with
  | requestVote u peer =>
    simp only [act] at found
    split_ifs at found
    exact mapped found
  | appendEntries u peer =>
    simp only [act] at found
    split_ifs at found
    exact mapped found
  | requestVoteReply u peer k =>
    simp only [act] at found
    split at found
    · contradiction
    · obtain ⟨_, _, same⟩ := Option.map_eq_some_iff.mp found
      cases same
      rfl
  | installSnapshotReply u peer k transport =>
    simp only [act] at found
    split at found
    · obtain ⟨_, _, same⟩ := Option.map_eq_some_iff.mp found
      exact congrArg some (congrArg Prod.fst same)
    · contradiction
  | appendEntriesReply u peer k unset =>
    simp only [act] at found
    split at found
    · obtain ⟨_, _, same⟩ := Option.map_eq_some_iff.mp found
      cases same
      rfl
    · contradiction
  | requestVoteHandler k =>
    obtain ⟨call, sent, same⟩ := Option.map_eq_some_iff.mp found
    have here : call.callee = v := congrArg Prod.fst same
    simp [Action.actor, sent, here]
  | appendEntriesHandler k =>
    obtain ⟨call, sent, same⟩ := Option.map_eq_some_iff.mp found
    have here : call.callee = v := by
      simp only at same
      split_ifs at same <;> exact congrArg Prod.fst same
    simp [Action.actor, sent, here]
  | installSnapshotHandler k =>
    obtain ⟨call, sent, same⟩ := Option.map_eq_some_iff.mp found
    have here : call.callee = v := congrArg Prod.fst same
    simp [Action.actor, sent, here]
  | crash rpc k =>
    simp only [act] at found
    split at found
    · rename_i u term sender asked
      split_ifs at found
      cases found
      simp [Action.actor, asked]
    · contradiction
  | appendEntriesFinish u peer => exact mapped found
  | applyEnter u k => exact mapped found
  | applySend u ok => exact mapped found
  | applyRelock u => exact mapped found
  | snapshotTake u => exact mapped found
  | snapshotSend u ok => exact mapped found
  | snapshotRelock u => exact mapped found
  | _ => exact congrArg some (congrArg Prod.fst (Option.some.inj found))

structure Acts (Q : Finset PeerId) (s : Cluster) (a : Action) : Prop where
  ordinary : a.ordinary = true
  actor : ∃ v ∈ Q, a.actor s.network = some v

structure Alive (n : Node) : Prop where
  live : n.killed = false
  running : n.terminated = false

section Killed
variable {peers : List PeerId} {s : Cluster} {v : PeerId} {n n' : Node} {a : Action}
  {out : Output}

namespace Node

theorem requestVoteReply_live (peer : PeerId) (arg : RequestVoteArg)
    (reply : Option RequestVoteReply) :
    (n.requestVoteReply peers peer arg reply).killed = n.killed := by
  simp only [requestVoteReply]
  split_ifs
  · rfl
  · cases reply with
    | none => rfl
    | some r =>
      simp only
      split_ifs <;> exact (becameFollower_kept _ _ _).2.1

theorem requestVoteHandler_live (arg : RequestVoteArg) :
    (n.requestVoteHandler arg).1.killed = n.killed := by
  rw [requestVoteHandler]
  split_ifs
  · rfl
  · rfl
  · simp only
    split_ifs <;> exact (becameFollower_kept _ _ _).2.1

theorem appendEntriesHandler_live (arg : AppendEntriesArg) :
    (n.appendEntriesHandler arg).1.killed = n.killed := by
  rw [appendEntriesHandler]
  split_ifs
  · rfl
  · rfl
  · simp only
    split_ifs
    · exact (becameFollower_kept _ _ _).2.1
    · exact (becameFollower_kept _ _ _).2.1
    · split <;> exact (becameFollower_kept _ _ _).2.1

theorem appendEntries_live {number snapNumber : ℕ} {peer : PeerId} {done : Node × Output}
    (found : n.appendEntries v number snapNumber peer = some done) :
    done.1.killed = n.killed := by
  simp only [appendEntries] at found
  split_ifs at found
  · cases found
    rfl
  all_goals
    split at found <;> cases found <;> rfl

theorem appendEntriesReply_live (peer : PeerId) (arg : AppendEntriesArg) (next : ℕ)
    (reply : Option AppendEntriesReply) (unset : ℕ × ℕ) :
    (n.appendEntriesReply peers v peer arg next reply unset).killed = n.killed := by
  unfold appendEntriesReply
  simp only
  split_ifs
  · rfl
  · cases reply with
    | none => rfl
    | some r =>
      have kept := (becameFollower_kept (n.setPoint peer .waiting) r.term peer).2.1
      simp only
      split_ifs
      · exact kept
      · exact kept
      · split <;> exact kept
      · exact kept

end Node

theorem Cluster.act_live (found : s.act peers a = some (v, n', out))
    (ordinary : a.ordinary = true) : n'.killed = (s.nodes v).killed := by
  cases a with
  | initVote u elapsed =>
    cases found
    rw [Node.initVote]
    split_ifs <;> rfl
  | requestVote u peer =>
    simp only [act] at found
    split_ifs at found
    obtain ⟨_, done, same⟩ := Option.map_eq_some_iff.mp found
    cases same
    simp only [Node.requestVote] at done
    split_ifs at done
    cases done
    rfl
  | requestVoteReply u peer k =>
    simp only [act] at found
    split at found
    · contradiction
    · obtain ⟨reply, _, same⟩ := Option.map_eq_some_iff.mp found
      cases same
      exact Node.requestVoteReply_live _ _ _
  | requestVoteHandler k =>
    obtain ⟨call, _, same⟩ := Option.map_eq_some_iff.mp found
    cases same
    exact Node.requestVoteHandler_live _
  | appendEntries u peer =>
    simp only [act] at found
    split_ifs at found
    obtain ⟨_, done, same⟩ := Option.map_eq_some_iff.mp found
    cases same
    exact Node.appendEntries_live done
  | appendEntriesReply u peer k unset =>
    simp only [act] at found
    split at found
    · obtain ⟨reply, _, same⟩ := Option.map_eq_some_iff.mp found
      cases same
      exact Node.appendEntriesReply_live _ _ _ _ _
    · contradiction
  | appendEntriesFinish u peer =>
    obtain ⟨_, done, same⟩ := Option.map_eq_some_iff.mp found
    cases same
    simp only [Node.appendEntriesFinish] at done
    split_ifs at done
    cases done
    rfl
  | appendEntriesHandler k =>
    obtain ⟨call, _, same⟩ := Option.map_eq_some_iff.mp found
    simp only at same
    split_ifs at same <;> cases same <;> exact Node.appendEntriesHandler_live _
  | applyEnter u k =>
    obtain ⟨_, done, same⟩ := Option.map_eq_some_iff.mp found
    cases same
    rw [Node.applyEnter_control done]
  | applySend u ok =>
    obtain ⟨_, done, same⟩ := Option.map_eq_some_iff.mp found
    cases same
    rw [Node.applySend_control done]
  | applyRelock u =>
    obtain ⟨_, done, same⟩ := Option.map_eq_some_iff.mp found
    cases same
    rw [Node.applyRelock_control done]
  | start u command =>
    cases found
    rw [Node.start]
    split_ifs <;> rfl
  | _ => cases ordinary

end Killed

theorem mem_eraseIdx_of_ne {α : Type} {l : List α} {k : ℕ} {x y : α} (at_ : l[k]? = some y)
    (listed : x ∈ l) (differ : x ≠ y) : x ∈ l.eraseIdx k := by
  obtain ⟨i, found⟩ := List.mem_iff_getElem?.mp listed
  refine List.mem_eraseIdx_iff_getElem?.mpr ⟨i, ?_, found⟩
  rintro rfl
  exact differ (Option.some.inj (found.symm.trans at_))

theorem Delivers.waits_kept {v : PeerId} {n : Node} {a : Action} {d : Delivery}
    {returns : Option ApplyCaller} {caller : ApplyCaller} (delivers : Delivers v n a d returns)
    (waits : n.Waits caller) (stays : returns ≠ some caller) :
    ({ n with toDelivery := d } : Node).Waits caller := by
  have other : ∀ caller', returns = some caller' → caller ≠ caller' :=
    fun caller' back same => stays (by rw [back, same])
  cases delivers with
  | enterReturn k caller' free queued =>
    rcases waits with listed | ⟨point, held⟩
    · exact Or.inl (mem_eraseIdx_of_ne queued listed (other caller' rfl))
    · simp [free] at held
  | enterSend k caller' c free queued =>
    rcases waits with listed | ⟨point, held⟩
    · by_cases same : caller = caller'
      · subst same
        exact Or.inr ⟨_, rfl⟩
      · exact Or.inl (mem_eraseIdx_of_ne queued listed same)
    · simp [free] at held
  | sendOk caller' i c at_ =>
    refine waits.imp id fun ⟨point, held⟩ => ?_
    cases at_.symm.trans held
    exact ⟨_, rfl⟩
  | relockSend caller' i c at_ =>
    refine waits.imp id fun ⟨point, held⟩ => ?_
    cases at_.symm.trans held
    exact ⟨_, rfl⟩
  | sendFail caller' i c at_ =>
    rcases waits with listed | ⟨point, held⟩
    · exact Or.inl listed
    · cases at_.symm.trans held
      exact absurd rfl (other caller rfl)
  | relockReturn caller' i at_ =>
    rcases waits with listed | ⟨point, held⟩
    · exact Or.inl listed
    · cases at_.symm.trans held
      exact absurd rfl (other caller rfl)
  | _ => exact waits

def Queued (n : Node) : Prop :=
  ∀ p, (n.appendEntriesThread p).point = .applying → n.Waits (.leader p)

theorem Queued.step {peers : List PeerId} {net : Network} {v : PeerId} {n n' : Node} {a : Action}
    {out : Output} (queued : Queued n) (move : Move peers net v n a n' out) : Queued n' := by
  -- one thread moves on to a point outside `applyCommittedEntries`
  have leaves : ∀ (t : PeerId → AppendEntriesThread) peer, (t peer).point ≠ .applying →
      (∀ p, p ≠ peer → t p = n.appendEntriesThread p) →
      ∀ p, (t p).point = .applying → n.Waits (.leader p) := by
    intro t peer outside same p at_
    by_cases here : p = peer
    · subst here
      exact absurd at_ outside
    · exact queued p (same p here ▸ at_)
  have idle : ∀ t, Idles n.appendEntriesThread t →
      ∀ p, (t p).point = .applying → n.Waits (.leader p) := by
    intro t idles p at_
    rcases idles p with same | waiting
    · exact queued p (same ▸ at_)
    · simp [waiting] at at_
  cases move with
  | quiet a control t r out idles => exact idle t idles
  | adopt a T control t r out later idles => exact idle t idles
  | accept k call control d out found here current clear accepts success follows =>
    cases follows with
    | stay => exact queued
    | raise =>
      intro p at_
      exact (queued p at_).imp (fun listed => List.mem_append_left _ listed) id
  | sendAppend peer =>
    exact leaves _ peer (by simp [Node.setPoint]) fun p apart => by simp [Node.setPoint, apart]
  | sendInstall peer =>
    refine leaves _ peer (by simp [Node.setPoint]) fun p apart => ?_
    simp [Node.setPoint, Node.setSendSnapshot, apart]
  | installed peer => exact leaves _ peer (by simp) fun p apart => by simp [apart]
  | acknowledged peer => exact leaves _ peer (by simp) fun p apart => by simp [apart]
  | backUp peer => exact leaves _ peer (by simp) fun p apart => by simp [apart]
  | commit peer =>
    intro p at_
    by_cases here : p = peer
    · subst here
      exact Or.inl (List.mem_append_right _ (List.mem_singleton_self _))
    · simp only [Function.update_of_ne here] at at_
      exact (queued p at_).imp (fun listed => List.mem_append_left _ listed) id
  | reboot => intro p at_; simp at at_
  | deliver a d delivers =>
    intro p at_
    exact delivers.waits_kept (queued p at_) (by simp)
  | deliverReturn a d caller delivers =>
    cases caller with
    | handler call reply =>
      intro p at_
      exact delivers.waits_kept (queued p at_) (by simp)
    | leader peer =>
      intro p at_
      by_cases here : p = peer
      · subst here
        simp [Node.resume, Node.setPoint] at at_
      · simp only [Node.resume, Node.setPoint, Function.update_of_ne here] at at_
        exact delivers.waits_kept (queued p at_) (by simpa using Ne.symm here)
  | _ => exact queued

structure Group (m : Membership) (Q : Finset PeerId) (s : Cluster) : Prop where
  inside : ∀ q ∈ Q, q ∈ m.peers
  sound : ∃ h g decided, Deciding m s h g decided
  queued : ∀ v, Queued (s.nodes v)
  alive : ∀ q ∈ Q, Alive (s.nodes q)

namespace Group
variable {m : Membership} {Q : Finset PeerId} {s t : Cluster} {v : PeerId} {a : Action}

theorem free (group : Group m Q s) : SnapshotFree m s := by
  obtain ⟨_, _, _, dec⟩ := group.sound
  exact dec.free

theorem step (group : Group m Q s) (acts : Acts Q s a)
    (step : Cluster.step m s a = some t) : Group m Q t := by
  have calm : a.isSnapshot = false := by
    have := acts.ordinary
    cases a <;> first | rfl | cases this
  obtain ⟨h, g, decided, dec⟩ := group.sound
  obtain ⟨u, n, out, g', decided', found, rfl, move, dec', -⟩ := dec.step calm step
  obtain ⟨u', member, named⟩ := acts.actor
  obtain rfl : u = u' := Option.some.inj ((Cluster.act_actor found).symm.trans named)
  refine ⟨group.inside, ⟨_, _, _, dec'⟩, ?_, ?_⟩
  · exact Cluster.forall_nodes_update (P := fun _ n => Queued n) ((group.queued u).step move)
      fun w _ => group.queued w
  · have own := group.alive u member
    have stays : Alive n := by
      refine ⟨(Cluster.act_live found acts.ordinary).trans own.live, ?_⟩
      refine Cluster.act_lookup found own.running (dec.rep.node u).contiguous (dec.free.synced u) ?_
      cases a with
      | appendEntriesReply w peer k unset =>
        cases k with
        | none => rfl
        | some k => simp [scansStored, (dec.free.node w).point]
      | _ => rfl
    intro q hq
    exact Cluster.forall_nodes_update (P := fun q n => q ∈ Q → Alive n) (fun _ => stays)
      (fun w _ => group.alive w) q hq

theorem reaches (group : Group m Q s)
    (reaches : Reaches (Cluster.step m) (Acts Q) s t) : Group m Q t :=
  reaches.invariant (fun _ _ _ group acts step => group.step acts step) group

theorem act (group : Group m Q s) (member : v ∈ Q) {n : Node} {out : Output}
    (found : s.act m.peers a = some (v, n, out)) (ordinary : a.ordinary = true) :
    Reaches (Cluster.step m) (Acts Q) s (s.update v n out) :=
  .single (Cluster.step_of_act found (group.inside v member) (group.alive v member).running)
    ⟨ordinary, v, member, Cluster.act_actor found⟩

theorem of_run {actions : List Action} (calm : ∀ a ∈ actions, a.isSnapshot = false)
    (run : Cluster.run m actions = some s) (inside : ∀ q ∈ Q, q ∈ m.peers)
    (alive : ∀ q ∈ Q, Alive (s.nodes q)) : Group m Q s := by
  have good : Along (Cluster.step m) (fun _ a => a.isSnapshot = false) Cluster.initial actions :=
    along_of_invariant (fun _ => True) (fun a : Action => a.isSnapshot = false)
      (fun _ _ _ _ _ _ => trivial) (fun _ _ _ calm => calm) trivial calm
  have both := exec_invariant
    (fun s => (∃ h g decided, Deciding m s h g decided) ∧ ∀ v, Queued (s.nodes v)) ?_
    ⟨⟨_, _, _, Deciding.initial m⟩, ?_⟩ good run
  · exact ⟨inside, both.1, both.2, alive⟩
  · rintro s a t ⟨⟨h, g, decided, dec⟩, queued⟩ calm step
    obtain ⟨u, n, out, g', decided', found, rfl, move, dec', -⟩ := dec.step calm step
    refine ⟨⟨_, _, _, dec'⟩, ?_⟩
    exact Cluster.forall_nodes_update (P := fun _ n => Queued n) ((queued u).step move)
      fun w _ => queued w
  · intro v p at_
    simp [Cluster.initial, Node.boot, Node.readPersist] at at_

end Group

structure Eased (p : PeerId) (s t : Cluster) : Prop where
  others : ∀ u, u ≠ p → t.nodes u = s.nodes u
  store : (t.nodes p).toStore = (s.nodes p).toStore
  control : (t.nodes p).toControl = (s.nodes p).toControl
  role : (t.nodes p).role = (s.nodes p).role
  term : (t.nodes p).currentTerm = (s.nodes p).currentTerm
  answers : ∀ x ∈ s.network.appendAnswers, x ∈ t.network.appendAnswers
  answered : ∀ call reply, (s.nodes p).Waits (.handler call reply) →
    (t.nodes p).Waits (.handler call reply) ∨ ⟨call, reply⟩ ∈ t.network.appendAnswers

namespace Eased
variable {p : PeerId} {s t u : Cluster}

theorem refl (p : PeerId) (s : Cluster) : Eased p s s :=
  ⟨fun _ _ => rfl, rfl, rfl, rfl, rfl, fun _ sent => sent, fun _ _ waits => Or.inl waits⟩

theorem trans (first : Eased p s t) (rest : Eased p t u) : Eased p s u where
  others w apart := (rest.others w apart).trans (first.others w apart)
  store := rest.store.trans first.store
  control := rest.control.trans first.control
  role := rest.role.trans first.role
  term := rest.term.trans first.term
  answers x sent := rest.answers x (first.answers x sent)
  answered call reply waits := by
    rcases first.answered call reply waits with still | sent
    · exact rest.answered call reply still
    · exact Or.inr (rest.answers _ sent)

theorem returned (x : ℕ) (q : List ApplyCaller) (caller : ApplyCaller)
    (covers : ∀ c, (s.nodes p).Waits c → c ∈ q ∨ c = caller) :
    Eased p s (s.update p
      ({ s.nodes p with lastApplied := x, applyQueue := q, applyThread := none } |>.resume
        caller).1
      ({ s.nodes p with lastApplied := x, applyQueue := q, applyThread := none } |>.resume
        caller).2) := by
  refine ⟨fun u apart => Cluster.update_nodes_ne _ _ _ apart, ?_, ?_, ?_, ?_,
    fun y sent => Network.appendAnswers_emit sent, fun call reply waits => ?_⟩
  · rw [Cluster.update_nodes_self]
    cases caller <;> rfl
  · rw [Cluster.update_nodes_self]
    cases caller <;> rfl
  · rw [Cluster.update_nodes_self]
    cases caller <;> rfl
  · rw [Cluster.update_nodes_self]
    cases caller <;> rfl
  · rcases covers _ waits with listed | rfl
    · left
      rw [Cluster.update_nodes_self]
      cases caller <;> exact Or.inl listed
    · right
      simp [Node.resume, Network.emit]

theorem sending (x : ℕ) (q : List ApplyCaller) (caller : ApplyCaller) (point : ApplyPoint)
    (covers : ∀ c, (s.nodes p).Waits c → c ∈ q ∨ c = caller) :
    Eased p s (s.update p
      { s.nodes p with lastApplied := x, applyQueue := q, applyThread := some (caller, point) }
      .nothing) := by
  refine ⟨fun u apart => Cluster.update_nodes_ne _ _ _ apart, ?_, ?_, ?_, ?_, fun y sent => sent,
    fun call reply waits => Or.inl ?_⟩
  · rw [Cluster.update_nodes_self]
  · rw [Cluster.update_nodes_self]
  · rw [Cluster.update_nodes_self]
  · rw [Cluster.update_nodes_self]
  · rw [Cluster.update_nodes_self]
    rcases covers _ waits with listed | rfl
    · exact Or.inl listed
    · exact Or.inr ⟨_, rfl⟩

end Eased

namespace Node
variable (n : Node) (caller : ApplyCaller)

theorem resume_queue : (n.resume caller).1.applyQueue = n.applyQueue := by cases caller <;> rfl

theorem resume_thread : (n.resume caller).1.applyThread = n.applyThread := by cases caller <;> rfl

theorem applyLoop_cases : n.applyLoop caller = n.applyReturn caller ∨ ∃ c,
    n.applyLoop caller =
      ({ n with applyThread := some (caller, .sending (n.lastApplied + 1) c) }, .nothing) := by
  rw [applyLoop]
  split_ifs
  · exact Or.inl rfl
  · split
    · exact Or.inl rfl
    · exact Or.inr ⟨_, rfl⟩

theorem applyCommittedEntries_cases :
    n.applyCommittedEntries caller = n.applyReturn caller ∨ ∃ c,
      n.applyCommittedEntries caller =
        ({ n with applyThread := some (caller, .sending (n.lastApplied + 1) c) }, .nothing) := by
  rw [applyCommittedEntries]
  split_ifs
  · exact Or.inl rfl
  · exact n.applyLoop_cases caller

end Node

/-- The steps of callers of `applyCommittedEntries` whose sends time out. -/
def Action.applies : Action → Bool
  | .applyEnter _ _ | .applySend _ false | .applyRelock _ => true
  | _ => false

theorem Action.ordinary_of_applies {a : Action} (applies : a.applies = true) :
    a.ordinary = true := by
  cases a <;> first | rfl | exact absurd applies Bool.false_ne_true

def Applying (m : Membership) (ok : Cluster → Action → Prop) (p : PeerId) (P : Cluster → Prop) :
    Prop :=
  ∀ s a n out, P s → s.act m.peers a = some (p, n, out) → a.applies = true →
    Reaches (Cluster.step m) ok s (s.update p n out) ∧ P (s.update p n out)

namespace Applying
variable {m : Membership} {ok : Cluster → Action → Prop} {p : PeerId} {P : Cluster → Prop}
  {s : Cluster} (acts : Applying m ok p P)
include acts

theorem release_sending (holds : P s) {caller : ApplyCaller} {i : ℕ}
    {c : LogEntry} (at_ : (s.nodes p).applyThread = some (caller, .sending i c)) :
    ∃ t, Reaches (Cluster.step m) ok s t ∧ P t ∧ Eased p s t ∧
      (t.nodes p).applyThread = none ∧ (t.nodes p).applyQueue = (s.nodes p).applyQueue := by
  have found : s.act m.peers (.applySend p false) =
      some (p, (s.nodes p).applyReturn caller) := by
    simp [Cluster.act, Node.applySend, at_]
  obtain ⟨reaches, kept⟩ := acts _ _ _ _ holds found rfl
  refine ⟨_, reaches, kept,
    Eased.returned (s.nodes p).lastApplied (s.nodes p).applyQueue caller ?_, ?_, ?_⟩
  · rintro c (listed | ⟨point, held⟩)
    · exact Or.inl listed
    · cases at_.symm.trans held
      exact Or.inr rfl
  · rw [Cluster.update_nodes_self]
    exact Node.resume_thread _ caller
  · rw [Cluster.update_nodes_self]
    exact Node.resume_queue _ caller

theorem release (holds : P s) : ∃ t, Reaches (Cluster.step m) ok s t ∧ P t ∧ Eased p s t ∧
    (t.nodes p).applyThread = none ∧ (t.nodes p).applyQueue = (s.nodes p).applyQueue := by
  cases at_ : (s.nodes p).applyThread with
  | none => exact ⟨s, .refl s, holds, .refl p s, at_, rfl⟩
  | some x =>
    obtain ⟨caller, point⟩ := x
    cases point with
    | sending i c => exact acts.release_sending holds at_
    | sent i =>
      have covers : ∀ c, (s.nodes p).Waits c → c ∈ (s.nodes p).applyQueue ∨ c = caller := by
        rintro c (listed | ⟨point, held⟩)
        · exact Or.inl listed
        · cases at_.symm.trans held
          exact Or.inr rfl
      have found : s.act m.peers (.applyRelock p) =
          some (p, ({ s.nodes p with lastApplied := i }).applyLoop caller) := by
        simp [Cluster.act, Node.applyRelock, at_]
      rcases Node.applyLoop_cases { s.nodes p with lastApplied := i } caller with back | ⟨c, goes⟩
      · rw [back] at found
        obtain ⟨reaches, kept⟩ := acts _ _ _ _ holds found rfl
        refine ⟨_, reaches, kept, Eased.returned i _ caller covers, ?_, ?_⟩
        · rw [Cluster.update_nodes_self]
          exact Node.resume_thread _ caller
        · rw [Cluster.update_nodes_self]
          exact Node.resume_queue _ caller
      · rw [goes] at found
        obtain ⟨first, kept⟩ := acts _ _ _ _ holds found rfl
        obtain ⟨t, rest, kept, eased, free, queue⟩ := acts.release_sending kept
          (by rw [Cluster.update_nodes_self])
        refine ⟨t, first.trans rest, kept, (Eased.sending i _ caller _ covers).trans eased, free,
          ?_⟩
        rw [queue, Cluster.update_nodes_self]

theorem enter (holds : P s) (free : (s.nodes p).applyThread = none)
    {caller : ApplyCaller} {rest : List ApplyCaller}
    (queue : (s.nodes p).applyQueue = caller :: rest) :
    ∃ t, Reaches (Cluster.step m) ok s t ∧ P t ∧ Eased p s t ∧
      (t.nodes p).applyThread = none ∧ (t.nodes p).applyQueue = rest := by
  have covers : ∀ c, (s.nodes p).Waits c → c ∈ rest ∨ c = caller := by
    rintro c (listed | ⟨point, held⟩)
    · rw [queue, List.mem_cons] at listed
      exact listed.symm
    · simp [free] at held
  have found : s.act m.peers (.applyEnter p 0) =
      some (p, ({ s.nodes p with applyQueue := rest }).applyCommittedEntries caller) := by
    simp [Cluster.act, Node.applyEnter, free, queue]
  rcases Node.applyCommittedEntries_cases { s.nodes p with applyQueue := rest } caller with
    back | ⟨c, goes⟩
  · rw [back] at found
    obtain ⟨reaches, kept⟩ := acts _ _ _ _ holds found rfl
    refine ⟨_, reaches, kept, Eased.returned _ rest caller covers, ?_, ?_⟩
    · rw [Cluster.update_nodes_self]
      exact Node.resume_thread _ caller
    · rw [Cluster.update_nodes_self]
      exact Node.resume_queue _ caller
  · rw [goes] at found
    obtain ⟨first, kept⟩ := acts _ _ _ _ holds found rfl
    obtain ⟨t, later, kept, eased, done, same⟩ := acts.release_sending kept
      (by rw [Cluster.update_nodes_self])
    refine ⟨t, first.trans later, kept, (Eased.sending _ rest caller _ covers).trans eased, done,
      ?_⟩
    rw [same, Cluster.update_nodes_self]

theorem drain (holds : P s) : ∃ t, Reaches (Cluster.step m) ok s t ∧ P t ∧ Eased p s t ∧
    (t.nodes p).applyThread = none ∧ (t.nodes p).applyQueue = [] := by
  obtain ⟨t, first, kept, eased, free, -⟩ := acts.release holds
  suffices ∀ queue s, P s → (s.nodes p).applyThread = none →
      (s.nodes p).applyQueue = queue → ∃ t, Reaches (Cluster.step m) ok s t ∧ P t ∧
        Eased p s t ∧ (t.nodes p).applyThread = none ∧ (t.nodes p).applyQueue = [] by
    obtain ⟨t', later, kept, eased', done⟩ := this _ t kept free rfl
    exact ⟨t', first.trans later, kept, eased.trans eased', done⟩
  intro queue
  induction queue with
  | nil =>
    intro s holds free empty
    exact ⟨s, .refl s, holds, .refl p s, free, empty⟩
  | cons caller rest ih =>
    intro s holds free listed
    obtain ⟨t, first, kept, eased, free', queue'⟩ := acts.enter holds free listed
    obtain ⟨t', later, kept, eased', done⟩ := ih t kept free' queue'
    exact ⟨t', first.trans later, kept, eased.trans eased', done⟩

end Applying

theorem Group.drain {m : Membership} {Q : Finset PeerId} {s : Cluster} {p : PeerId}
    (group : Group m Q s) (member : p ∈ Q) :
    ∃ t, Reaches (Cluster.step m) (Acts Q) s t ∧ Eased p s t ∧
      (t.nodes p).applyThread = none ∧ (t.nodes p).applyQueue = [] := by
  have acts : Applying m (Acts Q) p (Group m Q) := fun s a n out group found applies => by
    have reaches := group.act member found (Action.ordinary_of_applies applies)
    exact ⟨reaches, group.reaches reaches⟩
  obtain ⟨t, reaches, -, drained⟩ := acts.drain group
  exact ⟨t, reaches, drained⟩

structure Rested (v : PeerId) (s t : Cluster) : Prop where
  others : ∀ u, u ≠ v → t.nodes u = s.nodes u
  store : (t.nodes v).toStore = (s.nodes v).toStore
  delivery : (t.nodes v).toDelivery = (s.nodes v).toDelivery
  role : (t.nodes v).role = (s.nodes v).role
  term : (t.nodes v).currentTerm = (s.nodes v).currentTerm
  waiting : ∀ p, ((s.nodes v).appendEntriesThread p).point = .waiting →
    ((t.nodes v).appendEntriesThread p).point = .waiting

theorem Rested.refl (v : PeerId) (s : Cluster) : Rested v s s :=
  ⟨fun _ _ => rfl, rfl, rfl, rfl, rfl, fun _ waits => waits⟩

theorem Rested.trans {v : PeerId} {s t u : Cluster} (first : Rested v s t) (rest : Rested v t u) :
    Rested v s u where
  others w apart := (rest.others w apart).trans (first.others w apart)
  store := rest.store.trans first.store
  delivery := rest.delivery.trans first.delivery
  role := rest.role.trans first.role
  term := rest.term.trans first.term
  waiting p waits := rest.waiting p (first.waiting p waits)

theorem Rested.of_point {v p : PeerId} {s : Cluster} {n : Node}
    (thread : n.appendEntriesThread =
      ((s.nodes v).setPoint p .waiting).appendEntriesThread)
    (store : n.toStore = (s.nodes v).toStore) (delivery : n.toDelivery = (s.nodes v).toDelivery)
    (role : n.role = (s.nodes v).role) (term : n.currentTerm = (s.nodes v).currentTerm) :
    Rested v s (s.update v n .nothing) ∧
      (((s.update v n .nothing).nodes v).appendEntriesThread p).point = .waiting := by
  rw [Cluster.update_nodes_self, thread]
  refine ⟨⟨fun u apart => Cluster.update_nodes_ne _ _ _ apart, ?_, ?_, ?_, ?_, fun q waits => ?_⟩,
    by simp [Node.setPoint]⟩
  · rw [Cluster.update_nodes_self, store]
  · rw [Cluster.update_nodes_self, delivery]
  · rw [Cluster.update_nodes_self, role]
  · rw [Cluster.update_nodes_self, term]
  · rw [Cluster.update_nodes_self, thread]
    by_cases here : q = p
    · subst here
      simp [Node.setPoint]
    · simpa [Node.setPoint, here] using waits

namespace Group
variable {m : Membership} {Q : Finset PeerId} {s : Cluster} {v : PeerId}

theorem rest_one (group : Group m Q s) (member : v ∈ Q) (leads : (s.nodes v).role = .leader)
    (free : (s.nodes v).applyThread = none) (empty : (s.nodes v).applyQueue = []) (p : PeerId) :
    ∃ t, Reaches (Cluster.step m) (Acts Q) s t ∧ Rested v s t ∧
      ((t.nodes v).appendEntriesThread p).point = .waiting := by
  cases at_ : ((s.nodes v).appendEntriesThread p).point with
  | waiting => exact ⟨s, .refl s, .refl v s, at_⟩
  | installing call arg next =>
    have sent := ((group.free.threads v).installing p call arg next at_).1
    simp [group.free.calls] at sent
  | appending call next =>
    have live := (group.alive v member).live
    have found : s.act m.peers (.appendEntriesReply v p none (0, 0)) =
        some (v, ((s.nodes v).setPoint p .waiting).raiseAppendNow p, .nothing) := by
      simp [Cluster.act, at_, received, Node.appendEntriesReply, Node.setPoint, live, leads]
    obtain ⟨rested, waits⟩ := Rested.of_point (s := s) (v := v) (p := p)
      (n := ((s.nodes v).setPoint p .waiting).raiseAppendNow p) rfl rfl rfl rfl rfl
    exact ⟨_, group.act member found rfl, rested, waits⟩
  | applying =>
    rcases group.queued v p at_ with listed | ⟨point, held⟩
    · simp [empty] at listed
    · simp [free] at held
  | finishing =>
    have found : s.act m.peers (.appendEntriesFinish v p) =
        some (v, ((s.nodes v).setPoint p .waiting).clearFlags p, .nothing) := by
      simp [Cluster.act, Node.appendEntriesFinish, at_]
    obtain ⟨rested, waits⟩ := Rested.of_point (s := s) (v := v) (p := p)
      (n := ((s.nodes v).setPoint p .waiting).clearFlags p) rfl rfl rfl rfl rfl
    exact ⟨_, group.act member found rfl, rested, waits⟩

theorem rest (group : Group m Q s) (member : v ∈ Q) (leads : (s.nodes v).role = .leader)
    (free : (s.nodes v).applyThread = none) (empty : (s.nodes v).applyQueue = [])
    (peers : List PeerId) : ∃ t, Reaches (Cluster.step m) (Acts Q) s t ∧ Rested v s t ∧
      ∀ p ∈ peers, ((t.nodes v).appendEntriesThread p).point = .waiting := by
  induction peers with
  | nil => exact ⟨s, .refl s, .refl v s, by simp⟩
  | cons p peers ih =>
    obtain ⟨t, first, rested, all⟩ := ih
    obtain ⟨t', later, rested', own⟩ := (group.reaches first).rest_one member
      (rested.role.trans leads) (by rw [rested.delivery, free]) (by rw [rested.delivery, empty]) p
    refine ⟨t', first.trans later, rested.trans rested', ?_⟩
    intro q listed
    rcases List.mem_cons.mp listed with rfl | old
    · exact own
    · exact rested'.waiting q (all q old)

end Group

end Zdb.Raft
