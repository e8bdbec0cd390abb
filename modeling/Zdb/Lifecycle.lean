import Zdb.Durability

/-! What `kill` ends. A killed node keeps its log and its
snapshot, asks nobody for anything and grants nothing; only entries already being
applied are still delivered, and `initVote`, which does not look at the flag, still
raises its term. -/

namespace Zdb.Raft
open TermLog LabelledRun LogReplication

structure Winding (n n' : Node) (out : Output) : Prop where
  killed : n'.killed = true
  store : n'.toStore = n.toStore
  role : n'.role = .leader → n.role = .leader ∧ n'.currentTerm = n.currentTerm
  waits : ∀ caller, n'.Waits caller → n.Waits caller
  out : out.Rejects ∨
    ∃ call reply, out = .appendEntriesAnswer ⟨call, reply⟩ ∧ n.Waits (.handler call reply)

section Killed
variable {peers : List PeerId} {s : Cluster} {v : PeerId} {n n' : Node} {a : Action}
  {out : Output}

theorem Winding.still (killed : n'.killed = true) (store : n'.toStore = n.toStore)
    (delivery : n'.toDelivery = n.toDelivery) (role : n'.role = n.role)
    (term : n'.currentTerm = n.currentTerm) (rejects : out.Rejects) : Winding n n' out where
  killed := killed
  store := store
  role leads := ⟨role.symm.trans leads, term⟩
  waits caller := by simp [Node.Waits, delivery]
  out := Or.inl rejects

namespace Node

theorem resume_control (caller : ApplyCaller) : (n.resume caller).1.toControl = n.toControl := by
  cases caller <;> rfl

theorem applyLoop_control (caller : ApplyCaller) :
    (n.applyLoop caller).1.toControl = n.toControl := by
  rw [applyLoop]
  split_ifs
  · exact resume_control caller
  · split
    · exact resume_control caller
    · rfl

theorem applyEnter_control {k : ℕ} (done : n.applyEnter k = some (n', out)) :
    n'.toControl = n.toControl := by
  rw [applyEnter] at done
  split at done
  · have entered := congrArg Prod.fst (Option.some.inj done)
    rw [← show _ = n' from entered, applyCommittedEntries]
    split_ifs
    · exact resume_control _
    · exact applyLoop_control _
  · contradiction

theorem applySend_control {ok : Bool} (done : n.applySend ok = some (n', out)) :
    n'.toControl = n.toControl := by
  rw [applySend] at done
  split at done
  · split_ifs at done
    · cases done
      rfl
    · rw [← show _ = n' from congrArg Prod.fst (Option.some.inj done)]
      exact resume_control _
  · contradiction

theorem applyRelock_control (done : n.applyRelock = some (n', out)) :
    n'.toControl = n.toControl := by
  rw [applyRelock] at done
  split at done
  · rw [← show _ = n' from congrArg Prod.fst (Option.some.inj done)]
    exact applyLoop_control _
  · contradiction

theorem snapshotSend_control {ok : Bool} (done : n.snapshotSend ok = some (n', out)) :
    n'.toControl = n.toControl := by
  rw [snapshotSend] at done
  split at done
  · split_ifs at done <;> cases done <;> rfl
  · contradiction

theorem snapshotRelock_control (done : n.snapshotRelock = some (n', out)) :
    n'.toControl = n.toControl := by
  rw [snapshotRelock] at done
  split at done
  · split_ifs at done <;> cases done <;> rfl
  · contradiction

theorem installSnapshotReply_killed (dead : n.killed = true) (number : ℕ) (peer : PeerId)
    (snapArg : InstallSnapshotArg) (arg : AppendEntriesArg) (next : ℕ)
    (reply : Option InstallSnapshotReply) :
    n.installSnapshotReply v number peer snapArg arg next reply =
      ((n.setPoint peer .waiting).clearFlags peer, .nothing) := by
  unfold installSnapshotReply
  exact if_pos (Or.inl dead)

theorem appendEntriesReply_killed (dead : n.killed = true) (peer : PeerId)
    (arg : AppendEntriesArg) (next : ℕ) (reply : Option AppendEntriesReply) (unset : ℕ × ℕ) :
    n.appendEntriesReply peers v peer arg next reply unset =
      (n.setPoint peer .waiting).clearFlags peer := by
  unfold appendEntriesReply
  exact if_pos (Or.inl dead)

end Node

def Action.delivers : Action → Bool
  | .applyEnter _ _ | .applySend _ _ | .applyRelock _ | .snapshotSend _ _ | .snapshotRelock _ =>
      true
  | _ => false

theorem Winding.of_move {net : Network} (move : Move peers net v n a n' out)
    (delivery : a.delivers = true) (control : n'.toControl = n.toControl)
    (dead : n.killed = true) : Winding n n' out := by
  have killed : n'.killed = true := by rw [control, dead]
  cases move with
  | quiet a control t r out idles hears rejects => exact .still killed rfl rfl rfl rfl rejects
  | adopt a T control t r out later idles hears rejects =>
    exact ⟨killed, rfl, by simp, fun _ waits => waits, Or.inl rejects⟩
  | reboot =>
    exact ⟨killed, rfl, by simp, by simp [Node.Waits], Or.inl trivial⟩
  | deliver a d delivers =>
    exact ⟨killed, rfl, fun leads => ⟨leads, rfl⟩, fun _ => delivers.waits, Or.inl trivial⟩
  | deliverReturn a d caller delivers =>
    have returned := delivers.returns_waits
    cases caller with
    | handler call reply =>
      exact ⟨killed, rfl, fun leads => ⟨leads, rfl⟩, fun _ => delivers.waits,
        Or.inr ⟨call, reply, rfl, returned⟩⟩
    | leader peer =>
      exact ⟨killed, rfl, fun leads => ⟨leads, rfl⟩, fun _ => delivers.waits, Or.inl trivial⟩
  | _ => cases delivery

theorem Node.initVote_winding (dead : n.killed = true) (elapsed : Bool) :
    Winding n (n.initVote v elapsed) .nothing := by
  rw [Node.initVote]
  split_ifs
  · exact .still dead rfl rfl rfl rfl trivial
  · exact ⟨dead, rfl, by simp [Node.persist], fun _ waits => waits, Or.inl trivial⟩

theorem Cluster.act_killed (found : s.act peers a = some (v, n', out))
    (dead : (s.nodes v).killed = true) (stays : a ≠ .restart v) :
    Winding (s.nodes v) n' out := by
  have delivery : ∀ a, a.delivers = true → Move peers s.network v (s.nodes v) a n' out →
      n'.toControl = (s.nodes v).toControl → Winding (s.nodes v) n' out :=
    fun _ delivers move control => .of_move move delivers control dead
  cases a with
  | initVote u elapsed =>
    cases found
    exact Node.initVote_winding dead elapsed
  | heartbeat u =>
    cases found
    rw [Node.heartbeat]
    split_ifs <;> exact .still dead rfl rfl rfl rfl trivial
  | requestVote u peer =>
    simp only [Cluster.act] at found
    split_ifs at found
    obtain ⟨done, made, same⟩ := Option.map_eq_some_iff.mp found
    cases same
    simp [Node.requestVote, dead] at made
  | requestVoteReply u peer k =>
    simp only [Cluster.act] at found
    split at found
    · contradiction
    · obtain ⟨reply, _, same⟩ := Option.map_eq_some_iff.mp found
      cases same
      simp only [Node.requestVoteReply, dead, true_or, if_true]
      exact .still dead rfl rfl rfl rfl trivial
  | requestVoteHandler k =>
    obtain ⟨call, _, same⟩ := Option.map_eq_some_iff.mp found
    cases same
    simp only [Node.requestVoteHandler, dead, if_true]
    exact .still dead rfl rfl rfl rfl rfl
  | appendEntries u peer =>
    simp only [Cluster.act] at found
    split_ifs at found
    obtain ⟨done, made, same⟩ := Option.map_eq_some_iff.mp found
    cases same
    simp [Node.appendEntries, dead] at made
  | installSnapshotReply u peer k transport =>
    simp only [Cluster.act] at found
    split at found
    · obtain ⟨reply, _, same⟩ := Option.map_eq_some_iff.mp found
      obtain ⟨rfl, made⟩ := Prod.mk.inj same
      rw [Node.installSnapshotReply_killed dead] at made
      cases made
      exact .still dead rfl rfl rfl rfl trivial
    · contradiction
  | appendEntriesReply u peer k unset =>
    simp only [Cluster.act] at found
    split at found
    · obtain ⟨reply, _, same⟩ := Option.map_eq_some_iff.mp found
      cases same
      rw [Node.appendEntriesReply_killed dead]
      exact .still dead rfl rfl rfl rfl trivial
    · contradiction
  | appendEntriesFinish u peer =>
    obtain ⟨done, made, same⟩ := Option.map_eq_some_iff.mp found
    simp only [Node.appendEntriesFinish] at made
    split_ifs at made
    cases made
    cases same
    exact .still dead rfl rfl rfl rfl trivial
  | appendEntriesHandler k =>
    obtain ⟨call, _, same⟩ := Option.map_eq_some_iff.mp found
    have refused : (s.nodes call.callee).killed = true →
        (s.nodes call.callee).appendEntriesHandler call.arg = (s.nodes call.callee,
          { success := false, term := (s.nodes call.callee).currentTerm }, false) := by
      intro dead
      rw [Node.appendEntriesHandler, if_pos (by simp [dead])]
    simp only at same
    split_ifs at same with apply
    · cases same
      simp [refused dead] at apply
    · cases same
      rw [refused dead]
      exact .still dead rfl rfl rfl rfl rfl
  | installSnapshotHandler k =>
    obtain ⟨call, _, same⟩ := Option.map_eq_some_iff.mp found
    cases same
    simp only [Node.installSnapshotHandler, dead, Bool.true_or, if_true]
    exact .still dead rfl rfl rfl rfl rfl
  | applyEnter u k =>
    obtain ⟨done, made, same⟩ := Option.map_eq_some_iff.mp found
    cases same
    exact delivery (.applyEnter v k) rfl (.of_applyEnter made) (Node.applyEnter_control made)
  | applySend u ok =>
    obtain ⟨done, made, same⟩ := Option.map_eq_some_iff.mp found
    cases same
    exact delivery (.applySend v ok) rfl (.of_applySend made) (Node.applySend_control made)
  | applyRelock u =>
    obtain ⟨done, made, same⟩ := Option.map_eq_some_iff.mp found
    cases same
    exact delivery (.applyRelock v) rfl (.of_applyRelock made) (Node.applyRelock_control made)
  | snapshotTake u =>
    obtain ⟨done, made, same⟩ := Option.map_eq_some_iff.mp found
    cases same
    simp [Node.snapshotTake, dead] at made
  | snapshotSend u ok =>
    obtain ⟨done, made, same⟩ := Option.map_eq_some_iff.mp found
    cases same
    exact delivery (.snapshotSend v ok) rfl (.of_snapshotSend made) (Node.snapshotSend_control made)
  | snapshotRelock u =>
    obtain ⟨done, made, same⟩ := Option.map_eq_some_iff.mp found
    cases same
    exact delivery (.snapshotRelock v) rfl (.of_snapshotRelock made)
      (Node.snapshotRelock_control made)
  | start u command =>
    cases found
    rw [Node.start, if_pos (Or.inl dead)]
    exact .still dead rfl rfl rfl rfl trivial
  | snapshot u index data =>
    cases found
    rw [Node.snapshot, if_pos (by simp [dead])]
    exact .still dead rfl rfl rfl rfl trivial
  | kill u =>
    cases found
    exact .still rfl rfl rfl rfl rfl trivial
  | restart u =>
    cases found
    exact absurd rfl stays
  | crash rpc k =>
    simp only [Cluster.act] at found
    split at found
    · split_ifs at found with gone
      cases found
      simp [dead] at gone
    · contradiction

def Owned (s : Cluster) : Prop :=
  ∀ u call reply, (s.nodes u).Waits (.handler call reply) → call.callee = u

theorem Move.waits_new (move : Move peers s.network v n a n' out) {call : Call AppendEntriesArg}
    {reply : AppendEntriesReply} (waits : n'.Waits (.handler call reply)) :
    n.Waits (.handler call reply) ∨ call.callee = v := by
  cases move with
  | accept k call' control d out found here current clear accepts success follows =>
    cases follows with
    | stay => exact Or.inl waits
    | raise high =>
      rcases waits with queued | held
      · rcases List.mem_append.mp queued with old | new
        · exact Or.inl (Or.inl old)
        · cases List.mem_singleton.mp new
          exact Or.inr here
      · exact Or.inl (Or.inr held)
  | commit =>
    rcases waits with queued | held
    · rcases List.mem_append.mp queued with old | new
      · exact Or.inl (Or.inl old)
      · cases List.mem_singleton.mp new
    · exact Or.inl (Or.inr held)
  | reboot => simp [Node.Waits] at waits
  | deliver a d delivers => exact Or.inl (delivers.waits waits)
  | deliverReturn a d caller delivers =>
    cases caller <;> exact Or.inl (delivers.waits waits)
  | _ => exact Or.inl waits

theorem Move.confirms (owned : Owned s) (move : Move peers s.network v (s.nodes v) a n' out)
    {x : Answer AppendEntriesArg AppendEntriesReply} (sent : out = .appendEntriesAnswer x)
    (success : x.reply.success = true) : x.call.callee = v := by
  cases move with
  | quiet a control t r out idles hears rejects =>
    subst sent
    simp [Output.Rejects, success] at rejects
  | adopt a T control t r out later idles hears rejects =>
    subst sent
    simp [Output.Rejects, success] at rejects
  | accept k call control d out found here current clear accepts _ follows =>
    cases follows with
    | stay =>
      cases sent
      exact here
    | raise => cases sent
  | deliverReturn a d caller delivers =>
    cases caller with
    | handler call reply =>
      cases sent
      exact owned v call reply delivers.returns_waits
    | leader => cases sent
  | _ => cases sent

theorem Move.installs (move : Move peers s.network v n a n' out)
    {x : Answer InstallSnapshotArg InstallSnapshotReply} (sent : out = .installSnapshotAnswer x)
    (success : x.reply.success = true) : x.call.callee = v := by
  cases move with
  | quiet a control t r out idles hears rejects =>
    subst sent
    simp [Output.Rejects, success] at rejects
  | adopt a T control t r out later idles hears rejects =>
    subst sent
    simp [Output.Rejects, success] at rejects
  | accept k call control d out found here current clear accepts _ follows =>
    cases follows <;> cases sent
  | install k call control found here =>
    cases sent
    exact here
  | deliverReturn a d caller delivers => cases caller <;> cases sent
  | _ => cases sent

end Killed

theorem Network.mem_installAnswers_emit {net : Network} {out : Output}
    {x : Answer InstallSnapshotArg InstallSnapshotReply}
    (h : x ∈ (net.emit out).installAnswers) :
    x ∈ net.installAnswers ∨ out = .installSnapshotAnswer x := by
  cases out <;> simp_all [emit]
  rcases h with old | rfl <;> simp_all

structure Silenced (v : PeerId) (s t : Cluster) : Prop where
  killed : (t.nodes v).killed = true
  store : (t.nodes v).toStore = (s.nodes v).toStore
  role : (t.nodes v).role = .leader →
    (s.nodes v).role = .leader ∧ (t.nodes v).currentTerm = (s.nodes v).currentTerm
  voteCalls : ∀ c ∈ t.network.voteCalls, c.caller = v → c ∈ s.network.voteCalls
  appendCalls : ∀ c ∈ t.network.appendCalls, c.caller = v → c ∈ s.network.appendCalls
  installCalls : ∀ c ∈ t.network.installCalls, c.caller = v → c ∈ s.network.installCalls
  votes : ∀ x ∈ t.network.voteAnswers, x.call.callee = v → x.reply.voteGranted = true →
    x ∈ s.network.voteAnswers
  confirmations : ∀ x, Answered t x → x.call.callee = v → x.reply.success = true → Answered s x
  installations : ∀ x ∈ t.network.installAnswers, x.call.callee = v → x.reply.success = true →
    x ∈ s.network.installAnswers

theorem Silenced.refl {v : PeerId} {s : Cluster} (dead : (s.nodes v).killed = true) :
    Silenced v s s :=
  ⟨dead, rfl, fun leads => ⟨leads, rfl⟩, fun _ sent _ => sent, fun _ sent _ => sent,
    fun _ sent _ => sent, fun _ sent _ _ => sent, fun _ sent _ _ => sent, fun _ sent _ _ => sent⟩

structure Output.Spares (v : PeerId) (t : Cluster) (out : Output) : Prop where
  voteCalls : ∀ c, out = .requestVote c → c.caller ≠ v
  appendCalls : ∀ c, out = .appendEntries c → c.caller ≠ v
  installCalls : ∀ c, out = .installSnapshot c → c.caller ≠ v
  votes : ∀ x, out = .requestVoteAnswer x → x.reply.voteGranted = true → x.call.callee ≠ v
  confirmations : ∀ x, out = .appendEntriesAnswer x → x.reply.success = true →
    x.call.callee = v → Answered t x
  installations : ∀ x, out = .installSnapshotAnswer x → x.reply.success = true →
    x.call.callee ≠ v

section Silenced
variable {m : Membership} {s t : Cluster} {u v : PeerId} {n' : Node} {a : Action} {out : Output}

theorem Winding.spares (winds : Winding (t.nodes v) n' out) (owned : Owned t) :
    out.Spares v t := by
  obtain ⟨_, _, _, _, rejects | ⟨call, reply, rfl, waits⟩⟩ := winds
  · constructor <;> rintro _ rfl <;> simp_all [Output.Rejects]
  · constructor <;> intro x sent <;> cases sent
    intro _ _
    have here := owned v call reply waits
    exact Or.inr (by rwa [here])

theorem Move.spares (move : Move m.peers t.network u (t.nodes u) a n' out) (owned : Owned t)
    (apart : u ≠ v) : out.Spares v t where
  voteCalls c sent := by
    rw [(move.requestVote_out sent).1]
    exact apart
  appendCalls c sent := by
    rw [(move.appendEntries_out sent).1]
    exact apart
  installCalls c sent := by
    rw [(move.installSnapshot_out sent).1]
    exact apart
  votes x sent granted := by
    rw [(move.granted_out sent granted).2.1]
    exact apart
  confirmations x sent success here := absurd ((move.confirms owned sent success).symm.trans here)
    apart
  installations x sent success := by
    rw [move.installs sent success]
    exact apart

theorem Silenced.step (silent : Silenced v s t) (owned : Owned t)
    (synced : ∀ u, (t.nodes u).Synced) (found : t.act m.peers a = some (u, n', out))
    (stays : a ≠ .restart v) : Silenced v s (t.update u n' out) := by
  have move := Cluster.act_move synced found
  -- what has become of node `v` itself
  have own : ((t.update u n' out).nodes v).killed = true ∧
      ((t.update u n' out).nodes v).toStore = (t.nodes v).toStore ∧
      (((t.update u n' out).nodes v).role = .leader → (t.nodes v).role = .leader ∧
        ((t.update u n' out).nodes v).currentTerm = (t.nodes v).currentTerm) ∧
      (∀ caller, ((t.update u n' out).nodes v).Waits caller → (t.nodes v).Waits caller) ∧
      out.Spares v t := by
    by_cases here : u = v
    · subst here
      have winds := Cluster.act_killed found silent.killed stays
      rw [Cluster.update_nodes_self]
      exact ⟨winds.killed, winds.store, winds.role, winds.waits, winds.spares owned⟩
    · rw [Cluster.update_nodes_ne t n' out (Ne.symm here)]
      exact ⟨silent.killed, rfl, fun leads => ⟨leads, rfl⟩, fun _ waits => waits,
        move.spares owned here⟩
  obtain ⟨killed, store, role, waits, spares⟩ := own
  refine ⟨killed, store.trans silent.store, fun leads => ?_, fun c sent mine => ?_,
    fun c sent mine => ?_, fun c sent mine => ?_, fun x sent mine granted => ?_,
    fun x answered mine success => ?_, fun x sent mine success => ?_⟩
  · obtain ⟨led, term⟩ := role leads
    obtain ⟨first, same⟩ := silent.role led
    exact ⟨first, term.trans same⟩
  · rcases Network.mem_voteCalls_emit sent with old | new
    · exact silent.voteCalls c old mine
    · exact absurd mine (spares.voteCalls c new)
  · rcases Network.mem_appendCalls_emit sent with old | new
    · exact silent.appendCalls c old mine
    · exact absurd mine (spares.appendCalls c new)
  · rcases Network.mem_installCalls_emit sent with old | new
    · exact silent.installCalls c old mine
    · exact absurd mine (spares.installCalls c new)
  · rcases Network.mem_voteAnswers_emit sent with old | new
    · exact silent.votes x old mine granted
    · exact absurd mine (spares.votes x new granted)
  · refine silent.confirmations x ?_ mine success
    rcases answered with sent | waiting
    · rcases Network.mem_appendAnswers_emit sent with old | new
      · exact Or.inl old
      · exact spares.confirmations x new success mine
    · rw [mine] at waiting
      right
      rw [mine]
      exact waits _ waiting
  · rcases Network.mem_installAnswers_emit sent with old | new
    · exact silent.installations x old mine success
    · exact absurd mine (spares.installations x new success)

theorem Owned.step (owned : Owned t) (move : Move m.peers t.network u (t.nodes u) a n' out) :
    Owned (t.update u n' out) := by
  refine Cluster.forall_nodes_update (P := fun u n => ∀ call reply, n.Waits (.handler call reply) →
    call.callee = u) ?_ fun w _ => owned w
  intro call reply waits
  rcases move.waits_new waits with old | here
  · exact owned u call reply old
  · exact here

theorem Cluster.run_owned {actions : List Action} (run : Cluster.run m actions = some s) :
    Owned s := by
  obtain ⟨h, runH⟩ := Cluster.exists_runHistory run
  refine Cluster.history_invariant (fun _ _ => True) (fun s _ => Owned s) ?_
    Cluster.initial_synced ?_ (along_always _ _) runH
  · intro s h a v n out owned _ _ _ _ move
    exact owned.step move
  · intro u call reply waits
    simp [Cluster.initial, Node.boot, Node.readPersist, Node.Waits] at waits

end Silenced

/-- From `kill` until the next restart a node keeps its log and snapshot, builds no new
request, grants no vote and confirms nothing but what it was confirming already; it
does not become leader. A request that was built before may still go out, since `m` is
released before `peer.call`: in the network it is there from the moment it is built. -/
theorem killed_node_is_silent {m : Membership} {first rest : List Action} {s t : Cluster}
    (run : Cluster.run m first = some s) (later : exec (Cluster.step m) s rest = some t)
    {v : PeerId} (dead : (s.nodes v).killed = true) (stays : .restart v ∉ rest) :
    Silenced v s t := by
  have good : Along (Cluster.step m) (fun _ a => a ≠ .restart v) s rest :=
    along_of_invariant (fun _ => True) (fun a : Action => a ≠ .restart v)
      (fun _ _ _ _ _ _ => trivial)
      (fun _ _ _ differs => differs) trivial fun a listed same => stays (same ▸ listed)
  refine (exec_invariant (fun t => Silenced v s t ∧ Owned t ∧ ∀ u, (t.nodes u).Synced) ?_
    ⟨.refl dead, Cluster.run_owned run, Cluster.run_synced run⟩ good later).1
  rintro s' a t' ⟨silent, owned, synced⟩ differs step
  have synced' := Cluster.step_synced synced step
  obtain ⟨u, n, out, found, _, _, rfl⟩ := Cluster.step_eq_some step
  exact ⟨silent.step owned synced found differs, owned.step (Cluster.act_move synced found),
    synced'⟩

theorem killed_node_is_silent_leader : ∃ s t,
    Cluster.run threePeers (winElection "a" "b" 0 ++ [.start "a" ⟨default, .noOp⟩, .kill "a"]) =
      some s ∧
    exec (Cluster.step threePeers) s (.initVote "a" true :: winElection "b" "c" 1) = some t ∧
    (t.nodes "b").role = .leader ∧ Silenced "a" s t := by
  obtain ⟨s, t, run, later, leads, dead⟩ : ∃ s t,
      Cluster.run threePeers (winElection "a" "b" 0 ++ [.start "a" ⟨default, .noOp⟩, .kill "a"]) =
        some s ∧
      exec (Cluster.step threePeers) s (.initVote "a" true :: winElection "b" "c" 1) = some t ∧
      (t.nodes "b").role = .leader ∧ (s.nodes "a").killed = true := by
    refine ⟨_, _, (Option.some_get (by decide +kernel)).symm,
      (Option.some_get (by decide +kernel)).symm, by decide +kernel, by decide +kernel⟩
  exact ⟨s, t, run, later, leads, killed_node_is_silent run later dead (by decide)⟩

end Zdb.Raft
