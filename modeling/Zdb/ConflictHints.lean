import Zdb.Refinement

/-! Who assigns the conflict fields of an AppendEntries reply. A follower that rejects
entries says where to go on; one that is killed or busy with a snapshot leaves the
fields as they are, and a leader of its term cannot tell the difference. -/

namespace Zdb.Raft
open LabelledRun

def AppendEntriesReply.Hinted (r : AppendEntriesReply) : Prop :=
  r.conflictTerm.isSome = true ∧ r.conflictIndex.isSome = true

def Node.conflicts (n : Node) (arg : AppendEntriesArg) (r : AppendEntriesReply) : Bool :=
  !n.killed && decide (n.role = .leader) && decide (r.term = n.currentTerm) &&
    decide (arg.term = n.currentTerm) && !r.success

/-- Requests of the term a node is in find it neither killed nor busy with a snapshot. -/
def answersInTerm (s : Cluster) : Action → Bool
  | .appendEntriesHandler k => match s.network.appendCalls[k]? with
      | some call =>
          let n := s.nodes call.callee
          (!n.killed && !n.pendingSnapshot) || decide (n.currentTerm ≠ call.arg.term)
      | none => true
  | _ => true

namespace Node
variable {n : Node} {arg : AppendEntriesArg} {x : Answer AppendEntriesArg AppendEntriesReply}
  {caller : ApplyCaller}

theorem appendEntriesReply_conflict (peers : List PeerId) (v peer : PeerId)
    {r : AppendEntriesReply} (next : ℕ) (unset : ℕ × ℕ) (conflict : n.conflicts arg r = true) :
    n.appendEntriesReply peers v peer arg next (some r) unset =
      ({ n.setPoint peer .waiting with
        nextIndex := Function.update n.nextIndex peer
          (n.backUp (r.conflictTerm.getD unset.1) (r.conflictIndex.getD unset.2)) } :
            Node).raiseAppendNow peer := by
  simp only [conflicts, Bool.and_eq_true, Bool.not_eq_true', decide_eq_true_eq] at conflict
  obtain ⟨⟨⟨⟨live, leads⟩, now⟩, current⟩, rejected⟩ := conflict
  have here : ¬ ((n.setPoint peer .waiting).killed = true ∨
      (n.setPoint peer .waiting).role ≠ .leader) := by
    simp [setPoint, live, leads]
  have same : (n.setPoint peer .waiting).becameFollower r.term peer =
      (n.setPoint peer .waiting, false) := becameFollower_same (by rw [now]; rfl)
  have fresh : ¬ (r.term < (n.setPoint peer .waiting).currentTerm ∨
      arg.term ≠ (n.setPoint peer .waiting).currentTerm) := by
    simp [setPoint, now, current]
  simp only [appendEntriesReply, if_neg here, same, Bool.false_eq_true, if_false, if_neg fresh,
    rejected]
  rfl

theorem appendEntriesHandler_hinted
    (answers : (!n.killed && !n.pendingSnapshot) || decide (n.currentTerm ≠ arg.term))
    (rejected : (n.appendEntriesHandler arg).2.1.success = false)
    (inTerm : (n.appendEntriesHandler arg).2.1.term = arg.term) :
    (n.appendEntriesHandler arg).2.1.Hinted := by
  revert rejected inTerm
  simp only [appendEntriesHandler]
  split_ifs with stopped old accepts more
  · intro _ inTerm
    simp_all
  · intro _ inTerm
    dsimp only at inTerm
    omega
  · simp
  · simp
  · intro _ _
    split <;> exact ⟨rfl, rfl⟩

theorem resume_answer (answers : (n.resume caller).2 = .appendEntriesAnswer x) :
    caller = .handler x.call x.reply := by
  cases caller with
  | handler call reply =>
    cases answers
    rfl
  | leader peer => cases answers

theorem applyLoop_answer (answers : (n.applyLoop caller).2 = .appendEntriesAnswer x) :
    caller = .handler x.call x.reply := by
  rw [applyLoop] at answers
  split_ifs at answers
  · exact resume_answer answers
  · split at answers
    · exact resume_answer answers
    · cases answers

theorem applyCommittedEntries_answer
    (answers : (n.applyCommittedEntries caller).2 = .appendEntriesAnswer x) :
    caller = .handler x.call x.reply := by
  rw [applyCommittedEntries] at answers
  split_ifs at answers
  · exact resume_answer answers
  · exact applyLoop_answer answers

theorem applyEnter_answer {k : ℕ} {n' : Node}
    (done : n.applyEnter k = some (n', .appendEntriesAnswer x)) :
    n.Waits (.handler x.call x.reply) := by
  rw [applyEnter] at done
  split at done
  · rename_i caller free queued
    obtain ⟨_, sent⟩ := Prod.mk.inj (Option.some.inj done)
    rw [← applyCommittedEntries_answer sent]
    exact Or.inl (List.mem_of_getElem? queued)
  · cases done

theorem applySend_answer {ok : Bool} {n' : Node}
    (done : n.applySend ok = some (n', .appendEntriesAnswer x)) :
    n.Waits (.handler x.call x.reply) := by
  rw [applySend] at done
  split at done
  · rename_i caller i c at_
    split_ifs at done
    · cases done
    · obtain ⟨_, sent⟩ := Prod.mk.inj (Option.some.inj done)
      rw [← resume_answer sent]
      exact Or.inr ⟨_, at_⟩
  · cases done

theorem applyRelock_answer {n' : Node}
    (done : n.applyRelock = some (n', .appendEntriesAnswer x)) :
    n.Waits (.handler x.call x.reply) := by
  rw [applyRelock] at done
  split at done
  · rename_i caller i at_
    obtain ⟨_, sent⟩ := Prod.mk.inj (Option.some.inj done)
    rw [← applyLoop_answer sent]
    exact Or.inr ⟨_, at_⟩
  · cases done

theorem appendEntries_silent {selfId peer : PeerId} {number snapNumber : ℕ} {n' : Node}
    {out : Output} (done : n.appendEntries selfId number snapNumber peer = some (n', out))
    (x : Answer AppendEntriesArg AppendEntriesReply) : out ≠ .appendEntriesAnswer x := by
  rintro rfl
  simp only [appendEntries] at done
  split_ifs at done
  · cases done
  all_goals
    split at done <;> cases done

theorem installSnapshotReply_silent {selfId peer : PeerId} {number next : ℕ}
    {snapArg : InstallSnapshotArg} {reply : Option InstallSnapshotReply}
    (x : Answer AppendEntriesArg AppendEntriesReply) :
    (n.installSnapshotReply selfId number peer snapArg arg next reply).2 ≠
      .appendEntriesAnswer x := by
  simp only [installSnapshotReply]
  split_ifs
  · simp
  · cases reply with
    | none => simp
    | some r =>
      dsimp only
      split_ifs <;> simp

end Node

theorem Cluster.act_appendAnswer {peers : List PeerId} {s : Cluster} {a : Action} {v : PeerId}
    {n : Node} {x : Answer AppendEntriesArg AppendEntriesReply}
    (found : s.act peers a = some (v, n, .appendEntriesAnswer x)) :
    (∃ k, a = .appendEntriesHandler k ∧ s.network.appendCalls[k]? = some x.call ∧
      x.reply = ((s.nodes x.call.callee).appendEntriesHandler x.call.arg).2.1) ∨
      (s.nodes v).Waits (.handler x.call x.reply) := by
  cases a with
  | appendEntriesHandler k =>
    obtain ⟨call, sent, h⟩ := Option.map_eq_some_iff.mp found
    dsimp only at h
    split_ifs at h
    · cases h
    · cases h
      exact Or.inl ⟨k, rfl, sent, rfl⟩
  | applyEnter u k =>
    obtain ⟨_, done, h⟩ := Option.map_eq_some_iff.mp found
    cases h
    exact Or.inr (Node.applyEnter_answer done)
  | applySend u ok =>
    obtain ⟨_, done, h⟩ := Option.map_eq_some_iff.mp found
    cases h
    exact Or.inr (Node.applySend_answer done)
  | applyRelock u =>
    obtain ⟨_, done, h⟩ := Option.map_eq_some_iff.mp found
    cases h
    exact Or.inr (Node.applyRelock_answer done)
  | requestVote u peer =>
    simp only [act] at found
    split_ifs at found
    obtain ⟨_, done, h⟩ := Option.map_eq_some_iff.mp found
    cases h
    rw [Node.requestVote] at done
    split_ifs at done
    cases done
  | requestVoteReply u peer answer =>
    simp only [act] at found
    split at found
    · cases found
    · obtain ⟨_, _, h⟩ := Option.map_eq_some_iff.mp found
      cases h
  | requestVoteHandler k =>
    obtain ⟨_, _, h⟩ := Option.map_eq_some_iff.mp found
    cases h
  | installSnapshotHandler k =>
    obtain ⟨_, _, h⟩ := Option.map_eq_some_iff.mp found
    cases h
  | appendEntries u peer =>
    simp only [act] at found
    split_ifs at found
    obtain ⟨_, done, h⟩ := Option.map_eq_some_iff.mp found
    cases h
    exact absurd rfl (Node.appendEntries_silent done x)
  | installSnapshotReply u peer answer transport =>
    simp only [act] at found
    split at found
    · obtain ⟨reply, _, h⟩ := Option.map_eq_some_iff.mp found
      obtain ⟨_, sent⟩ := Prod.mk.inj h
      exact absurd (congrArg Prod.snd sent) (Node.installSnapshotReply_silent x)
    · cases found
  | appendEntriesReply u peer answer unset =>
    simp only [act] at found
    split at found
    · obtain ⟨_, _, h⟩ := Option.map_eq_some_iff.mp found
      cases h
    · cases found
  | appendEntriesFinish u peer =>
    obtain ⟨_, done, h⟩ := Option.map_eq_some_iff.mp found
    cases h
    rw [Node.appendEntriesFinish] at done
    split_ifs at done
    cases done
  | snapshotTake u =>
    obtain ⟨_, done, h⟩ := Option.map_eq_some_iff.mp found
    cases h
    rw [Node.snapshotTake] at done
    split_ifs at done
    cases done
  | snapshotSend u ok =>
    obtain ⟨_, done, h⟩ := Option.map_eq_some_iff.mp found
    cases h
    rw [Node.snapshotSend] at done
    split at done <;> [split_ifs at done; skip] <;> cases done
  | snapshotRelock u =>
    obtain ⟨_, done, h⟩ := Option.map_eq_some_iff.mp found
    cases h
    rw [Node.snapshotRelock] at done
    split at done <;> [split_ifs at done; skip] <;> cases done
  | crash rpc k =>
    simp only [act] at found
    split at found
    · split_ifs at found
      cases found
    · cases found
  | _ => cases found

theorem Move.waits_handler {peers : List PeerId} {net : Network} {v : PeerId} {n n' : Node}
    {a : Action} {out : Output} {call : Call AppendEntriesArg} {reply : AppendEntriesReply}
    (move : Move peers net v n a n' out) (waits : n'.Waits (.handler call reply)) :
    n.Waits (.handler call reply) ∨ reply.success = true := by
  cases move with
  | accept k call' control d out found here current clear accepts success follows =>
    cases follows with
    | stay => exact Or.inl waits
    | raise high =>
      rcases waits with queued | at_
      · rcases List.mem_append.mp queued with old | new
        · exact Or.inl (Or.inl old)
        · cases List.mem_singleton.mp new
          exact Or.inr rfl
      · exact Or.inl (Or.inr at_)
  | commit =>
    rcases waits with queued | at_
    · rcases List.mem_append.mp queued with old | new
      · exact Or.inl (Or.inl old)
      · cases List.mem_singleton.mp new
    · exact Or.inl (Or.inr at_)
  | reboot => simp [Node.Waits] at waits
  | deliver a d delivers => exact Or.inl (delivers.waits waits)
  | deliverReturn a d caller delivers =>
    cases caller <;> exact Or.inl (delivers.waits waits)
  | _ => exact Or.inl waits

structure Hints (s : Cluster) : Prop where
  synced : ∀ v, (s.nodes v).Synced
  waiting : ∀ v call reply, (s.nodes v).Waits (.handler call reply) → reply.success = true
  answered : ∀ x ∈ s.network.appendAnswers, x.reply.success = false →
    x.reply.term = x.call.arg.term → x.reply.Hinted

theorem Hints.initial : Hints Cluster.initial where
  synced := Cluster.initial_synced
  waiting v call reply := by simp [Cluster.initial, Node.boot, Node.readPersist, Node.Waits]
  answered := by simp [Cluster.initial]

theorem Hints.step {m : Membership} {s t : Cluster} {a : Action} (inv : Hints s)
    (ok : answersInTerm s a = true) (step : Cluster.step m s a = some t) : Hints t := by
  obtain ⟨v, n, out, found, _, _, rfl⟩ := Cluster.step_eq_some step
  refine ⟨?_, ?_, ?_⟩
  · exact Cluster.forall_nodes_update (P := fun _ n => n.Synced)
      (Cluster.act_synced inv.synced found) fun u _ => inv.synced u
  · refine Cluster.forall_nodes_update
      (P := fun _ n => ∀ call reply, n.Waits (.handler call reply) → reply.success = true)
      ?_ fun u _ => inv.waiting u
    intro call reply waits
    rcases (Cluster.act_move inv.synced found).waits_handler waits with old | success
    · exact inv.waiting v call reply old
    · exact success
  · intro x sent rejected inTerm
    rw [Cluster.update_network] at sent
    rcases Network.mem_appendAnswers_emit sent with old | new
    · exact inv.answered x old rejected inTerm
    · rw [new] at found
      rcases Cluster.act_appendAnswer found with ⟨k, rfl, called, reply⟩ | waits
      · simp only [answersInTerm, called] at ok
        rw [reply] at rejected inTerm ⊢
        exact Node.appendEntriesHandler_hinted ok rejected inTerm
      · rw [inv.waiting v x.call x.reply waits] at rejected
        cases rejected

/-- A leader that comes to its conflict branch has a reply with both conflict fields
assigned, and goes on from them whatever the memory of unassigned fields holds. -/
theorem conflict_hints_assigned (m : Membership) (actions : List Action) (s : Cluster)
    (good : Along (Cluster.step m) (fun s a => answersInTerm s a = true) Cluster.initial actions)
    (run : Cluster.run m actions = some s) (v peer : PeerId) (call : Call AppendEntriesArg)
    (next k : ℕ) (r : AppendEntriesReply)
    (heard : received s.network.appendAnswers call (some k) = some (some r))
    (conflict : (s.nodes v).conflicts call.arg r = true) :
    r.conflictTerm.isSome = true ∧ r.conflictIndex.isSome = true ∧
      ∀ unset other, (s.nodes v).appendEntriesReply m.peers v peer call.arg next (some r) unset =
        (s.nodes v).appendEntriesReply m.peers v peer call.arg next (some r) other := by
  have inv : Hints s := exec_invariant Hints (fun _ _ _ inv ok step => inv.step ok step)
    Hints.initial good run
  obtain ⟨_, x, sent, own, rfl⟩ := received_some heard r rfl
  have guards := conflict
  simp only [Node.conflicts, Bool.and_eq_true, Bool.not_eq_true', decide_eq_true_eq] at guards
  obtain ⟨⟨⟨_, now⟩, current⟩, rejected⟩ := guards
  obtain ⟨term, index⟩ := inv.answered x sent rejected (by rw [own, now, current])
  refine ⟨term, index, fun unset other => ?_⟩
  rw [Node.appendEntriesReply_conflict _ _ _ _ _ conflict,
    Node.appendEntriesReply_conflict _ _ _ _ _ conflict]
  obtain ⟨conflictTerm, term⟩ := Option.isSome_iff_exists.mp term
  obtain ⟨conflictIndex, index⟩ := Option.isSome_iff_exists.mp index
  rw [term, index, Option.getD_some, Option.getD_some, Option.getD_some, Option.getD_some]

theorem conflict_hints_shorter :
    let actions := winElection "a" "b" 0 ++ [.start "a" ⟨default, .noOp⟩,
      .appendEntries "a" "b", .appendEntriesHandler 0] ++ winElection "b" "c" 1 ++
        [.appendEntries "b" "c", .appendEntriesHandler 1]
    let call : Call AppendEntriesArg := ⟨1, "b", "c", "b", 2, 1, 1, 0, {}⟩
    let r : AppendEntriesReply := ⟨false, 2, some 0, some 1⟩
    ∃ s, Cluster.run threePeers actions = some s ∧
      received s.network.appendAnswers call (some 1) = some (some r) ∧
      (s.nodes "b").conflicts call.arg r = true ∧ r.conflictTerm.isSome = true := by
  intro actions call r
  obtain ⟨s, run, heard, conflict⟩ : ∃ s, Cluster.run threePeers actions = some s ∧
      received s.network.appendAnswers call (some 1) = some (some r) ∧
      (s.nodes "b").conflicts call.arg r = true :=
    ⟨_, (Option.some_get (by decide +kernel)).symm, by decide +kernel, by decide +kernel⟩
  exact ⟨s, run, heard, conflict, (conflict_hints_assigned threePeers actions s
    (by decide +kernel) run "b" "c" call 2 1 r heard conflict).1⟩

/-- `b` is killed after its vote. Its rejection is for the term of `a`, and `a` goes on
from fields that nobody has assigned. -/
theorem conflict_hints_missing : ∃ s,
    Cluster.run threePeers (winElection "a" "b" 0 ++ [.kill "b", .appendEntries "a" "b",
      .appendEntriesHandler 0]) = some s ∧
    received s.network.appendAnswers ⟨0, "a", "b", "a", 1, 0, 0, 0, {}⟩ (some 0) =
      some (some ⟨false, 1, none, none⟩) ∧
    (s.nodes "a").conflicts ⟨"a", 1, 0, 0, 0, {}⟩ ⟨false, 1, none, none⟩ = true :=
  ⟨_, (Option.some_get (by decide +kernel)).symm, by decide +kernel, by decide +kernel⟩

end Zdb.Raft
