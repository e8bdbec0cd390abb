import Zdb.LogShape
import Zdb.Messages

/-! Gaps in the log. `Log::merge` appends what it does not find, and the test
for `prevLogIndex == 0` in `appendEntriesHandler` does not ask for a snapshot, so
a request that starts at the very beginning puts entries a node has already
compacted behind its log. Nothing else opens a gap. -/

namespace Zdb.Raft
open LabelledRun

/-- An admitted AppendEntries that starts at the beginning of the log and carries
entries meets a node without a snapshot. -/
def mergesInPlace (s : Cluster) : Action → Bool
  | .appendEntriesHandler k => match s.network.appendCalls[k]? with
      | some call =>
          let n := s.nodes call.callee
          !n.admits call.arg.term || call.arg.prevLogIndex != 0 || n.lastIncludedIndex == 0 ||
            call.arg.entries.data.isEmpty
      | none => true
  | _ => true

/-- `RaftImpl::snapshot` is called for indices the node has applied. -/
def snapshotsApplied (s : Cluster) : Action → Bool
  | .snapshot v index _ => decide (index ≤ (s.nodes v).lastApplied)
  | _ => true

theorem mergesInPlace_accept {s : Cluster} {k : ℕ} {call : Call AppendEntriesArg}
    (ok : mergesInPlace s (.appendEntriesHandler k) = true)
    (found : s.network.appendCalls[k]? = some call)
    (success : ((s.nodes call.callee).appendEntriesHandler call.arg).2.1.success = true) :
    call.arg.prevLogIndex = 0 →
      (s.nodes call.callee).lastIncludedIndex = 0 ∨ call.arg.entries.entries = [] := by
  simp only [mergesInPlace, found, Node.appendEntriesHandler_admits success, Bool.not_true,
    Bool.false_or, Bool.or_eq_true, bne_iff_ne, ne_eq, beq_iff_eq, List.isEmpty_iff,
    Log.data] at ok
  tauto

theorem Node.accepts_within {n : Node} {arg : AppendEntriesArg} (shape : n.mainLog.Contiguous)
    (synced : n.Synced) (accepts : n.accepts arg = true)
    (first : arg.prevLogIndex = 0 → n.lastIncludedIndex = 0 ∨ arg.entries.entries = []) :
    (arg.prevLogIndex = 0 ∧ arg.entries.entries = []) ∨
      (n.lastIncludedIndex ≤ arg.prevLogIndex ∧
        arg.prevLogIndex ≤ n.lastIncludedIndex + n.mainLog.entries.length) := by
  simp only [Node.accepts, Bool.or_eq_true, beq_iff_eq] at accepts
  rcases accepts with zero | stored
  · rcases first zero with fresh | empty
    · exact Or.inr ⟨by omega, by omega⟩
    · exact Or.inl ⟨zero, empty⟩
  · rw [shape.atIndex, synced.index] at stored
    split_ifs at stored with above
    · cases found : n.mainLog.entries[arg.prevLogIndex - n.lastIncludedIndex - 1]? with
      | none =>
        simp only [found, Bool.and_eq_true, beq_iff_eq] at stored
        exact Or.inr ⟨by omega, by omega⟩
      | some e =>
        have := (List.getElem?_eq_some_iff.mp found).1
        exact Or.inr ⟨by omega, by omega⟩
    · simp only [Bool.and_eq_true, beq_iff_eq] at stored
      exact Or.inr ⟨by omega, by omega⟩

theorem Node.merge_contiguous {n : Node} {arg : AppendEntriesArg} (shape : n.mainLog.Contiguous)
    (synced : n.Synced) (accepts : n.accepts arg = true)
    (first : arg.prevLogIndex = 0 → n.lastIncludedIndex = 0 ∨ arg.entries.entries = [])
    (run : Consecutive arg.prevLogIndex arg.entries.entries) :
    (n.mainLog.merge arg.entries).Contiguous := by
  rcases n.accepts_within shape synced accepts first with ⟨_, empty⟩ | ⟨low, high⟩
  · simpa [Log.merge, empty, Log.mergeEntries] using shape
  · obtain ⟨k, place⟩ : ∃ k, arg.prevLogIndex = n.mainLog.lastIncludedIndex + k :=
      ⟨arg.prevLogIndex - n.lastIncludedIndex, by rw [synced.index]; omega⟩
    have inside : k ≤ n.mainLog.entries.length := by
      rw [synced.index] at place
      omega
    rw [place] at run
    rw [Log.Contiguous, Log.merge, mergeEntries_eq_splice shape inside run]
    exact Consecutive.splice shape inside run

structure Gapless (s : Cluster) : Prop where
  node : ∀ v, (s.nodes v).mainLog.Contiguous
  sent : ∀ arg, Prepared s arg → Consecutive arg.prevLogIndex arg.entries.entries

theorem Builds.consecutive {v peer : PeerId} {n : Node} {a : Action} {arg : AppendEntriesArg}
    (builds : Builds v n a peer arg) (shape : n.mainLog.Contiguous) :
    Consecutive arg.prevLogIndex arg.entries.entries := by
  obtain ⟨_, t, _, rfl, _⟩ := builds.built
  simp only [Node.argFor, Log.ofEntries, Log.data]
  rw [shape.suffix]
  split_ifs with above
  · have moved := Consecutive.drop shape (n.sendFrom peer - n.mainLog.lastIncludedIndex - 1)
    rwa [show n.mainLog.lastIncludedIndex + (n.sendFrom peer - n.mainLog.lastIncludedIndex - 1) =
      n.sendFrom peer - 1 by omega] at moved
  · exact Consecutive.nil _

theorem Log.Contiguous.append {log : Log} (shape : log.Contiguous) (term : ℕ) (command : Command) :
    (log.append ⟨log.lastIndex + 1, term, command⟩).Contiguous := by
  refine Consecutive.append shape ?_
  intro k e found
  have last := shape.lastIndex
  cases k with
  | zero =>
    simp only [List.getElem?_cons_zero, Option.some.injEq] at found
    subst found
    change log.lastIndex + 1 = log.lastIncludedIndex + log.entries.length + 1 + 0
    omega
  | succ k => simp at found

theorem Gapless.step {m : Membership} {s : Cluster} {a : Action} {v : PeerId} {n' : Node}
    {out : Output} (inv : Gapless s) (synced : ∀ u, (s.nodes u).Synced)
    (ok : mergesInPlace s a = true) (move : Move m.peers s.network v (s.nodes v) a n' out) :
    Gapless (s.update v n' out) := by
  refine ⟨Cluster.forall_nodes_update (P := fun _ n => n.mainLog.Contiguous) ?_
    fun u _ => inv.node u, ?_⟩
  · have shape := inv.node v
    cases move with
    | accept k call control d out found here current clear accepts success follows =>
      subst here
      exact Node.merge_contiguous shape (synced _) accepts
        (mergesInPlace_accept ok found success)
        (inv.sent _ (Or.inl ⟨call, List.mem_of_getElem? found, rfl⟩))
    | install k call => exact shape.trimPrefix_contiguous _ _
    | compact index data e => exact shape.trimPrefix_contiguous _ _
    | propose command => exact shape.append _ command
    | deliverReturn a d caller => cases caller <;> exact shape
    | _ => exact shape
  · intro arg ready
    rcases ready.of_update move with old | ⟨peer, builds⟩
    · exact inv.sent arg old
    · exact builds.consecutive (inv.node v)

theorem Gapless.initial : Gapless Cluster.initial := by
  constructor
  · intro v
    exact Consecutive.nil 0
  · rintro arg (⟨c, sent, _⟩ | ⟨v, p, call, next, at_⟩)
    · simp [Cluster.initial] at sent
    · simp [Cluster.initial, Node.boot, Node.readPersist] at at_

theorem Cluster.run_gapless {m : Membership} {actions : List Action} {s : Cluster}
    (good : Along (Cluster.step m) (fun s a => mergesInPlace s a = true) Cluster.initial actions)
    (run : Cluster.run m actions = some s) : Gapless s := by
  obtain ⟨h, runH⟩ := Cluster.exists_runHistory run
  exact Cluster.history_invariant _ (fun s _ => Gapless s)
    (fun _ _ _ _ _ _ inv synced _ ok _ move => inv.step synced ok move) Cluster.initial_synced
    Gapless.initial good runH

/-- Without a request from the beginning to a node with a snapshot, the indices
stored on every node are consecutive and start right after the snapshot point. -/
theorem stored_indices_consecutive {m : Membership} {actions : List Action} {s : Cluster}
    (good : Along (Cluster.step m) (fun s a => mergesInPlace s a = true) Cluster.initial actions)
    (run : Cluster.run m actions = some s) (v : PeerId) (k : ℕ) (e : LogEntry)
    (stored : (s.nodes v).mainLog.entries[k]? = some e) :
    e.index = (s.nodes v).mainLog.lastIncludedIndex + 1 + k :=
  (Cluster.run_gapless good run).node v k e stored

/-- Entry 1 is replicated, applied and compacted on `b`; then the request that
brought it arrives a second time. -/
def resentFromBeginning : List Action :=
  winElection "a" "b" 0 ++ [.start "a" ⟨default, .noOp⟩] ++ commitOne "a" "b" 0 ++
    [.heartbeat "a", .appendEntries "a" "b", .appendEntriesHandler 1] ++ applyOne "b" ++
    [.snapshot "b" 1 [1]]

theorem stored_indices_consecutive_compacted : ∃ s,
    Along (Cluster.step threePeers) (fun s a => mergesInPlace s a = true) Cluster.initial
      (resentFromBeginning ++ [.snapshot "a" 1 [1], .start "a" ⟨default, .noOp⟩,
        .start "a" ⟨default, .noOp⟩]) ∧
    Cluster.run threePeers (resentFromBeginning ++ [.snapshot "a" 1 [1],
      .start "a" ⟨default, .noOp⟩, .start "a" ⟨default, .noOp⟩]) = some s ∧
    (s.nodes "a").mainLog.lastIncludedIndex = 1 ∧ (s.nodes "a").mainLog.entries.length = 2 ∧
    ∃ e, (s.nodes "a").mainLog.entries[1]? = some e ∧
      e.index = (s.nodes "a").mainLog.lastIncludedIndex + 1 + 1 := by
  have good : Along (Cluster.step threePeers) (fun s a => mergesInPlace s a = true)
      Cluster.initial (resentFromBeginning ++ [.snapshot "a" 1 [1],
        .start "a" ⟨default, .noOp⟩, .start "a" ⟨default, .noOp⟩]) := by decide +kernel
  obtain ⟨s, run, point, two, stored⟩ : ∃ s, Cluster.run threePeers (resentFromBeginning ++
      [.snapshot "a" 1 [1], .start "a" ⟨default, .noOp⟩, .start "a" ⟨default, .noOp⟩]) = some s ∧
      (s.nodes "a").mainLog.lastIncludedIndex = 1 ∧
      (s.nodes "a").mainLog.entries.length = 2 ∧
      (s.nodes "a").mainLog.entries[1]? = some ⟨3, 1, ⟨default, .noOp⟩⟩ := by
    refine ⟨_, (Option.some_get (by decide +kernel)).symm, by decide +kernel, by decide +kernel,
      by decide +kernel⟩
  exact ⟨s, good, run, point, two, _, stored, stored_indices_consecutive good run "a" 1 _ stored⟩

/-- After the second arrival `b` stores index 1 behind a snapshot of index 1. -/
theorem stored_indices_repeat : ∃ s,
    Cluster.run threePeers (resentFromBeginning ++ [.appendEntriesHandler 0]) = some s ∧
    Along (Cluster.step threePeers) (fun s a => snapshotsApplied s a = true) Cluster.initial
      (resentFromBeginning ++ [.appendEntriesHandler 0]) ∧
    ∃ e, (s.nodes "b").mainLog.entries[0]? = some e ∧
      e.index ≠ (s.nodes "b").mainLog.lastIncludedIndex + 1 + 0 := by
  refine ⟨_, (Option.some_get (by decide +kernel)).symm, by decide +kernel,
    ⟨1, 1, ⟨default, .noOp⟩⟩, by decide +kernel, by decide +kernel⟩

end Zdb.Raft
