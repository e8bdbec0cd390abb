import Zdb.LeaderCompleteness
import Zdb.LogicalLog

/-! What an accepted AppendEntries or InstallSnapshot makes of a logical log. As
long as logs chain back to leaders, either leaves a log that already extends
what was sent and replaces every other by it; for InstallSnapshot this needs a
snapshot point that moves forward and an entry there that is not of another
term, neither of which `installSnapshotHandler` asks for. -/

namespace Zdb.Raft
open TermLog LogReplication

abbrev Protocol := LogReplication.State PeerId LogEntry

/-- An admitted InstallSnapshot moves the snapshot point forward and finds no
entry of another term there, or it repeats the point of an empty log. -/
def installsForward (s : Cluster) : Action → Bool
  | .installSnapshotHandler k => match s.network.installCalls[k]? with
      | some call =>
          let n := s.nodes call.callee
          !n.admits call.arg.term ||
            (decide (n.lastIncludedIndex < call.arg.lastIncludedIndex) &&
              (n.mainLog.atIndex call.arg.lastIncludedIndex).all
                (fun e => e.term == call.arg.lastIncludedTerm)) ||
            (n.lastIncludedIndex == call.arg.lastIncludedIndex && n.mainLog.entries.isEmpty)
      | none => true
  | _ => true

def Node.Forward (n : Node) (arg : InstallSnapshotArg) : Prop :=
  (n.lastIncludedIndex < arg.lastIncludedIndex ∧
    ∀ e, n.mainLog.atIndex arg.lastIncludedIndex = some e → e.term = arg.lastIncludedTerm) ∨
    (n.lastIncludedIndex = arg.lastIncludedIndex ∧ n.mainLog.entries = [])

theorem installsForward_install {s : Cluster} {k : ℕ} {call : Call InstallSnapshotArg}
    (ok : installsForward s (.installSnapshotHandler k) = true)
    (found : s.network.installCalls[k]? = some call)
    (success : ((s.nodes call.callee).installSnapshotHandler call.arg).2.success = true) :
    (s.nodes call.callee).Forward call.arg := by
  simpa only [installsForward, Node.Forward, found,
    Node.installSnapshotHandler_admits success, Bool.not_true, Bool.false_or, Bool.or_eq_true,
    Bool.and_eq_true, decide_eq_true_eq, Option.all_eq_true,
    beq_iff_eq, List.isEmpty_iff] using ok

theorem Node.Forward.le {n : Node} {arg : InstallSnapshotArg} (h : n.Forward arg) :
    n.lastIncludedIndex ≤ arg.lastIncludedIndex := by
  rcases h with ⟨less, _⟩ | ⟨same, _⟩
  · exact less.le
  · exact same.le

section Append
variable {F L : List LogEntry} {n : Node} {arg : AppendEntriesArg} {g : Protocol}

theorem Represents.accepts_term (r : Represents F n) (accepts : n.accepts arg = true)
    (pos : arg.prevLogIndex ≠ 0) : arg.prevLogTerm = termOf F arg.prevLogIndex := by
  simp only [Node.accepts, Bool.or_eq_true, beq_iff_eq, pos, false_or] at accepts
  cases found : n.mainLog.atIndex arg.prevLogIndex with
  | some e =>
    simp only [found, beq_iff_eq] at accepts
    rw [← accepts]
    exact (r.atIndex_some found).2.2.2
  | none =>
    simp only [found, Bool.and_eq_true, beq_iff_eq] at accepts
    rw [accepts.2, r.term, accepts.1]

/-- Up to the place where an accepted request attaches, follower and leader
agree, also when the leader claims the term of a later entry. -/
theorem Represents.accepts_agree (r : Represents F n) (chainF : Chain LogEntry.term g F)
    (chainL : Chain LogEntry.term g L) (reads : Reads L arg) (accepts : n.accepts arg = true)
    (high : arg.prevLogIndex ≤ F.length) : F.take arg.prevLogIndex = L.take arg.prevLogIndex := by
  by_cases zero : arg.prevLogIndex = 0
  · simp [zero]
  have claimed := r.accepts_term accepts zero
  have within := reads.within
  rcases reads.term with exact_ | ⟨_, j, less, inside, later⟩
  · exact chainF.take_eq_of_termAt chainL high le_rfl (by omega) (claimed.symm.trans exact_)
  · exact chainF.take_eq_of_termAt chainL high less.le inside (claimed.symm.trans later)

theorem Represents.merge_eq (r : Represents F n) {sent : List LogEntry} {prev : ℕ}
    (low : n.lastIncludedIndex ≤ prev) (high : prev ≤ F.length) (run : Consecutive prev sent) :
    F.take n.lastIncludedIndex ++ Log.mergeEntries n.mainLog.entries sent =
      splice F prev sent := by
  have front : (F.take n.lastIncludedIndex).length = n.lastIncludedIndex := by
    rw [List.length_take]
    have := r.within
    omega
  have whole := r.length
  obtain ⟨k, rfl⟩ : ∃ k, prev = n.lastIncludedIndex + k := ⟨prev - n.lastIncludedIndex, by omega⟩
  have shape := r.contiguous
  rw [Log.Contiguous, r.point] at shape
  rw [mergeEntries_eq_splice shape (by omega) run]
  have joined := splice_append (F.take n.lastIncludedIndex) n.mainLog.entries k sent
  rw [front, r.take_append] at joined
  exact joined.symm

theorem Reads.take_eq (reads : Reads L arg) :
    L.take (arg.prevLogIndex + arg.entries.entries.length) =
      L.take arg.prevLogIndex ++ arg.entries.entries := by
  rw [List.take_add, ← List.prefix_iff_eq_take.mp reads.entries]

theorem merged_accept (r : Represents F n) (synced : n.Synced)
    (chainF : Chain LogEntry.term g F) (chainL : Chain LogEntry.term g L)
    (indexed : Consecutive 0 L) (reads : Reads L arg) (accepts : n.accepts arg = true)
    (first : arg.prevLogIndex = 0 → n.lastIncludedIndex = 0 ∨ arg.entries.entries = []) :
    Merged F (L.take (arg.prevLogIndex + arg.entries.entries.length))
      (F.take n.lastIncludedIndex ++ (n.mainLog.merge arg.entries).entries) := by
  change Merged F _ (F.take n.lastIncludedIndex ++
    Log.mergeEntries n.mainLog.entries arg.entries.entries)
  rcases n.accepts_within r.contiguous synced accepts first with ⟨zero, empty⟩ | ⟨low, high⟩
  · left
    rw [zero, empty]
    refine ⟨by simp, ?_⟩
    rw [Log.mergeEntries, r.take_append]
  · rw [r.length] at high
    have agree := r.accepts_agree chainF chainL reads accepts high
    have run : Consecutive arg.prevLogIndex arg.entries.entries := by
      have moved := indexed.drop arg.prevLogIndex
      rw [Nat.zero_add] at moved
      exact moved.initial reads.entries
    have inPlace : ∀ j x e, F[arg.prevLogIndex + j]? = some x →
        arg.entries.entries[j]? = some e → x.equal e = true → x = e := by
      intro j x e stored sent equal
      have led : L[arg.prevLogIndex + j]? = some e := by
        obtain ⟨inside, rfl⟩ := List.getElem?_eq_some_iff.mp sent
        rw [← List.getElem?_drop]
        exact List.prefix_iff_getElem?.mp reads.entries j inside
      have same := chainF.matching chainL stored led (LogEntry.term_eq_of_equal equal) le_rfl
      have here := congrArg (fun log => log[arg.prevLogIndex + j]?) same
      simp only [List.getElem?_take_of_succ, stored, led, Option.some.injEq] at here
      exact here
    rw [r.merge_eq low high run, splice_eq high inPlace, reads.take_eq, ← agree]
    have extends_ : F.take arg.prevLogIndex ++ arg.entries.entries <+: F ↔
        arg.entries.entries <+: F.drop arg.prevLogIndex := by
      conv_lhs => rhs; rw [← List.take_append_drop arg.prevLogIndex F]
      exact List.prefix_append_right_inj _
    rw [Merged, extends_]
    split_ifs with held
    · exact Or.inl ⟨held, rfl⟩
    · exact Or.inr ⟨held, rfl⟩

end Append

theorem merged_install {F L : List LogEntry} {n : Node} {arg : InstallSnapshotArg} {g : Protocol}
    (r : Represents F n) (chainF : Chain LogEntry.term g F) (chainL : Chain LogEntry.term g L)
    (within : arg.lastIncludedIndex ≤ L.length)
    (term : arg.lastIncludedTerm = termOf L arg.lastIncludedIndex) (forward : n.Forward arg) :
    Merged F (L.take arg.lastIncludedIndex) (L.take arg.lastIncludedIndex ++
      (n.mainLog.trimPrefix arg.lastIncludedIndex arg.lastIncludedTerm).entries) := by
  have front : (L.take arg.lastIncludedIndex).length = arg.lastIncludedIndex := by
    rw [List.length_take]
    omega
  rw [r.contiguous.trimPrefix, r.point]
  rcases forward with ⟨above, found⟩ | ⟨same, empty⟩
  · rw [if_pos above, r.entries, List.drop_drop, Nat.add_sub_cancel' above.le]
    by_cases inside : arg.lastIncludedIndex ≤ F.length
    · have stored : n.mainLog.atIndex arg.lastIncludedIndex =
          some (F.get ⟨arg.lastIncludedIndex - 1, by omega⟩) := by
        rw [r.atIndex, if_pos above]
        exact List.getElem?_eq_getElem _
      have agree : F.take arg.lastIncludedIndex = L.take arg.lastIncludedIndex :=
        chainF.take_eq_of_termAt chainL inside le_rfl within
          ((r.atIndex_some stored).2.2.2.symm.trans ((found _ stored).trans term))
      left
      rw [← agree, List.take_append_drop]
      exact ⟨take_initial _ _, rfl⟩
    · right
      rw [List.drop_eq_nil_of_le (by omega), List.append_nil]
      refine ⟨fun held => ?_, rfl⟩
      have := held.length_le
      omega
  · have whole := r.length
    rw [empty, List.length_nil, same] at whole
    rw [if_neg (by omega), List.append_nil]
    by_cases held : L.take arg.lastIncludedIndex <+: F
    · exact Or.inl ⟨held, held.eq_of_length (by omega)⟩
    · exact Or.inr ⟨held, rfl⟩

end Zdb.Raft
