import Zdb.LabelledRun
import Zdb.LogMerge
import Zdb.RaftNode

/-! A compacted log next to the log it would be without `trimPrefix`. The full log is
the compacted one behind the entries that were trimmed, and the snapshot term is the
term of the last of those. Votes and the acceptance test read no more than that. -/

namespace Zdb.Raft
open LabelledRun

inductive LogOp where
  | append (entry : LogEntry)
  | merge (other : Log)
  | trimPrefix (index term : ℕ)
  deriving DecidableEq, Repr

namespace LogOp

def apply (log : Log) : LogOp → Log
  | .append entry => log.append entry
  | .merge other => log.merge other
  | .trimPrefix index term => log.trimPrefix index term

def applyFull (log : Log) : LogOp → Log
  | .trimPrefix _ _ => log
  | op => op.apply log

/-- How the operations are used: entries follow the last one, a merged run starts
inside the log or right after it, and a snapshot ends at a stored entry. -/
def Admissible (log : Log) : LogOp → Prop
  | .append entry => entry.index = log.lastIndex + 1
  | .merge other => ∃ s, Consecutive (s - 1) other.entries ∧ log.lastIncludedIndex < s ∧
      s ≤ log.lastIndex + 1
  | .trimPrefix index term => ∃ e, log.atIndex index = some e ∧ e.term = term

def step (log : Log) (op : LogOp) : Option Log := some (op.apply log)

theorem along_cons {log : Log} {op : LogOp} {rest : List LogOp} (ok : op.Admissible log)
    (later : Along step Admissible (op.apply log) rest) :
    Along step Admissible log (op :: rest) := by
  refine ⟨ok, fun next moved => ?_⟩
  cases moved
  exact later

end LogOp

def endTerm (entries : List LogEntry) : ℕ := (entries.getLast?.map LogEntry.term).getD 0

structure Log.Trims (log full : Log) (trimmed : List LogEntry) : Prop where
  entries : full.entries = trimmed ++ log.entries
  index : log.lastIncludedIndex = trimmed.length
  term : log.lastIncludedTerm = endTerm trimmed
  consecutive : Consecutive 0 full.entries
  start : full.lastIncludedIndex = 0
  startTerm : full.lastIncludedTerm = 0

namespace Log.Trims
variable {log full : Log} {trimmed : List LogEntry}

theorem contiguous_full (h : log.Trims full trimmed) : full.Contiguous := by
  rw [Log.Contiguous, h.start]
  exact h.consecutive

theorem contiguous (h : log.Trims full trimmed) : log.Contiguous := by
  have rest := h.consecutive.drop trimmed.length
  rwa [h.entries, List.drop_left, Nat.zero_add, ← h.index] at rest

theorem lastIndex (h : log.Trims full trimmed) : full.lastIndex = log.lastIndex := by
  rw [h.contiguous_full.lastIndex, h.contiguous.lastIndex, h.start, h.index, h.entries,
    List.length_append, Nat.zero_add]

theorem lastTerm (h : log.Trims full trimmed) : full.lastTerm = log.lastTerm := by
  unfold Log.lastTerm
  rw [h.entries, List.getLast?_append]
  cases log.entries.getLast? with
  | some e => rfl
  | none =>
    rw [Option.none_or, h.term, endTerm, h.startTerm]
    cases trimmed.getLast? <;> rfl

theorem atIndex (h : log.Trims full trimmed) {j : ℕ} (above : log.lastIncludedIndex < j) :
    full.atIndex j = log.atIndex j := by
  have := h.index
  rw [h.contiguous_full.atIndex, h.contiguous.atIndex, h.start, if_pos (by omega), if_pos above,
    h.entries, List.getElem?_append_right (by omega)]
  congr 1
  omega

theorem atIndex_point (h : log.Trims full trimmed) (compacted : 0 < log.lastIncludedIndex) :
    ∃ e, full.atIndex log.lastIncludedIndex = some e ∧ e.term = log.lastIncludedTerm := by
  have length := h.index
  have inside : trimmed.length - 1 < trimmed.length := by omega
  refine ⟨trimmed[trimmed.length - 1], ?_, ?_⟩
  · rw [h.contiguous_full.atIndex, h.start, if_pos compacted, h.entries, length, Nat.sub_zero,
      List.getElem?_append_left inside, List.getElem?_eq_getElem inside]
  · rw [h.term, endTerm, List.getLast?_eq_getElem?, List.getElem?_eq_getElem inside]
    rfl

theorem suffix_eq (log : Log) (start : ℕ) :
    log.suffix start = Log.ofEntries (log.suffix start).entries := by
  unfold Log.suffix
  split <;> rfl

theorem suffix (h : log.Trims full trimmed) {j : ℕ} (above : log.lastIncludedIndex < j) :
    full.suffix j = log.suffix j := by
  have := h.index
  rw [suffix_eq full, suffix_eq log, h.contiguous_full.suffix, h.contiguous.suffix, h.start,
    if_pos (by omega), if_pos above, h.entries, List.drop_append, List.drop_eq_nil_of_le (by omega),
    List.nil_append]
  congr 2
  omega

theorem append (h : log.Trims full trimmed) {entry : LogEntry}
    (next : entry.index = log.lastIndex + 1) :
    (log.append entry).Trims (full.append entry) trimmed where
  entries := by simp [Log.append, h.entries]
  index := h.index
  term := h.term
  consecutive := by
    refine h.consecutive.append ?_
    intro k e found
    cases k with
    | succ k => simp at found
    | zero =>
      cases found
      rw [next, ← h.lastIndex, h.contiguous_full.lastIndex, h.start]
  start := h.start
  startTerm := h.startTerm

theorem merge (h : log.Trims full trimmed) {other : Log} {s : ℕ}
    (run : Consecutive (s - 1) other.entries) (above : log.lastIncludedIndex < s)
    (below : s ≤ log.lastIndex + 1) : (log.merge other).Trims (full.merge other) trimmed := by
  have length := h.index
  have meets : log.Meets other s := by
    rw [h.contiguous.lastIndex] at below
    exact ⟨h.contiguous, run, above, below⟩
  have meets_full : full.Meets other s := by
    rw [← h.lastIndex, h.contiguous_full.lastIndex] at below
    exact ⟨h.contiguous_full, run, by rw [h.start]; omega, below⟩
  have merged : (full.merge other).entries = trimmed ++ (log.merge other).entries := by
    rw [meets_full.merge_entries, meets.merge_entries, h.start, h.entries, ← splice_append]
    congr 1
    omega
  have gapless := meets_full.merge_contiguous
  rw [Log.Contiguous, show (full.merge other).lastIncludedIndex = 0 from h.start] at gapless
  exact ⟨merged, h.index, h.term, gapless, h.start, h.startTerm⟩

theorem trimPrefix (h : log.Trims full trimmed) {index : ℕ} {e : LogEntry}
    (stored : log.atIndex index = some e) :
    (log.trimPrefix index e.term).Trims full
      (trimmed ++ log.entries.take (index - log.lastIncludedIndex)) := by
  rw [h.contiguous.atIndex] at stored
  split_ifs at stored with above
  obtain ⟨inside, value⟩ := List.getElem?_eq_some_iff.mp stored
  have length := h.index
  refine ⟨?_, ?_, ?_, h.consecutive, h.start, h.startTerm⟩
  · rw [h.contiguous.trimPrefix, if_pos above, List.append_assoc, List.take_append_drop, h.entries]
  · simp only [Log.trimPrefix, List.length_append, List.length_take]
    omega
  · have last : (log.entries.take (index - log.lastIncludedIndex)).getLast? = some e := by
      rw [List.getLast?_take, if_neg (by omega), stored]
      rfl
    simp only [Log.trimPrefix, endTerm, List.getLast?_append, last, Option.some_or]
    rfl

theorem apply (h : log.Trims full trimmed) {op : LogOp} (ok : op.Admissible log) :
    ∃ trimmed', (op.apply log).Trims (op.applyFull full) trimmed' := by
  cases op with
  | append entry => exact ⟨trimmed, h.append ok⟩
  | merge other =>
    obtain ⟨s, run, above, below⟩ := ok
    exact ⟨trimmed, h.merge run above below⟩
  | trimPrefix index term =>
    obtain ⟨e, stored, rfl⟩ := ok
    exact ⟨_, h.trimPrefix stored⟩

theorem foldl (h : log.Trims full trimmed) {ops : List LogOp}
    (admitted : Along LogOp.step LogOp.Admissible log ops) :
    ∃ trimmed', (ops.foldl LogOp.apply log).Trims (ops.foldl LogOp.applyFull full) trimmed' := by
  induction ops generalizing log full trimmed with
  | nil => exact ⟨trimmed, h⟩
  | cons op rest ih =>
    obtain ⟨ok, later⟩ := admitted
    obtain ⟨_, next⟩ := h.apply ok
    exact ih next (later _ rfl)

end Log.Trims

def Node.holding (n : Node) (log : Log) : Node :=
  { n with
    mainLog := log
    lastIncludedIndex := log.lastIncludedIndex
    lastIncludedTerm := log.lastIncludedTerm }

theorem Log.Trims.upToDate {log full : Log} {trimmed : List LogEntry}
    (h : log.Trims full trimmed) (n : Node) (lastLogIndex lastLogTerm : ℕ) :
    (n.holding full).upToDate lastLogIndex lastLogTerm =
      (n.holding log).upToDate lastLogIndex lastLogTerm := by
  have index : (n.holding full).mainLog.lastIndex = (n.holding log).mainLog.lastIndex := h.lastIndex
  have term : (n.holding full).mainLog.lastTerm = (n.holding log).mainLog.lastTerm := h.lastTerm
  rw [Node.upToDate, Node.upToDate, index, term]

theorem Log.Trims.accepts {log full : Log} {trimmed : List LogEntry}
    (h : log.Trims full trimmed) (n : Node) {arg : AppendEntriesArg}
    (covered : log.lastIncludedIndex ≤ arg.prevLogIndex) :
    (n.holding full).accepts arg = (n.holding log).accepts arg := by
  simp only [Node.accepts, Node.holding]
  rcases Nat.eq_zero_or_pos arg.prevLogIndex with zero | positive
  · simp [zero]
  rcases Nat.eq_or_lt_of_le covered with point | above
  · -- the compacted log compares with its snapshot point, the full one with the entry there
    obtain ⟨e, found, term⟩ := h.atIndex_point (by omega)
    have missing : log.atIndex log.lastIncludedIndex = none := by
      rw [h.contiguous.atIndex, if_neg (Nat.lt_irrefl _)]
    simp [← point, found, missing, term, Bool.beq_comm (α := ℕ)]
  · rw [h.atIndex above]
    cases log.atIndex arg.prevLogIndex with
    | some e => rfl
    | none =>
      have other : (arg.prevLogIndex == log.lastIncludedIndex) = false := by
        simp only [beq_eq_false_iff_ne]
        omega
      have nonzero : (arg.prevLogIndex == full.lastIncludedIndex) = false := by
        rw [h.start]
        simp only [beq_eq_false_iff_ne]
        omega
      simp only [other, nonzero, Bool.false_and]

/-- Compaction is invisible to reads past the snapshot point, to votes and to the
acceptance of entries from there on. -/
theorem compaction_refines (ops : List LogOp)
    (admitted : Along LogOp.step LogOp.Admissible {} ops) :
    let log := ops.foldl LogOp.apply {}
    let full := ops.foldl LogOp.applyFull {}
    full.lastIndex = log.lastIndex ∧ full.lastTerm = log.lastTerm ∧
      (∀ j, log.lastIncludedIndex < j →
        full.atIndex j = log.atIndex j ∧ full.suffix j = log.suffix j) ∧
      (∀ (n : Node) (lastLogIndex lastLogTerm : ℕ),
        (n.holding full).upToDate lastLogIndex lastLogTerm =
          (n.holding log).upToDate lastLogIndex lastLogTerm) ∧
      ∀ (n : Node) (arg : AppendEntriesArg), log.lastIncludedIndex ≤ arg.prevLogIndex →
        (n.holding full).accepts arg = (n.holding log).accepts arg := by
  have empty : Log.Trims {} {} [] := ⟨rfl, rfl, rfl, Consecutive.nil 0, rfl, rfl⟩
  obtain ⟨trimmed, h⟩ := empty.foldl admitted
  exact ⟨h.lastIndex, h.lastTerm, fun j above => ⟨h.atIndex above, h.suffix above⟩, h.upToDate,
    fun n arg => h.accepts n⟩

theorem compaction_refines_emptied :
    let noOp : Command := ⟨Vector.replicate 16 0, .noOp⟩
    let ops := [LogOp.append ⟨1, 1, noOp⟩, .append ⟨2, 1, noOp⟩, .trimPrefix 2 1,
      .merge (.ofEntries [⟨3, 2, noOp⟩])]
    ops.foldl LogOp.apply {} = ⟨[⟨3, 2, noOp⟩], 2, 1⟩ ∧
      (ops.foldl LogOp.applyFull {}).lastTerm = (ops.foldl LogOp.apply {}).lastTerm := by
  intro noOp ops
  have run : Consecutive (3 - 1) [⟨3, 2, noOp⟩] := by
    rintro (_ | k) e found <;> cases found
    rfl
  have admitted : Along LogOp.step LogOp.Admissible {} ops :=
    LogOp.along_cons rfl (LogOp.along_cons rfl (LogOp.along_cons ⟨⟨2, 1, noOp⟩, rfl, rfl⟩
      (LogOp.along_cons ⟨3, run, by decide, by decide⟩ trivial)))
  exact ⟨by decide, (compaction_refines ops admitted).2.1⟩

end Zdb.Raft
