import Zdb.Contiguity

/-! Terms along a log. Appending, merging and compacting keep the terms of the
snapshot point and of the stored entries in order. `installSnapshotHandler` does
not ask whether the entry it finds at the snapshot point is the one the snapshot
ends with, and keeps whatever follows it; this and the gaps that a request from
the beginning opens are the only ways out of order. -/

namespace Zdb.Raft
open LabelledRun

/-- An admitted InstallSnapshot finds no entry of another term at its point. -/
def installsMatching (s : Cluster) : Action → Bool
  | .installSnapshotHandler k => match s.network.installCalls[k]? with
      | some call =>
          let n := s.nodes call.callee
          !n.admits call.arg.term || (n.mainLog.atIndex call.arg.lastIncludedIndex).all
            fun e => e.term == call.arg.lastIncludedTerm
      | none => true
  | _ => true

def keepsTermOrder (s : Cluster) (a : Action) : Bool := mergesInPlace s a && installsMatching s a

theorem installsMatching_install {s : Cluster} {k : ℕ} {call : Call InstallSnapshotArg}
    (ok : installsMatching s (.installSnapshotHandler k) = true)
    (found : s.network.installCalls[k]? = some call)
    (success : ((s.nodes call.callee).installSnapshotHandler call.arg).2.success = true) :
    ∀ e, (s.nodes call.callee).mainLog.atIndex call.arg.lastIncludedIndex = some e →
      e.term = call.arg.lastIncludedTerm := by
  simpa only [installsMatching, found, Node.installSnapshotHandler_admits success, Bool.not_true,
    Bool.false_or, Option.all_eq_true, beq_iff_eq] using ok

/-- The term of the snapshot point, then those of the entries in order. -/
def Node.terms (n : Node) : List ℕ := n.lastIncludedTerm :: n.mainLog.entries.map LogEntry.term

theorem pairwise_take_append {before after : List ℕ} {k p : ℕ} (hb : before.Pairwise (· ≤ ·))
    (place : before[k]? = some p) (ha : (p :: after).Pairwise (· ≤ ·)) :
    (before.take (k + 1) ++ after).Pairwise (· ≤ ·) := by
  have front : before.take (k + 1) = before.take k ++ [p] := by
    rw [List.take_add_one, place]
    rfl
  have kept := hb.sublist (List.take_sublist (k + 1) before)
  rw [front, List.pairwise_append] at kept
  rw [front, List.append_assoc, List.singleton_append, List.pairwise_append]
  refine ⟨kept.1, ha, fun x early y late => ?_⟩
  have low := kept.2.2 x early p (by simp)
  rcases List.mem_cons.mp late with rfl | later
  · exact low
  · exact low.trans (List.rel_of_pairwise_cons ha later)

theorem splice_terms {entries sent : List LogEntry} {b k p : ℕ}
    (ordered : (b :: entries.map LogEntry.term).Pairwise (· ≤ ·))
    (place : (b :: entries.map LogEntry.term)[k]? = some p)
    (sending : (p :: sent.map LogEntry.term).Pairwise (· ≤ ·)) :
    (b :: (splice entries k sent).map LogEntry.term).Pairwise (· ≤ ·) := by
  induction sent generalizing k p with
  | nil => exact ordered
  | cons e rest ih =>
    have joined : (b :: (entries.take k ++ e :: rest).map LogEntry.term).Pairwise (· ≤ ·) := by
      simpa using pairwise_take_append ordered place sending
    rw [splice]
    cases found : entries[k]? with
    | none => exact joined
    | some stored =>
      simp only
      split_ifs with equal
      · refine ih (p := stored.term) (by simp [found]) ?_
        rw [LogEntry.term_eq_of_equal equal]
        exact (List.pairwise_cons.mp sending).2
      · exact joined

structure Ascending (n : Node) : Prop where
  ordered : n.terms.Pairwise (· ≤ ·)
  bound : ∀ t ∈ n.terms, t ≤ n.currentTerm
  fresh : n.lastIncludedIndex = 0 → n.lastIncludedTerm = 0

structure TermsOrdered (s : Cluster) : Prop where
  node : ∀ v, Ascending (s.nodes v)
  sent : ∀ arg, Prepared s arg →
    (arg.prevLogTerm :: arg.entries.entries.map LogEntry.term).Pairwise (· ≤ ·) ∧
      ∀ e ∈ arg.entries.entries, e.term ≤ arg.term
  install : ∀ c ∈ s.network.installCalls, c.arg.lastIncludedTerm ≤ c.arg.term ∧
    (c.arg.lastIncludedIndex = 0 → c.arg.lastIncludedTerm = 0)

namespace Ascending
variable {n n' : Node}

theorem entry_le (asc : Ascending n) {e : LogEntry} (stored : e ∈ n.mainLog.entries) :
    e.term ≤ n.currentTerm :=
  asc.bound e.term (List.mem_cons_of_mem _ (List.mem_map_of_mem stored))

theorem point_le (asc : Ascending n) : n.lastIncludedTerm ≤ n.currentTerm :=
  asc.bound _ List.mem_cons_self

theorem entries_ordered (asc : Ascending n) :
    (n.mainLog.entries.map LogEntry.term).Pairwise (· ≤ ·) :=
  (List.pairwise_cons.mp asc.ordered).2

theorem frame (asc : Ascending n) (store : n'.toStore = n.toStore)
    (le : n.currentTerm ≤ n'.currentTerm) : Ascending n' := by
  have same : n'.terms = n.terms := by simp only [Node.terms, store]
  refine ⟨by rw [same]; exact asc.ordered, fun t among => ?_, by rw [store]; exact asc.fresh⟩
  rw [same] at among
  exact (asc.bound t among).trans le

theorem trimPrefix (asc : Ascending n) (shape : n.mainLog.Contiguous) {index term : ℕ}
    (agree : ∀ e, n.mainLog.atIndex index = some e → e.term = term)
    (log : n'.mainLog = n.mainLog.trimPrefix index term) (point : n'.lastIncludedIndex = index)
    (pointTerm : n'.lastIncludedTerm = term) (le : n.currentTerm ≤ n'.currentTerm)
    (known : term ≤ n'.currentTerm) (fresh : index = 0 → term = 0) : Ascending n' := by
  have cut : ∃ k, n'.terms = term :: (n.mainLog.entries.drop k).map LogEntry.term ∧
      (term :: (n.mainLog.entries.drop k).map LogEntry.term).Pairwise (· ≤ ·) := by
    rw [Node.terms, pointTerm, log, shape.trimPrefix]
    split_ifs with above
    · refine ⟨_, rfl, ?_⟩
      rw [shape.atIndex, if_pos above] at agree
      cases found : n.mainLog.entries[index - n.mainLog.lastIncludedIndex - 1]? with
      | none =>
        have past := List.getElem?_eq_none_iff.mp found
        rw [List.drop_eq_nil_of_le (by omega)]
        exact List.pairwise_singleton _ _
      | some e =>
        obtain ⟨inside, value⟩ := List.getElem?_eq_some_iff.mp found
        have kept := asc.entries_ordered.sublist
          ((List.drop_sublist (index - n.mainLog.lastIncludedIndex - 1) n.mainLog.entries).map _)
        rw [List.drop_eq_getElem_cons inside, value, List.map_cons, agree e found,
          show index - n.mainLog.lastIncludedIndex - 1 + 1 =
            index - n.mainLog.lastIncludedIndex by omega] at kept
        exact kept
    · exact ⟨n.mainLog.entries.length, by simp, by simp⟩
  obtain ⟨k, same, ordered⟩ := cut
  refine ⟨by rw [same]; exact ordered, fun t among => ?_, by rw [point, pointTerm]; exact fresh⟩
  rw [same] at among
  rcases List.mem_cons.mp among with rfl | stored
  · exact known
  · obtain ⟨e, late, rfl⟩ := List.mem_map.mp stored
    exact (asc.entry_le (List.mem_of_mem_drop late)).trans le

theorem propose (asc : Ascending n) (index : ℕ) (command : Command) (control : Control) :
    Ascending { n with
      mainLog := n.mainLog.append ⟨index, n.currentTerm, command⟩, toControl := control } := by
  have same : ∀ log : Log, log = n.mainLog.append ⟨index, n.currentTerm, command⟩ →
      n.lastIncludedTerm :: log.entries.map LogEntry.term = n.terms ++ [n.currentTerm] := by
    rintro log rfl
    simp [Node.terms, Log.append]
  refine ⟨?_, fun t among => ?_, asc.fresh⟩
  · rw [Node.terms, same _ rfl, List.pairwise_append]
    exact ⟨asc.ordered, List.pairwise_singleton _ _, by simpa using asc.bound⟩
  · rw [Node.terms, same _ rfl] at among
    rcases List.mem_append.mp among with old | new
    · exact asc.bound t old
    · exact (List.mem_singleton.mp new).le

theorem accepts_place (asc : Ascending n) (shape : n.mainLog.Contiguous) (synced : n.Synced)
    {arg : AppendEntriesArg} (accepts : n.accepts arg = true)
    (low : n.lastIncludedIndex ≤ arg.prevLogIndex)
    (sending : (arg.prevLogTerm :: arg.entries.entries.map LogEntry.term).Pairwise (· ≤ ·)) :
    ∃ p, n.terms[arg.prevLogIndex - n.lastIncludedIndex]? = some p ∧
      (p :: arg.entries.entries.map LogEntry.term).Pairwise (· ≤ ·) := by
  simp only [Node.accepts, Bool.or_eq_true, beq_iff_eq] at accepts
  by_cases zero : arg.prevLogIndex = 0
  · have first : n.lastIncludedIndex = 0 := by omega
    refine ⟨0, by simp [zero, Node.terms, asc.fresh first], ?_⟩
    exact List.pairwise_cons.mpr ⟨fun _ _ => Nat.zero_le _, (List.pairwise_cons.mp sending).2⟩
  · refine ⟨arg.prevLogTerm, ?_, sending⟩
    have stored := accepts.resolve_left zero
    rw [shape.atIndex, synced.index] at stored
    split_ifs at stored with above
    · cases found : n.mainLog.entries[arg.prevLogIndex - n.lastIncludedIndex - 1]? with
      | none =>
        simp only [found, Bool.and_eq_true, beq_iff_eq] at stored
        omega
      | some e =>
        simp only [found, beq_iff_eq] at stored
        rw [show arg.prevLogIndex - n.lastIncludedIndex =
          arg.prevLogIndex - n.lastIncludedIndex - 1 + 1 by omega, Node.terms,
          List.getElem?_cons_succ, List.getElem?_map, found, ← stored]
        rfl
    · simp only [Bool.and_eq_true, beq_iff_eq] at stored
      simp [Node.terms, ← stored.1, stored.2]

theorem merge (asc : Ascending n) (shape : n.mainLog.Contiguous) (synced : n.Synced)
    {arg : AppendEntriesArg} (accepts : n.accepts arg = true)
    (first : arg.prevLogIndex = 0 → n.lastIncludedIndex = 0 ∨ arg.entries.entries = [])
    (run : Consecutive arg.prevLogIndex arg.entries.entries)
    (sending : (arg.prevLogTerm :: arg.entries.entries.map LogEntry.term).Pairwise (· ≤ ·)) :
    (n.lastIncludedTerm ::
      (n.mainLog.merge arg.entries).entries.map LogEntry.term).Pairwise (· ≤ ·) := by
  rcases n.accepts_within shape synced accepts first with ⟨_, empty⟩ | ⟨low, high⟩
  · rw [Log.merge, empty]
    exact asc.ordered
  · obtain ⟨p, place, after⟩ := asc.accepts_place shape synced accepts low sending
    rw [show arg.prevLogIndex = n.lastIncludedIndex + (arg.prevLogIndex - n.lastIncludedIndex)
      by omega, ← synced.index] at run
    rw [Log.merge, mergeEntries_eq_splice shape (by rw [synced.index]; omega) run, synced.index]
    exact splice_terms asc.ordered place after

end Ascending

theorem Builds.terms_ordered {v peer : PeerId} {n : Node} {a : Action} {arg : AppendEntriesArg}
    (builds : Builds v n a peer arg) (asc : Ascending n) (shape : n.mainLog.Contiguous)
    (synced : n.Synced) :
    (arg.prevLogTerm :: arg.entries.entries.map LogEntry.term).Pairwise (· ≤ ·) ∧
      ∀ e ∈ arg.entries.entries, e.term ≤ arg.term := by
  obtain ⟨snap, t, term, rfl, _⟩ := builds.built
  simp only [Node.argFor, Log.ofEntries, Log.data]
  rw [shape.suffix]
  split_ifs with above
  · refine ⟨?_, fun e late => asc.entry_le (List.mem_of_mem_drop late)⟩
    rw [Node.prevLogTerm, shape.atIndex] at term
    rcases Nat.lt_or_ge n.mainLog.lastIncludedIndex (n.sendFrom peer - 1) with inside | point
    · rw [if_pos inside] at term
      cases found : n.mainLog.entries[n.sendFrom peer - 1 - n.mainLog.lastIncludedIndex - 1]? with
      | none =>
        have past := List.getElem?_eq_none_iff.mp found
        rw [List.drop_eq_nil_of_le (by omega)]
        exact List.pairwise_singleton _ _
      | some e =>
        obtain ⟨within, value⟩ := List.getElem?_eq_some_iff.mp found
        have kept := asc.entries_ordered.sublist ((List.drop_sublist
          (n.sendFrom peer - 1 - n.mainLog.lastIncludedIndex - 1) n.mainLog.entries).map _)
        simp only [found, Option.some.injEq] at term
        rw [List.drop_eq_getElem_cons within, value, List.map_cons, term,
          show n.sendFrom peer - 1 - n.mainLog.lastIncludedIndex - 1 + 1 =
            n.sendFrom peer - n.mainLog.lastIncludedIndex - 1 by omega] at kept
        exact kept
    · rw [if_neg point.not_gt] at term
      have here : decide (n.sendFrom peer - 1 ≤ n.lastIncludedIndex) = true := by
        rw [← synced.index]
        simpa using point
      simp only [here, Bool.or_true, if_true, Option.some.injEq] at term
      rw [← term, show n.sendFrom peer - n.mainLog.lastIncludedIndex - 1 = 0 by omega]
      exact asc.ordered
  · simp

section Step
variable {m : Membership} {s : Cluster} {a : Action} {v : PeerId} {n' : Node} {out : Output}

theorem TermsOrdered.node_step (inv : TermsOrdered s) (gaps : Gapless s)
    (synced : ∀ u, (s.nodes u).Synced) (ok : keepsTermOrder s a = true)
    (move : Move m.peers s.network v (s.nodes v) a n' out) : Ascending n' := by
  rw [keepsTermOrder, Bool.and_eq_true] at ok
  have asc := inv.node v
  have le := move.term_le
  cases move with
  | accept k call control d out found here current clear accepts success follows =>
    subst here
    have ready : Prepared s call.arg := Or.inl ⟨call, List.mem_of_getElem? found, rfl⟩
    obtain ⟨sending, known⟩ := inv.sent _ ready
    refine ⟨asc.merge (gaps.node _) (synced _) accepts (mergesInPlace_accept ok.1 found success)
      (gaps.sent _ ready) sending, fun t among => ?_, asc.fresh⟩
    rcases List.mem_cons.mp among with rfl | stored
    · exact asc.point_le.trans le
    · obtain ⟨e, merged, rfl⟩ := List.mem_map.mp stored
      rcases mem_mergeEntries merged with old | new
      · exact (asc.entry_le old).trans le
      · exact known e new
  | install k call control found here current clear success =>
    subst here
    obtain ⟨known, fresh⟩ := inv.install call (List.mem_of_getElem? found)
    exact asc.trimPrefix (gaps.node _) (installsMatching_install ok.2 found success) rfl rfl rfl
      le known fresh
  | propose command control leads clear => exact asc.propose _ command control
  | compact index data e control clear above within present =>
    refine asc.trimPrefix (gaps.node v) (fun f found => ?_) rfl rfl rfl le_rfl ?_ (by omega)
    · rw [present] at found
      rw [Option.some.inj found]
    · rw [(gaps.node v).atIndex] at present
      split_ifs at present
      exact asc.entry_le (List.mem_of_getElem? present)
  | deliverReturn a d caller delivers => cases caller <;> exact asc.frame rfl le
  | refresh data control clear =>
    exact ⟨asc.ordered, asc.bound, asc.fresh⟩
  | _ => exact asc.frame rfl le

theorem TermsOrdered.step (inv : TermsOrdered s) (gaps : Gapless s)
    (synced : ∀ u, (s.nodes u).Synced) (ok : keepsTermOrder s a = true)
    (move : Move m.peers s.network v (s.nodes v) a n' out) : TermsOrdered (s.update v n' out) where
  node := Cluster.forall_nodes_update (P := fun _ n => Ascending n)
    (inv.node_step gaps synced ok move) fun u _ => inv.node u
  sent arg ready := by
    rcases ready.of_update move with old | ⟨peer, builds⟩
    · exact inv.sent arg old
    · exact builds.terms_ordered (inv.node v) (gaps.node v) (synced v)
  install c sent := by
    rcases Network.mem_installCalls_emit sent with old | new
    · exact inv.install c old
    · obtain ⟨_, _, _, _, term, index, pointTerm, _⟩ := move.installSnapshot_out new
      rw [term, index, pointTerm]
      exact ⟨(inv.node v).point_le, (inv.node v).fresh⟩

end Step

theorem TermsOrdered.initial : TermsOrdered Cluster.initial := by
  refine ⟨fun v => ?_, ?_, by simp [Cluster.initial]⟩
  · constructor <;> simp [Cluster.initial, Node.boot, Node.readPersist, Node.terms, Log.merge,
      Log.clear, Log.setLastIncluded, Log.mergeEntries]
  · rintro arg (⟨c, sent, _⟩ | ⟨v, p, call, next, at_⟩)
    · simp [Cluster.initial] at sent
    · simp [Cluster.initial, Node.boot, Node.readPersist] at at_

/-- As long as no request from the beginning meets a snapshot and no snapshot an
entry of another term, the term of the snapshot point and the terms of the stored
entries never decrease and stay within the current term. -/
theorem terms_never_decrease {m : Membership} {actions : List Action} {s : Cluster}
    (good : Along (Cluster.step m) (fun s a => keepsTermOrder s a = true) Cluster.initial actions)
    (run : Cluster.run m actions = some s) (v : PeerId) :
    (s.nodes v).terms.Pairwise (· ≤ ·) ∧ ∀ t ∈ (s.nodes v).terms, t ≤ (s.nodes v).currentTerm := by
  obtain ⟨h, runH⟩ := Cluster.exists_runHistory run
  obtain ⟨_, inv⟩ := Cluster.history_invariant _ (fun s _ => Gapless s ∧ TermsOrdered s)
    (fun _ _ _ _ _ _ inv synced _ ok _ move =>
      ⟨inv.1.step synced (Bool.and_eq_true_iff.mp ok).1 move, inv.2.step inv.1 synced ok move⟩)
    Cluster.initial_synced ⟨Gapless.initial, TermsOrdered.initial⟩ good runH
  exact ⟨(inv.node v).ordered, (inv.node v).bound⟩

theorem terms_never_decrease_installed : ∃ s,
    Along (Cluster.step threePeers) (fun s a => keepsTermOrder s a = true) Cluster.initial
      snapshotThenEntry ∧
    Cluster.run threePeers snapshotThenEntry = some s ∧ (s.nodes "c").terms = [1, 1] ∧
    (s.nodes "c").terms.Pairwise (· ≤ ·) ∧
    ∀ t ∈ (s.nodes "c").terms, t ≤ (s.nodes "c").currentTerm := by
  have good : Along (Cluster.step threePeers) (fun s a => keepsTermOrder s a = true)
      Cluster.initial snapshotThenEntry := by decide +kernel
  obtain ⟨s, run, terms⟩ : ∃ s, Cluster.run threePeers snapshotThenEntry = some s ∧
      (s.nodes "c").terms = [1, 1] := by
    refine ⟨_, (Option.some_get (by decide +kernel)).symm, by decide +kernel⟩
  exact ⟨s, good, run, terms, terms_never_decrease good run "c"⟩

/-- Two entries of term 1 stay on `c` alone; in term 2 `a` commits another entry 1
with `b`, compacts it and sends `c` the snapshot. -/
def snapshotOverConflict : List Action :=
  winElection "c" "b" 0 ++
    [.start "c" ⟨default, .noOp⟩, .start "c" ⟨default, .noOp⟩, .initVote "a" true] ++
    winElection "a" "b" 1 ++ [.start "a" ⟨default, .size⟩] ++ commitOne "a" "b" 0 ++
    [.snapshot "a" 1 [1], .start "a" ⟨default, .noOp⟩, .appendEntries "a" "c",
      .installSnapshotHandler 0]

/-- `c` keeps its entry 2 of term 1 behind a snapshot point of term 2. -/
theorem terms_decrease : ∃ s, Cluster.run threePeers snapshotOverConflict = some s ∧
    Along (Cluster.step threePeers) (fun s a => snapshotsApplied s a = true) Cluster.initial
      snapshotOverConflict ∧
    (s.nodes "c").terms = [2, 1] ∧ ¬ (s.nodes "c").terms.Pairwise (· ≤ ·) := by
  refine ⟨_, (Option.some_get (by decide +kernel)).symm, by decide +kernel, by decide +kernel,
    by decide +kernel⟩

end Zdb.Raft
