import Zdb.History

/-! The order of deliveries. Two threads give items to the state machine, both
with mutex `m` released: `applyCommittedEntries` one entry at a time, and
`asyncInstallSnapshot` a snapshot. They keep out of each other's way as long as
`pendingSnapshot` is set only when nobody is applying, and by a snapshot that is
not older than what has been applied; `installSnapshotHandler` asks for neither. -/

namespace Zdb.Raft
open LabelledRun

def Item.index : Item → ℕ
  | .command e => e.index
  | .snapshot index _ _ => index

def Item.After (last : ℕ) : Item → Prop
  | .command e => e.index = last + 1
  | .snapshot index _ _ => last ≤ index

def InOrder : ℕ → List Item → Prop
  | _, [] => True
  | last, item :: rest => item.After last ∧ InOrder item.index rest

/-- How far the items lead when everything up to `last` comes before them. -/
def reached : ℕ → List Item → ℕ
  | last, [] => last
  | _, item :: rest => reached item.index rest

theorem reached_snoc (last : ℕ) (items : List Item) (item : Item) :
    reached last (items ++ [item]) = item.index := by
  induction items generalizing last with
  | nil => rfl
  | cons first rest ih => exact ih first.index

theorem InOrder.snoc {last : ℕ} {items : List Item} {item : Item} (h : InOrder last items)
    (after : item.After (reached last items)) : InOrder last (items ++ [item]) := by
  induction items generalizing last with
  | nil => exact ⟨after, trivial⟩
  | cons first rest ih => exact ⟨h.1, ih h.2 after⟩

/-- An admitted InstallSnapshot finds nobody applying entries, and its snapshot
is not older than what has been applied. -/
def installsInOrder (s : Cluster) : Action → Bool
  | .installSnapshotHandler k => match s.network.installCalls[k]? with
      | some call =>
          let n := s.nodes call.callee
          !n.admits call.arg.term ||
            (n.applyThread.isNone && decide (n.lastApplied ≤ call.arg.lastIncludedIndex))
      | none => true
  | _ => true

theorem installsInOrder_install {s : Cluster} {k : ℕ} {call : Call InstallSnapshotArg}
    (ok : installsInOrder s (.installSnapshotHandler k) = true)
    (found : s.network.installCalls[k]? = some call)
    (success : ((s.nodes call.callee).installSnapshotHandler call.arg).2.success = true) :
    (s.nodes call.callee).applyThread = none ∧
      (s.nodes call.callee).lastApplied ≤ call.arg.lastIncludedIndex := by
  simpa only [installsInOrder, found,
    Node.installSnapshotHandler_admits success, Bool.not_true, Bool.false_or, Bool.and_eq_true,
    Option.isNone_iff_eq_none, decide_eq_true_eq] using ok

structure Delivering (n : Node) : Prop where
  ordered : InOrder 0 n.stateMachine
  pending : n.pendingSnapshot = true →
    n.applyThread = none ∧ n.lastApplied ≤ n.lastIncludedIndex
  taken : ∀ i t data, n.snapshotThread = .sending i t data →
    n.pendingSnapshot = true ∧ i = n.lastIncludedIndex ∧ t = n.lastIncludedTerm
  given : ∀ i t, n.snapshotThread = .sent i t → n.pendingSnapshot = true ∧
    i = n.lastIncludedIndex ∧ t = n.lastIncludedTerm ∧ reached 0 n.stateMachine = i
  idle : n.applyThread = none → (∀ i t, n.snapshotThread ≠ .sent i t) →
    reached 0 n.stateMachine = n.lastApplied
  sending : ∀ caller i c, n.applyThread = some (caller, .sending i c) →
    i = n.lastApplied + 1 ∧ c.index = i ∧ reached 0 n.stateMachine = n.lastApplied
  sent : ∀ caller i, n.applyThread = some (caller, .sent i) →
    i = n.lastApplied + 1 ∧ reached 0 n.stateMachine = i

theorem atIter_index {entries : List LogEntry} {i k : ℕ} {e : LogEntry}
    (h : Log.atIter entries i = some (k, e)) : e.index = i := by
  induction entries generalizing k with
  | nil => simp [Log.atIter] at h
  | cons first rest ih =>
    rw [Log.atIter] at h
    split_ifs at h with here
    · simp only [Option.some.injEq, Prod.mk.injEq] at h
      simpa [← h.2] using here
    · obtain ⟨found, later, same⟩ := Option.map_eq_some_iff.mp h
      simp only [Prod.mk.injEq] at same
      exact ih (k := found.1) (by rw [later, ← same.2])

theorem Log.atIndex_index {log : Log} {i : ℕ} {e : LogEntry} (h : log.atIndex i = some e) :
    e.index = i := by
  obtain ⟨⟨k, _⟩, found, rfl⟩ := Option.map_eq_some_iff.mp h
  exact atIter_index found

namespace Delivering
variable {n n' : Node} {v : PeerId} {a : Action} {d : Delivery}

theorem frame (h : Delivering n) (index : n'.lastIncludedIndex = n.lastIncludedIndex)
    (term : n'.lastIncludedTerm = n.lastIncludedTerm)
    (pending : n'.pendingSnapshot = n.pendingSnapshot) (apply : n'.applyThread = n.applyThread)
    (snapshot : n'.snapshotThread = n.snapshotThread) (applied : n'.lastApplied = n.lastApplied)
    (channel : n'.stateMachine = n.stateMachine) : Delivering n' := by
  constructor <;> simp only [index, term, pending, apply, snapshot, applied, channel]
  · exact h.ordered
  · exact h.pending
  · exact h.taken
  · exact h.given
  · exact h.idle
  · exact h.sending
  · exact h.sent

theorem snapshotThread_waiting (h : Delivering n) (clear : n.pendingSnapshot = false) :
    n.snapshotThread = .waiting := by
  cases at_ : n.snapshotThread with
  | waiting => rfl
  | sending i t data => simp [(h.taken i t data at_).1] at clear
  | sent i t => simp [(h.given i t at_).1] at clear

theorem clear_of_applying (h : Delivering n) {x : ApplyCaller × ApplyPoint}
    (at_ : n.applyThread = some x) : n.pendingSnapshot = false := by
  cases pending : n.pendingSnapshot with
  | false => rfl
  | true => simp [(h.pending pending).1] at at_

theorem of_clear (clear : n'.pendingSnapshot = false) (snapshot : n'.snapshotThread = .waiting)
    (ordered : InOrder 0 n'.stateMachine)
    (idle : n'.applyThread = none → reached 0 n'.stateMachine = n'.lastApplied)
    (sending : ∀ caller i c, n'.applyThread = some (caller, .sending i c) →
      i = n'.lastApplied + 1 ∧ c.index = i ∧ reached 0 n'.stateMachine = n'.lastApplied)
    (sent : ∀ caller i, n'.applyThread = some (caller, .sent i) →
      i = n'.lastApplied + 1 ∧ reached 0 n'.stateMachine = i) : Delivering n' := by
  refine ⟨ordered, ?_, ?_, ?_, fun none _ => idle none, sending, sent⟩
  · simp [clear]
  · simp [snapshot]
  · simp [snapshot]

theorem deliver {caller : Option ApplyCaller} (h : Delivering n)
    (delivers : Delivers v n a d caller) : Delivering { n with toDelivery := d } := by
  cases delivers with
  | enterReturn k caller free queued =>
    exact h.frame rfl rfl rfl free.symm rfl rfl rfl
  | enterSend k caller c free queued behind clear present =>
    have waits := h.snapshotThread_waiting clear
    have here := h.idle free (by simp [waits])
    refine of_clear clear waits h.ordered (by simp) ?_ (by simp)
    intro caller' i c' at_
    cases at_
    exact ⟨rfl, Log.atIndex_index present, here⟩
  | sendOk caller i c at_ =>
    have clear := h.clear_of_applying at_
    obtain ⟨next, index, here⟩ := h.sending caller i c at_
    refine of_clear clear (h.snapshotThread_waiting clear) (h.ordered.snoc ?_) (by simp) (by simp)
      ?_
    · rw [here]
      exact index.trans next
    · intro caller' i' at'
      cases at'
      exact ⟨next, (reached_snoc _ _ _).trans index⟩
  | sendFail caller i c at_ =>
    have clear := h.clear_of_applying at_
    have here := (h.sending caller i c at_).2.2
    exact of_clear clear (h.snapshotThread_waiting clear) h.ordered (fun _ => here) (by simp)
      (by simp)
  | relockReturn caller i at_ =>
    have clear := h.clear_of_applying at_
    have here := (h.sent caller i at_).2
    exact of_clear clear (h.snapshotThread_waiting clear) h.ordered (fun _ => here) (by simp)
      (by simp)
  | relockSend caller i c at_ behind present =>
    have clear := h.clear_of_applying at_
    have here := (h.sent caller i at_).2
    refine of_clear clear (h.snapshotThread_waiting clear) h.ordered (by simp) ?_ (by simp)
    intro caller' i' c' at'
    cases at'
    exact ⟨rfl, Log.atIndex_index present, here⟩
  | take at_ pending =>
    have here := h.idle (h.pending pending).1 (by simp [at_])
    refine ⟨h.ordered, h.pending, ?_, by simp, fun _ _ => here, h.sending, h.sent⟩
    intro i t data at'
    cases at'
    exact ⟨pending, rfl, rfl⟩
  | handOver index term data at_ =>
    obtain ⟨pending, rfl, rfl⟩ := h.taken index term data at_
    obtain ⟨free, below⟩ := h.pending pending
    have here := h.idle free (by simp [at_])
    refine ⟨h.ordered.snoc (here.trans_le below), h.pending, by simp, ?_, ?_, ?_, ?_⟩
    · intro i t at'
      cases at'
      exact ⟨pending, rfl, rfl, reached_snoc _ _ _⟩
    · intro _ open_
      exact absurd rfl (open_ _ _)
    · intro caller i c at'
      simp [free] at at'
    · intro caller i at'
      simp [free] at at'
  | giveUp index term data at_ =>
    obtain ⟨pending, _, _⟩ := h.taken index term data at_
    have here := h.idle (h.pending pending).1 (by simp [at_])
    exact ⟨h.ordered, h.pending, by simp, by simp, fun _ _ => here, h.sending, h.sent⟩
  | installed at_ =>
    obtain ⟨pending, _, _, here⟩ := h.given _ _ at_
    have free := (h.pending pending).1
    exact of_clear rfl rfl h.ordered (fun _ => here) (by simp [free]) (by simp [free])
  | overtaken index term at_ differ =>
    obtain ⟨_, same, sameTerm, _⟩ := h.given index term at_
    exact absurd ⟨same.symm, sameTerm.symm⟩ differ

end Delivering

theorem Delivering.step {peers : List PeerId} {s : Cluster} {v : PeerId} {n' : Node} {a : Action}
    {out : Output} (h : Delivering (s.nodes v)) (ok : installsInOrder s a = true)
    (move : Move peers s.network v (s.nodes v) a n' out) : Delivering n' := by
  cases move with
  | accept k call control d out found here current clear accepts success follows =>
    cases follows <;> exact h.frame rfl rfl rfl rfl rfl rfl rfl
  | install k call control found here current clear success =>
    subst here
    obtain ⟨free, below⟩ := installsInOrder_install ok found success
    have waits := h.snapshotThread_waiting clear
    have here := h.idle free (by simp [waits])
    exact ⟨h.ordered, fun _ => ⟨free, below⟩, by simp [waits], by simp [waits],
      fun _ _ => here, by simp [free], by simp [free]⟩
  | compact index data e control clear =>
    have waits := h.snapshotThread_waiting clear
    exact of_clear clear waits h.ordered (fun free => h.idle free (by simp [waits])) h.sending
      h.sent
  | reboot => constructor <;> simp [InOrder, reached]
  | deliver a d delivers => exact h.deliver delivers
  | deliverReturn a d caller delivers =>
    have moved := h.deliver delivers
    cases caller <;> exact moved.frame rfl rfl rfl rfl rfl rfl rfl
  | _ => exact h.frame rfl rfl rfl rfl rfl rfl rfl

theorem Delivering.initial : Delivering (Node.boot {}) := by
  constructor <;> simp [Node.boot, Node.readPersist, InOrder, reached]

/-- As long as every accepted InstallSnapshot finds nobody applying entries and
is not older than what has been applied, deliveries neither skip nor go back. -/
theorem deliveries_in_order {m : Membership} {actions : List Action} {s : Cluster}
    (good : Along (Cluster.step m) (fun s a => installsInOrder s a = true) Cluster.initial actions)
    (run : Cluster.run m actions = some s) (v : PeerId) :
    InOrder 0 (s.nodes v).stateMachine := by
  obtain ⟨h, runH⟩ := Cluster.exists_runHistory run
  have all := Cluster.history_invariant _ (fun s _ => ∀ v, Delivering (s.nodes v)) ?_
    Cluster.initial_synced (fun _ => Delivering.initial) good runH
  · exact (all v).ordered
  · intro s h a v n out before _ _ ok _ move
    exact Cluster.forall_nodes_update (P := fun _ n => Delivering n) ((before v).step ok move)
      fun u _ => before u

def deliverBoth : List Action := announceSecond ++ [.appendEntriesHandler 2] ++ applyOne "c"

theorem deliveries_in_order_both : ∃ s, Cluster.run threePeers deliverBoth = some s ∧
    (s.nodes "c").stateMachine =
      [.snapshot 1 1 [1], .command ⟨2, 1, ⟨default, .noOp⟩⟩] ∧
    InOrder 0 (s.nodes "c").stateMachine := by
  have good : Along (Cluster.step threePeers) (fun s a => installsInOrder s a = true)
      Cluster.initial deliverBoth := by decide +kernel
  obtain ⟨s, run, items⟩ : ∃ s, Cluster.run threePeers deliverBoth = some s ∧
      (s.nodes "c").stateMachine =
        [.snapshot 1 1 [1], .command ⟨2, 1, ⟨default, .noOp⟩⟩] := by
    refine ⟨_, (Option.some_get (by decide +kernel)).symm, by decide +kernel⟩
  exact ⟨s, run, items, deliveries_in_order good run "c"⟩

/-- The InstallSnapshot call arrives once more and takes `c` back to entry 1. -/
theorem deliveries_go_back : ∃ s, Cluster.run threePeers (deliverBoth ++
      [.installSnapshotHandler 0, .snapshotTake "c", .snapshotSend "c" true]) = some s ∧
    (s.nodes "c").stateMachine = [.snapshot 1 1 [1], .command ⟨2, 1, ⟨default, .noOp⟩⟩,
      .snapshot 1 1 [1]] ∧
    ¬ InOrder 0 (s.nodes "c").stateMachine := by
  obtain ⟨s, run, items⟩ : ∃ s, Cluster.run threePeers (deliverBoth ++
        [.installSnapshotHandler 0, .snapshotTake "c", .snapshotSend "c" true]) = some s ∧
      (s.nodes "c").stateMachine = [.snapshot 1 1 [1], .command ⟨2, 1, ⟨default, .noOp⟩⟩,
        .snapshot 1 1 [1]] := by
    refine ⟨_, (Option.some_get (by decide +kernel)).symm, by decide +kernel⟩
  refine ⟨s, run, items, ?_⟩
  rw [items]
  simp [InOrder, Item.After, Item.index]

end Zdb.Raft
