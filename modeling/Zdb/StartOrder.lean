import Mathlib.Data.List.Sublists
import Zdb.StateMachineSafety

/-! The order in which leaders have started commands, beside the cluster. No log
ever holds two entries the other way round: entries reach a log by `start` at its
end, or as an initial part of what a leader has had. Of a snapshot-free run a growing
list `decided` keeps what any state machine has been given so far. -/

namespace Zdb.Raft
open LabelledRun LogReplication
open scoped List

section StartOrder
variable {m : Membership} {s : Cluster} {h : History} {g : Protocol} {v : PeerId} {n' : Node}
  {a : Action} {out : Output}

theorem Replicated.newLog_cases (rep : Replicated m s h g) (synced : ∀ u, (s.nodes u).Synced)
    (ok : keepsConfirmed s a = true) (move : Move m.peers s.network v (s.nodes v) a n' out) :
    h.newLog v n' out = h.log v ∨ (∃ T k, h.newLog v n' out = (h.led T).take k) ∨
      ∃ command e, a = .start v command ∧
        e = ⟨(s.nodes v).mainLog.lastIndex + 1, (s.nodes v).currentTerm, command⟩ ∧
        n'.mainLog.entries = (s.nodes v).mainLog.entries ++ [e] ∧
        h.newLog v n' out = h.log v ++ [e] := by
  obtain ⟨votes, msgs, logs, ref⟩ := rep
  rw [keepsConfirmed, Bool.and_eq_true] at ok
  have r := logs.node v
  have frame : _ → _ → _ → h.newLog v n' out = h.log v := History.newLog_frame r
  have merged : ∀ T k, Merged (h.log v) ((h.led T).take k) (h.newLog v n' out) →
      h.newLog v n' out = h.log v ∨ ∃ T k, h.newLog v n' out = (h.led T).take k := by
    rintro T k (⟨_, own⟩ | ⟨_, sent⟩)
    · exact Or.inl own
    · exact Or.inr ⟨T, k, sent⟩
  cases move with
  | quiet a control t r' out idles hears rejects =>
    exact Or.inl (frame rfl rfl (History.base_rejects rejects))
  | adopt a T control t r' out later idles hears rejects =>
    exact Or.inl (frame rfl rfl (History.base_rejects rejects))
  | accept k call control d out found here current clear accepts success follows =>
    subst here
    have result := ref.accept_merged msgs logs (List.mem_of_getElem? found) (synced _) accepts
      (mergesInPlace_accept ok.1 found success)
    cases follows <;> exact (merged _ _ result).imp id Or.inl
  | install k call control found here current clear success =>
    subst here
    have result := ref.install_merged msgs logs (List.mem_of_getElem? found)
      (installsForward_install ok.2 found success)
    exact (merged _ _ result).imp id Or.inl
  | propose command control leads clear =>
    exact Or.inr (Or.inr ⟨command, _, rfl, rfl, rfl, History.newLog_append r rfl rfl⟩)
  | compact index data e control clear above within present =>
    exact Or.inl (History.newLog_compact r rfl rfl above)
  | deliverReturn a d caller delivers =>
    cases caller <;> exact Or.inl (frame rfl rfl rfl)
  | _ => exact Or.inl (frame rfl rfl rfl)

/-- Every log lists its entries in the order in which they were started. -/
structure StartOrdered (h : History) (started : List LogEntry) : Prop where
  log : ∀ v, h.log v <+ started
  led : ∀ T, h.led T <+ started

theorem StartOrdered.initial : StartOrdered {} [] := ⟨fun _ => .slnil, fun _ => .slnil⟩

theorem StartOrdered.mono {started started' : List LogEntry} (inOrder : StartOrdered h started)
    (longer : started <+ started') : StartOrdered h started' :=
  ⟨fun v => (inOrder.log v).trans longer, fun T => (inOrder.led T).trans longer⟩

theorem StartOrdered.step {started started' : List LogEntry} (inOrder : StartOrdered h started)
    (rep : Replicated m s h g) (synced : ∀ u, (s.nodes u).Synced)
    (ok : keepsConfirmed s a = true) (move : Move m.peers s.network v (s.nodes v) a n' out)
    (longer : started <+ started')
    (new : ∀ command e, a = .start v command →
      e = ⟨(s.nodes v).mainLog.lastIndex + 1, (s.nodes v).currentTerm, command⟩ →
      n'.mainLog.entries = (s.nodes v).mainLog.entries ++ [e] → started ++ [e] <+ started') :
    StartOrdered (h.record v n' out) started' := by
  have own : h.newLog v n' out <+ started' := by
    rcases rep.newLog_cases synced ok move with
      same | ⟨T, k, sent⟩ | ⟨command, e, called, made, longer', grown⟩
    · rw [same]
      exact (inOrder.log v).trans longer
    · rw [sent]
      exact (List.take_sublist k _).trans ((inOrder.led T).trans longer)
    · rw [grown]
      exact ((inOrder.log v).append_right _).trans (new command e called made longer')
  constructor
  · intro w
    by_cases here : w = v
    · rw [here, History.record_log_self]
      exact own
    · rw [History.record_log_ne here]
      exact (inOrder.log w).trans longer
  · intro T
    by_cases leads : n'.role = .leader ∧ T = n'.currentTerm
    · rw [leads.2, History.record_led_of_leader leads.1]
      exact own
    · rw [History.record_led_ne (by tauto)]
      exact (inOrder.led T).trans longer

end StartOrder

structure Deciding (m : Membership) (s : Cluster) (h : History) (g : Protocol)
    (decided : List LogEntry) : Prop where
  free : SnapshotFree m s
  rep : Replicated m s h g
  serving : Serving m s g
  settled : ∃ T, Settled LogEntry.term (quorums m) g T decided
  channel : ∀ v, (s.nodes v).stateMachine <+: decided.map .command

namespace Deciding
variable {m : Membership} {s t : Cluster} {h : History} {g : Protocol} {decided : List LogEntry}
  {a : Action}

theorem initial (m : Membership) : Deciding m Cluster.initial {} State.initial [] where
  free := SnapshotFree.initial m
  rep := Replicated.initial m
  serving := Serving.initial m
  settled := ⟨0, Settled.nil 0⟩
  channel v := by simp [Cluster.initial, Node.boot, Node.readPersist]

theorem sublist (dec : Deciding m s h g decided) {started : List LogEntry}
    (inOrder : StartOrdered h started) : decided <+ started := by
  obtain ⟨T, rfl | ⟨U, i, _, _, held⟩⟩ := dec.settled
  · exact List.nil_sublist started
  · rw [dec.rep.refines.led] at held
    exact held.sublist.trans ((List.take_sublist i _).trans (inOrder.led U))

theorem step (dec : Deciding m s h g decided) (calm : a.isSnapshot = false)
    (step : Cluster.step m s a = some t) :
    ∃ v n out g' decided', s.act m.peers a = some (v, n, out) ∧ t = s.update v n out ∧
      Move m.peers s.network v (s.nodes v) a n out ∧
      Deciding m t (h.record v n out) g' decided' ∧ decided <+: decided' := by
  obtain ⟨free, rep, serving, ⟨T, settled⟩, channel⟩ := dec
  obtain ⟨v, n, out, found, member, alive, rfl⟩ := Cluster.step_eq_some step
  have move := Cluster.act_move free.synced found
  have free' := free.step calm step
  obtain ⟨g', moved, rep'⟩ := rep.step free.synced (Cluster.act_synced free.synced found)
    (free.keeps a) member move
  have serving' := serving.step rep free calm member move moved rep'
  replace settled := settled.mono (moved.later rep.refines.inv) rep.refines.inv
  have given := serving'.given v
  have fixed := given.fixed (serving'.ordered v) (serving'.safe.node v) (free'.node v).clear
  have taken := List.prefix_iff_eq_take.mp given.channel
  rw [← List.map_take] at taken
  -- The node that has moved may by now have been given more than any other.
  obtain ⟨decided', more, settled', own⟩ : ∃ decided', decided <+: decided' ∧
      (∃ T, Settled LogEntry.term (quorums m) g' T decided') ∧
      ((s.update v n out).nodes v).stateMachine <+: decided'.map .command := by
    rcases settled.comparable rep'.refines.inv fixed.2 with short | long
    · exact ⟨_, short, ⟨_, fixed.2⟩, by rw [← taken]⟩
    · exact ⟨decided, List.prefix_rfl, ⟨_, settled⟩, by rw [taken]; exact long.map _⟩
  refine ⟨v, n, out, g', decided', found, rfl, move, ⟨free', rep', serving', settled', ?_⟩, more⟩
  replace own : n.stateMachine <+: decided'.map .command := by simpa using own
  exact Cluster.forall_nodes_update (P := fun _ n => n.stateMachine <+: decided'.map .command) own
    fun u _ => (channel u).trans (more.map _)

end Deciding

end Zdb.Raft
