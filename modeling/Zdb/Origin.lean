import Zdb.LogShape
import Zdb.Messages

/-! Where entries come from. Whatever a node stores, sends or gives to its state
machine is an entry that some leader has appended in `start`; nothing else makes
entries, whether snapshots, restarts or repeated messages occur or not. -/

namespace Zdb.Raft
open LabelledRun

theorem mem_of_atIter {entries : List LogEntry} {i k : ℕ} {e : LogEntry}
    (h : Log.atIter entries i = some (k, e)) : e ∈ entries := by
  induction entries generalizing k with
  | nil => simp [Log.atIter] at h
  | cons first rest ih =>
    rw [Log.atIter] at h
    split_ifs at h with here
    · cases h
      exact List.mem_cons_self
    · obtain ⟨found, later, same⟩ := Option.map_eq_some_iff.mp h
      cases same
      exact List.mem_cons_of_mem _ (ih later)

theorem Log.mem_of_atIndex {log : Log} {i : ℕ} {e : LogEntry} (h : log.atIndex i = some e) :
    e ∈ log.entries := by
  obtain ⟨⟨k, _⟩, found, rfl⟩ := Option.map_eq_some_iff.mp h
  exact mem_of_atIter found

theorem Log.mem_of_suffix {log : Log} {i : ℕ} {e : LogEntry} (h : e ∈ (log.suffix i).entries) :
    e ∈ log.entries := by
  rw [Log.suffix] at h
  split at h
  · cases h
  · exact List.mem_of_mem_drop h

theorem Log.mem_of_trimPrefix {log : Log} {i t : ℕ} {e : LogEntry}
    (h : e ∈ (log.trimPrefix i t).entries) : e ∈ log.entries := by
  simp only [Log.trimPrefix] at h
  split at h
  · cases h
  · exact List.mem_of_mem_drop h

structure Carries (P : LogEntry → Prop) (n : Node) : Prop where
  log : ∀ e ∈ n.mainLog.entries, P e
  sending : ∀ caller i c, n.applyThread = some (caller, .sending i c) → P c
  channel : ∀ e, .command e ∈ n.stateMachine → P e

structure Carried (P : LogEntry → Prop) (s : Cluster) : Prop where
  node : ∀ v, Carries P (s.nodes v)
  sent : ∀ arg, Prepared s arg → ∀ e ∈ arg.entries.entries, P e

namespace Carries
variable {P Q : LogEntry → Prop} {n n' : Node} {v : PeerId} {a : Action} {d : Delivery}

theorem mono (h : Carries P n) (weaker : ∀ e, P e → Q e) : Carries Q n where
  log e stored := weaker e (h.log e stored)
  sending caller i c at_ := weaker c (h.sending caller i c at_)
  channel e given := weaker e (h.channel e given)

theorem frame (h : Carries P n) (log : ∀ e ∈ n'.mainLog.entries, P e)
    (thread : n'.applyThread = n.applyThread) (channel : n'.stateMachine = n.stateMachine) :
    Carries P n' := by
  refine ⟨log, ?_, ?_⟩
  · rw [thread]
    exact h.sending
  · rw [channel]
    exact h.channel

theorem deliver {returns : Option ApplyCaller} (h : Carries P n)
    (delivers : Delivers v n a d returns) : Carries P { n with toDelivery := d } := by
  cases delivers with
  | enterReturn => exact ⟨h.log, by simp, h.channel⟩
  | enterSend k caller c free queued behind clear present =>
    refine ⟨h.log, fun caller' i c' at_ => ?_, h.channel⟩
    cases at_
    exact h.log c (Log.mem_of_atIndex present)
  | sendOk caller i c at_ =>
    refine ⟨h.log, by simp, fun e given => ?_⟩
    rcases List.mem_append.mp given with old | new
    · exact h.channel e old
    · cases List.mem_singleton.mp new
      exact h.sending caller i c at_
  | sendFail => exact ⟨h.log, by simp, h.channel⟩
  | relockReturn => exact ⟨h.log, by simp, h.channel⟩
  | relockSend caller i c at_ behind present =>
    refine ⟨h.log, fun caller' i' c' at' => ?_, h.channel⟩
    cases at'
    exact h.log c (Log.mem_of_atIndex present)
  | handOver index term data =>
    refine ⟨h.log, h.sending, fun e given => ?_⟩
    rcases List.mem_append.mp given with old | new
    · exact h.channel e old
    · cases List.mem_singleton.mp new
  | _ => exact ⟨h.log, h.sending, h.channel⟩

end Carries

section Step
variable {P : LogEntry → Prop} {m : Membership} {s : Cluster} {v : PeerId} {n' : Node} {a : Action}
  {out : Output}

theorem Carried.node_step (inv : Carried P s)
    (move : Move m.peers s.network v (s.nodes v) a n' out)
    (new : ∀ command, a = .start v command →
      P ⟨(s.nodes v).mainLog.lastIndex + 1, (s.nodes v).currentTerm, command⟩ ∨
        n'.mainLog = (s.nodes v).mainLog) : Carries P n' := by
  have mine := inv.node v
  cases move with
  | accept k call control d out found here current clear accepts success follows =>
    have log : ∀ e ∈ ((s.nodes v).mainLog.merge call.arg.entries).entries, P e := by
      intro e stored
      rcases mem_mergeEntries stored with own | sent
      · exact mine.log e own
      · exact inv.sent _ (Or.inl ⟨call, List.mem_of_getElem? found, rfl⟩) e sent
    cases follows <;> exact mine.frame log rfl rfl
  | install k call =>
    exact mine.frame (fun e kept => mine.log e (Log.mem_of_trimPrefix kept)) rfl rfl
  | compact => exact mine.frame (fun e kept => mine.log e (Log.mem_of_trimPrefix kept)) rfl rfl
  | propose command =>
    refine mine.frame (fun e stored => ?_) rfl rfl
    rcases List.mem_append.mp stored with own | fresh
    · exact mine.log e own
    · rw [List.mem_singleton.mp fresh]
      rcases new command rfl with meets | same
      · exact meets
      · have longer := congrArg (fun log => log.entries.length) same
        simp [Log.append] at longer
  | reboot => exact ⟨mine.log, by simp, by simp⟩
  | deliver a d delivers => exact mine.deliver delivers
  | deliverReturn a d caller delivers =>
    have moved := mine.deliver delivers
    cases caller <;> exact moved.frame moved.log rfl rfl
  | _ => exact mine.frame mine.log rfl rfl

theorem Carried.step (inv : Carried P s)
    (move : Move m.peers s.network v (s.nodes v) a n' out)
    (new : ∀ command, a = .start v command →
      P ⟨(s.nodes v).mainLog.lastIndex + 1, (s.nodes v).currentTerm, command⟩ ∨
        n'.mainLog = (s.nodes v).mainLog) : Carried P (s.update v n' out) := by
  refine ⟨Cluster.forall_nodes_update (P := fun _ n => Carries P n) (inv.node_step move new)
    fun u _ => inv.node u, fun arg ready e sent => ?_⟩
  rcases ready.of_update move with old | ⟨peer, builds⟩
  · exact inv.sent arg old e sent
  · obtain ⟨_, t, _, rfl, _⟩ := builds.built
    exact (inv.node v).log e (Log.mem_of_suffix sent)

theorem Carried.mono {Q : LogEntry → Prop} (inv : Carried P s) (weaker : ∀ e, P e → Q e) :
    Carried Q s :=
  ⟨fun v => (inv.node v).mono weaker, fun arg ready e sent => weaker e (inv.sent arg ready e sent)⟩

theorem Carried.initial (P : LogEntry → Prop) : Carried P Cluster.initial := by
  refine ⟨fun v => ?_, ?_⟩
  · constructor <;>
      simp [Cluster.initial, Node.boot, Node.readPersist, Log.clear, Log.merge, Log.setLastIncluded]
  · rintro arg (⟨c, sent, _⟩ | ⟨v, p, call, next, at_⟩)
    · simp [Cluster.initial] at sent
    · simp [Cluster.initial, Node.boot, Node.readPersist] at at_

end Step

end Zdb.Raft
