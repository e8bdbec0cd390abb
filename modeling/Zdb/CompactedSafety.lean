import Zdb.Commitment
import Zdb.Delivery
import Zdb.Durability
import Zdb.KVStore

/-! State machine safety and leader completeness with log compaction. A snapshot
is the saved state of an application that has consumed the entries up to its
index; it travels from the application through `snapshot`, the persister,
InstallSnapshot, another persister and `asyncInstallSnapshot` into another
application. What an application has been given is then no longer a list of the
first entries, but the state it has reached is still the one the committed
entries lead to. -/

namespace Zdb.Raft
open TermLog LabelledRun LogReplication

/-- What reads a node's channel: it applies commands, takes snapshots of its state and is
given the data of others. -/
structure Application (σ : Type) where
  init : σ
  applyCommand : σ → LogEntry → σ
  snapshot : σ → Bytes
  installSnapshot : σ → Bytes → σ

namespace Application
variable {σ : Type} (app : Application σ)

def consume (state : σ) : Item → σ
  | .command e => app.applyCommand state e
  | .snapshot _ _ data => app.installSnapshot state data

def state (items : List Item) : σ := items.foldl app.consume app.init

def replay (log : List LogEntry) : σ := log.foldl app.applyCommand app.init

/-- The data of a snapshot brings back the state it was taken of, whatever was there. -/
def Restores : Prop :=
  ∀ before state, app.installSnapshot before (app.snapshot state) = state

/-- Snapshots are taken of the state after the deliveries up to their index. The
application may be behind what lies in its channel. -/
def Saves (s : Cluster) : Action → Prop
  | .snapshot v index data => ∃ items ∈ (s.nodes v).stateMachine.inits,
      reached 0 items = index ∧ data = app.snapshot (app.state items)
  | _ => True

instance Saves.decidable (s : Cluster) (a : Action) : Decidable (app.Saves s a) := by
  cases a <;> unfold Saves <;> infer_instance

theorem state_snoc (items : List Item) (item : Item) :
    app.state (items ++ [item]) = app.consume (app.state items) item := by
  simp [state]

theorem replay_take_succ {log : List LogEntry} {i : ℕ} {e : LogEntry} (found : log[i]? = some e) :
    app.replay (log.take (i + 1)) = app.applyCommand (app.replay (log.take i)) e := by
  simp [replay, List.take_add_one, found]

end Application

theorem InOrder.reached_le {items more : List Item} {last : ℕ} (h : InOrder last (items ++ more)) :
    reached last items ≤ reached last (items ++ more) := by
  induction items generalizing last with
  | nil =>
    induction more generalizing last with
    | nil => exact le_rfl
    | cons item rest ih =>
      have next : last ≤ item.index := by
        have after := h.1
        cases item with
        | command e => exact (Nat.le_succ last).trans_eq after.symm
        | snapshot => exact after
      exact next.trans (ih h.2)
  | cons item items ih => exact ih h.2

theorem Move.sendSnapshot_raised {peers : List PeerId} {net : Network} {v : PeerId} {n n' : Node}
    {a : Action} {out : Output} (move : Move peers net v n a n' out) (p : PeerId)
    (raised : (n'.appendEntriesThread p).sendSnapshot = true) :
    (n.appendEntriesThread p).sendSnapshot = true ∨ n.nextIndex p < n.mainLog.firstIndex := by
  have idle : ∀ t, Idles n.appendEntriesThread t → (t p).sendSnapshot = true →
      (n.appendEntriesThread p).sendSnapshot = true := by
    intro t idles raised
    rcases idles p with same | waits
    · rwa [same] at raised
    · rwa [waits] at raised
  have point : ∀ peer x, (Function.update n.appendEntriesThread peer
      { n.appendEntriesThread peer with point := x } p).sendSnapshot = true →
      (n.appendEntriesThread p).sendSnapshot = true := by
    intro peer x raised
    by_cases same : p = peer
    · subst same
      simpa using raised
    · simpa [same] using raised
  cases move with
  | quiet a control t r out idles => exact Or.inl (idle t idles raised)
  | adopt a T control t r out later idles => exact Or.inl (idle t idles raised)
  | accept k call control d out found here current clear accepts success follows =>
    exact Or.inl raised
  | sendAppend peer => exact Or.inl (point peer _ raised)
  | sendInstall peer t next call other leads at_ next_eq needed =>
    by_cases same : p = peer
    · subst same
      exact needed
    · left
      simpa [Node.setPoint, Node.setSendSnapshot, same] using raised
  | installed peer =>
    left
    by_cases same : p = peer
    · subst same
      simp at raised
    · simpa [same] using raised
  | acknowledged peer => exact Or.inl (point peer _ raised)
  | commit peer => exact Or.inl (point peer _ raised)
  | backUp peer => exact Or.inl (point peer _ raised)
  | reboot => exact Or.inl (by simp at raised)
  | deliverReturn a d caller =>
    cases caller with
    | handler => exact Or.inl raised
    | leader peer => exact Or.inl (point peer _ raised)
  | _ => exact Or.inl raised

theorem Move.installSnapshot_data {peers : List PeerId} {net : Network} {v : PeerId} {n n' : Node}
    {a : Action} {out : Output} (move : Move peers net v n a n' out)
    {c : Call InstallSnapshotArg} (sent : out = .installSnapshot c) :
    c.arg.data = n.persister.snapshotData := by
  cases move with
  | sendInstall peer t next call other leads at_ next_eq needed term built =>
    cases sent
    rw [built]
  | quiet a control t r out idles hears rejects => subst sent; exact rejects.elim
  | adopt a T control t r out later idles hears rejects => subst sent; exact rejects.elim
  | accept k call control d out found here current clear accepts success follows =>
    cases follows <;> cases sent
  | deliverReturn a d caller delivers => cases caller <;> cases sent
  | _ => cases sent

def Flagged (n : Node) : Prop :=
  ∀ p, (n.appendEntriesThread p).sendSnapshot = true → 0 < n.lastIncludedIndex

section Flagged
variable {m : Membership} {s : Cluster} {h : History} {g : Protocol} {v : PeerId} {n' : Node}
  {a : Action} {out : Output}

theorem Replicated.point_pos (rep : Replicated m s h g) {p : PeerId}
    (behind : (s.nodes v).nextIndex p < (s.nodes v).mainLog.firstIndex) :
    0 < (s.nodes v).lastIncludedIndex := by
  have r := rep.node v
  have first := r.contiguous.firstIndex
  have pos := (rep.msgs.node v).next_pos p
  rw [r.point] at first
  split_ifs at first <;> omega

theorem Flagged.step (flagged : Flagged (s.nodes v)) (rep : Replicated m s h g)
    (ok : installsForward s a = true) (move : Move m.peers s.network v (s.nodes v) a n' out) :
    Flagged n' := by
  intro p raised
  refine lt_of_lt_of_le ?_ (move.point_le ok)
  rcases move.sendSnapshot_raised p raised with old | behind
  · exact flagged p old
  · exact rep.point_pos behind

end Flagged

structure Imaged {σ : Type} (app : Application σ) (g : Protocol) (v : PeerId) (n : Node) :
    Prop where
  data : (n.snapshotData = [] ∧ n.lastIncludedIndex = 0) ∨
    n.snapshotData = app.snapshot (app.replay ((g.log v).take n.lastIncludedIndex))
  pending : n.pendingSnapshot = true →
    n.snapshotData = app.snapshot (app.replay ((g.log v).take n.lastIncludedIndex))
  taken : ∀ i t data, n.snapshotThread = .sending i t data → data = n.snapshotData
  given : ∀ items, items <+: n.stateMachine →
    app.state items = app.replay ((g.log v).take (reached 0 items))
  sending : ∀ caller i c, n.applyThread = some (caller, .sending i c) →
    (g.log v)[i - 1]? = some c

theorem Delivering.fixed {m : Membership} {g : Protocol} {v : PeerId} {n : Node}
    (del : Delivering n) (com : Committing m g v n) : Fixed m g v (reached 0 n.stateMachine) := by
  cases at_ : n.applyThread with
  | none =>
    cases hand : n.snapshotThread with
    | sent i t =>
      obtain ⟨_, index, _, here⟩ := del.given i t hand
      rw [here, index]
      exact com.point
    | waiting =>
      rw [del.idle at_ (by simp [hand])]
      exact com.applied
    | sending i t data =>
      rw [del.idle at_ (by simp [hand])]
      exact com.applied
  | some x =>
    obtain ⟨caller, point⟩ := x
    cases point with
    | sending i c =>
      rw [(del.sending caller i c at_).2.2]
      exact com.applied
    | sent i =>
      rw [(del.sent caller i at_).2]
      exact com.sent caller i at_

theorem Delivering.reached_le {n : Node} (del : Delivering n) {items : List Item}
    (part : items <+: n.stateMachine) : reached 0 items ≤ reached 0 n.stateMachine := by
  obtain ⟨more, whole⟩ := part
  have ordered := del.ordered
  rw [← whole] at ordered ⊢
  exact ordered.reached_le

namespace Imaged
variable {σ : Type} {app : Application σ} {m : Membership} {g g' : Protocol} {v : PeerId}
  {n n' : Node} {a : Action}

theorem step (im : Imaged app g v n) (del : Delivering n) (com : Committing m g v n)
    (step : Step LogEntry.term (quorums m) g g') (inv : Inv LogEntry.term (quorums m) g) :
    Imaged app g' v n where
  data := by
    rw [(com.point.step step inv).2]
    exact im.data
  pending := by
    rw [(com.point.step step inv).2]
    exact im.pending
  taken := im.taken
  given items part := by
    rw [(((del.fixed com).le (del.reached_le part)).step step inv).2]
    exact im.given items part
  sending caller i c at_ := by
    obtain ⟨rfl, _, _⟩ := del.sending caller i c at_
    have same := ((com.sending caller _ c at_).step step inv).2
    have before := List.getElem?_take_of_succ (l := g.log v) (i := n.lastApplied)
    have after := List.getElem?_take_of_succ (l := g'.log v) (i := n.lastApplied)
    rw [Nat.add_sub_cancel, ← after, same, before]
    exact im.sending caller _ c at_

theorem exact_data (im : Imaged app g v n) (pos : 0 < n.lastIncludedIndex) :
    n.snapshotData = app.snapshot (app.replay ((g.log v).take n.lastIncludedIndex)) := by
  rcases im.data with ⟨_, none⟩ | exact_
  · omega
  · exact exact_

theorem frame (im : Imaged app g v n) (data : n'.snapshotData = n.snapshotData)
    (point : n'.lastIncludedIndex = n.lastIncludedIndex)
    (pending : n'.pendingSnapshot = n.pendingSnapshot)
    (hand : n'.snapshotThread = n.snapshotThread) (channel : n'.stateMachine = n.stateMachine)
    (thread : n'.applyThread = n.applyThread) : Imaged app g v n' := by
  constructor <;> simp only [data, point, pending, hand, channel, thread]
  · exact im.data
  · exact im.pending
  · exact im.taken
  · exact im.given
  · exact im.sending

theorem given_snoc (im : Imaged app g v n) {item : Item}
    (last : app.consume (app.replay ((g.log v).take (reached 0 n.stateMachine))) item =
      app.replay ((g.log v).take item.index)) (items : List Item)
    (part : items <+: n.stateMachine ++ [item]) :
    app.state items = app.replay ((g.log v).take (reached 0 items)) := by
  rcases List.prefix_concat_iff.mp part with rfl | old
  · rw [app.state_snoc, im.given _ (List.prefix_refl _), reached_snoc, last]
  · exact im.given items old

theorem deliver {d : Delivery} {returns : Option ApplyCaller} (im : Imaged app g v n)
    (restores : app.Restores) (del : Delivering n)
    (stored : ∀ i c, n.mainLog.atIndex i = some c → (g.log v)[i - 1]? = some c)
    (delivers : Delivers v n a d returns) : Imaged app g v { n with toDelivery := d } := by
  obtain ⟨data, pending, taken, given, sending⟩ := im
  cases delivers with
  | enterReturn => exact ⟨data, pending, taken, given, by simp⟩
  | enterSend k caller c free queued behind clear present =>
    refine ⟨data, pending, taken, given, ?_⟩
    intro caller' i c' at_
    cases at_
    exact stored _ _ present
  | sendOk caller i c at_ =>
    obtain ⟨next, index, here⟩ := del.sending caller i c at_
    have place := sending caller i c at_
    refine ⟨data, pending, taken, given_snoc ⟨data, pending, taken, given, sending⟩ ?_, by simp⟩
    rw [next, Nat.add_sub_cancel] at place
    rw [Item.index, index, here, next, app.replay_take_succ place]
    rfl
  | sendFail => exact ⟨data, pending, taken, given, by simp⟩
  | relockReturn => exact ⟨data, pending, taken, given, by simp⟩
  | relockSend caller i c at_ behind present =>
    refine ⟨data, pending, taken, given, ?_⟩
    intro caller' i' c' at'
    cases at'
    exact stored _ _ present
  | take at_ waiting =>
    refine ⟨data, pending, ?_, given, sending⟩
    intro i t data' at'
    cases at'
    rfl
  | handOver index term image at_ =>
    obtain ⟨waiting, rfl, rfl⟩ := del.taken index term image at_
    refine ⟨data, pending, by simp,
      given_snoc ⟨data, pending, taken, given, sending⟩ ?_, sending⟩
    rw [Application.consume, taken _ _ image at_, pending waiting, restores]
    rfl
  | giveUp => exact ⟨data, pending, by simp, given, sending⟩
  | installed => exact ⟨data, by simp, by simp, given, sending⟩
  | overtaken => exact ⟨data, pending, by simp, given, sending⟩

end Imaged

structure Compacting {σ : Type} (app : Application σ) (m : Membership) (s : Cluster)
    (g : Protocol) : Prop where
  restores : app.Restores
  safe : CommitSafe m s g
  ordered : ∀ v, Delivering (s.nodes v)
  flagged : ∀ v, Flagged (s.nodes v)
  node : ∀ v, Imaged app g v (s.nodes v)
  calls : ∀ c ∈ s.network.installCalls, c.arg.data =
    app.snapshot (app.replay ((g.leaderLog c.arg.term).take c.arg.lastIncludedIndex))

structure Orderly {σ : Type} (app : Application σ) (s : Cluster) (a : Action) : Prop where
  commits : commitsSafely s a = true
  installs : installsInOrder s a = true
  saves : app.Saves s a

instance Orderly.decidable {σ : Type} (app : Application σ) (s : Cluster) (a : Action) :
    Decidable (Orderly app s a) :=
  decidable_of_iff (commitsSafely s a = true ∧ installsInOrder s a = true ∧ app.Saves s a)
    ⟨fun ⟨commits, installs, saves⟩ => ⟨commits, installs, saves⟩,
      fun ⟨commits, installs, saves⟩ => ⟨commits, installs, saves⟩⟩

theorem keepsConfirmed_iff {s : Cluster} {a : Action} : keepsConfirmed s a = true ↔
    mergesInPlace s a = true ∧ installsForward s a = true := by
  simp [keepsConfirmed]

namespace Compacting
variable {σ : Type} {app : Application σ} {m : Membership} {s : Cluster} {h : History}
  {g g' : Protocol} {v : PeerId} {n' : Node} {a : Action} {out : Output}

theorem installed_data (comp : Compacting app m s g) (rep : Replicated m s h g)
    (rep' : Replicated m (s.update v n' out) (h.record v n' out) g')
    {call : Call InstallSnapshotArg} (sent : call ∈ s.network.installCalls)
    (answer : out = .installSnapshotAnswer ⟨call, ⟨true, call.arg.term⟩⟩)
    (point : n'.lastIncludedIndex = call.arg.lastIncludedIndex) :
    call.arg.data =
      app.snapshot (app.replay ((g'.log v).take call.arg.lastIncludedIndex)) := by
  subst answer
  obtain ⟨led, long, _⟩ := comp.safe.install call sent
  have held : (g.leaderLog call.arg.term).take call.arg.lastIncludedIndex <+: g'.log v := by
    rw [rep.refines.led, rep'.refines.log, History.record_log_self, History.newLog, point]
    exact List.prefix_append _ _
  have same := List.prefix_iff_eq_take.mp held
  rw [List.length_take_of_le long] at same
  rw [comp.calls call sent, same]

theorem node_step (comp : Compacting app m s g) (rep : Replicated m s h g)
    (rep' : Replicated m (s.update v n' out) (h.record v n' out) g')
    (step : Step LogEntry.term (quorums m) g g') (ok : Orderly app s a)
    (move : Move m.peers s.network v (s.nodes v) a n' out) : Imaged app g' v n' := by
  have im := (comp.node v).step (comp.ordered v) (comp.safe.node v) step rep.refines.inv
  have r := rep'.node v
  rw [Cluster.update_nodes_self] at r
  -- what `snapshot` is called with
  have image : ∀ index data, a = .snapshot v index data →
      data = app.snapshot (app.replay ((g'.log v).take index)) := by
    rintro index data rfl
    obtain ⟨items, part, rfl, rfl⟩ := ok.saves
    rw [im.given items (List.mem_inits _ _ |>.mp part)]
  cases move with
  | accept k call control d out found here current clear accepts success follows =>
    cases follows <;> exact im.frame rfl rfl rfl rfl rfl rfl
  | install k call control found here current clear success =>
    have data := comp.installed_data rep rep' (List.mem_of_getElem? found) rfl rfl
    have waits := (comp.ordered v).snapshotThread_waiting clear
    exact ⟨Or.inr data, fun _ => data, by simp [waits], im.given, im.sending⟩
  | refresh data control clear =>
    have waits := (comp.ordered v).snapshotThread_waiting clear
    have same := image _ data rfl
    exact ⟨Or.inr same, fun _ => same, by simp [waits], im.given, im.sending⟩
  | compact index data e control clear =>
    have waits := (comp.ordered v).snapshotThread_waiting clear
    have same := image index data rfl
    exact ⟨Or.inr same, fun _ => same, by simp [waits], im.given, im.sending⟩
  | reboot a T control =>
    refine ⟨im.data, fun pending => ?_, by simp, ?_, by simp⟩
    · rcases im.data with ⟨none, _⟩ | same
      · simp [none] at pending
      · exact same
    · intro items part
      obtain rfl := List.prefix_nil.mp part
      rfl
  | deliver a d delivers =>
    exact im.deliver comp.restores (comp.ordered v) (fun _ _ at_ => (r.atIndex_some at_).2.2.1)
      delivers
  | deliverReturn a d caller delivers =>
    have stored : ∀ i c, (s.nodes v).mainLog.atIndex i = some c →
        (g'.log v)[i - 1]? = some c := by
      intro i c at_
      cases caller <;> exact (r.atIndex_some at_).2.2.1
    have moved := im.deliver comp.restores (comp.ordered v) stored delivers
    cases caller <;> exact moved.frame rfl rfl rfl rfl rfl rfl
  | _ => exact im.frame rfl rfl rfl rfl rfl rfl

theorem sent_data (comp : Compacting app m s g) (rep : Replicated m s h g)
    (synced : (s.nodes v).Synced) (move : Move m.peers s.network v (s.nodes v) a n' out)
    {c : Call InstallSnapshotArg} (sent : out = .installSnapshot c) : c.arg.data =
      app.snapshot (app.replay ((g.leaderLog c.arg.term).take c.arg.lastIncludedIndex)) := by
  obtain ⟨_, _, leads, _, term, index, _, needed⟩ := move.installSnapshot_out sent
  have pos : 0 < (s.nodes v).lastIncludedIndex := by
    rcases needed with flag | behind
    · exact comp.flagged v _ flag
    · exact rep.point_pos behind
  have saved : (s.nodes v).persister.snapshotData = (s.nodes v).snapshotData := by
    rw [synced.saved]
    rfl
  rw [move.installSnapshot_data sent, saved, (comp.node v).exact_data pos, term, index,
    (rep.leads leads).2]

theorem step (comp : Compacting app m s g) (rep : Replicated m s h g)
    (synced : (s.nodes v).Synced) (ok : Orderly app s a) (member : v ∈ m.peers)
    (move : Move m.peers s.network v (s.nodes v) a n' out)
    (step : Step LogEntry.term (quorums m) g g')
    (rep' : Replicated m (s.update v n' out) (h.record v n' out) g') :
    Compacting app m (s.update v n' out) g' := by
  have inv := rep.refines.inv
  have later := step.later inv
  have safe := comp.safe.step rep rep' step ok.commits member move
  have forward := (keepsConfirmed_iff.mp (commitsSafely_iff.mp ok.commits).1).2
  refine ⟨comp.restores, safe, ?_, ?_, ?_, fun c sent => ?_⟩
  · exact Cluster.forall_nodes_update (P := fun _ n => Delivering n)
      ((comp.ordered v).step ok.installs move) fun u _ => comp.ordered u
  · exact Cluster.forall_nodes_update (P := fun _ n => Flagged n)
      ((comp.flagged v).step rep forward move) fun u _ => comp.flagged u
  · exact Cluster.forall_nodes_update (comp.node_step rep rep' step ok move) fun u _ =>
      (comp.node u).step (comp.ordered u) (comp.safe.node u) step inv
  · have same : ∀ T k, Certified m g T k →
        (g'.leaderLog T).take k = (g.leaderLog T).take k :=
      fun T k cert => later.grows.take_eq cert.1 cert.2.1
    rcases Network.mem_installCalls_emit sent with old | new
    · rw [same _ _ (comp.safe.install c old)]
      exact comp.calls c old
    · obtain ⟨_, _, leads, _, term, index, _⟩ := move.installSnapshot_out new
      obtain ⟨led, log⟩ := rep.leads leads
      have point := (comp.safe.node v).point.1
      rw [later.grows.take_eq (by simp [term, led]) (by rw [term, index, log]; exact point)]
      exact comp.sent_data rep synced move new

theorem initial (restores : app.Restores) (m : Membership) :
    Compacting app m Cluster.initial State.initial where
  restores := restores
  safe := CommitSafe.initial m
  ordered _ := Delivering.initial
  flagged v := by simp [Flagged, Cluster.initial, Node.boot, Node.readPersist]
  node v := by
    refine ⟨Or.inl ⟨rfl, rfl⟩, ?_, ?_, fun items part => ?_, ?_⟩
    · simp [Cluster.initial, Node.boot, Node.readPersist]
    · simp [Cluster.initial, Node.boot, Node.readPersist]
    · obtain rfl := List.prefix_nil.mp part
      rfl
    · simp [Cluster.initial, Node.boot, Node.readPersist]
  calls := by simp [Cluster.initial]

theorem run {t : Cluster} {k : History} {actions : List Action} (comp : Compacting app m s g)
    (rep : Replicated m s h g) (synced : ∀ u, (s.nodes u).Synced)
    (good : Along (Cluster.step m) (Orderly app) s actions)
    (run : exec (observed (Cluster.step m) (History.recordStep m)) (s, h) actions =
      some (t, k)) : ∃ g', Replicated m t k g' ∧ Later g g' ∧ Compacting app m t g' :=
  Cluster.replicated_invariant (fun s a => Orderly app s a ∧ ∀ u, (s.nodes u).Synced)
    (fun _ _ ok => (commitsSafely_iff.mp ok.1.commits).1) (fun s _ g => Compacting app m s g)
    (fun _ _ _ _ v _ _ _ comp rep ok member move step rep' =>
      comp.step rep (ok.2 v) ok.1 member move step rep')
    synced rep comp (good.and_invariant (fun _ _ _ => Cluster.step_synced) synced) run

end Compacting

theorem Fixed.agree {m : Membership} {g g' : Protocol} {u v : PeerId} {k : ℕ}
    (fixed : Fixed m g u k) (fixed' : Fixed m g' v k) (past : Later g g')
    (inv : Inv LogEntry.term (quorums m) g) (inv' : Inv LogEntry.term (quorums m) g') :
    (g.log u).take k = (g'.log v).take k := by
  have length := List.length_take_of_le fixed.1
  have length' := List.length_take_of_le fixed'.1
  rcases (fixed.2.mono past inv).comparable inv' fixed'.2 with short | long
  · exact short.eq_of_length (length.trans length'.symm)
  · exact (long.eq_of_length (length'.trans length.symm)).symm

/-- Two applications whose snapshots bring back their state, and which have been given
everything up to the same index, through commands or snapshots, on whichever nodes and at
whichever moments, are in the same state. -/
theorem applications_agree {σ : Type} {app : Application σ} (restores : app.Restores)
    {m : Membership} {first rest : List Action} {s t : Cluster}
    (good : Along (Cluster.step m) (Orderly app) Cluster.initial (first ++ rest))
    (run : Cluster.run m first = some s) (later : exec (Cluster.step m) s rest = some t)
    {u v : PeerId} {items items' : List Item} (had : items <+: (s.nodes u).stateMachine)
    (has : items' <+: (t.nodes v).stateMachine) (same : reached 0 items = reached 0 items') :
    app.state items = app.state items' := by
  obtain ⟨h, runH⟩ := Cluster.exists_runHistory run
  obtain ⟨k, runK⟩ := Cluster.exists_history h later
  obtain ⟨g, rep, -, comp⟩ := (Compacting.initial restores m).run (Replicated.initial m)
    Cluster.initial_synced good.left runH
  obtain ⟨g', rep', past, comp'⟩ := comp.run rep (Cluster.run_synced run) (good.right run) runK
  have fixed := ((comp.ordered u).fixed (comp.safe.node u)).le ((comp.ordered u).reached_le had)
  have fixed' :=
    ((comp'.ordered v).fixed (comp'.safe.node v)).le ((comp'.ordered v).reached_le has)
  rw [← same] at fixed'
  rw [(comp.node u).given items had, (comp'.node v).given items' has, ← same,
    fixed.agree fixed' past rep.refines.inv rep'.refines.inv]

/-- The server of the Go tester, the one reader of a channel under which snapshots are
taken (`applierSnap`, `ingestSnap`): the state is `rs.logs` from 1 on, and `rs.lastApplied`
is its length, since any other index ends the tester. `view` is what the channel makes of
an entry; the encoder is `labgob`. -/
def rfsrv {γ : Type} (view : LogEntry → γ) (encode : List γ → Bytes) (decode : Bytes → List γ) :
    Application (List γ) where
  init := []
  applyCommand logs e := logs ++ [view e]
  snapshot := encode
  installSnapshot _ := decode

theorem rfsrv_restores {γ : Type} {view : LogEntry → γ} {encode : List γ → Bytes}
    {decode : Bytes → List γ} (back : ∀ logs, decode (encode logs) = logs) :
    (rfsrv view encode decode).Restores := fun _ => back

/-- `KVStateMachine`: its snapshot is empty, and installing one does nothing. -/
def kvStateMachine : Application KV.InMemoryKVStore where
  init := {}
  applyCommand store e := (KV.KVStateMachine.applyCommand store e.index e.command.payload).1
  snapshot _ := []
  installSnapshot store _ := store

theorem kvStateMachine_forgets : ¬ kvStateMachine.Restores := by
  intro restores
  have same := restores {} (KV.KVStateMachine.applyCommand {} 1 (.set ⟨[107]⟩ ⟨[118], 0⟩)).1
  exact absurd (congrArg KV.InMemoryKVStore.size same) (by decide)

def tally : Application (List Unit) :=
  rfsrv (fun _ => ()) (fun logs => logs.map fun _ => 1) fun data => data.map fun _ => ()

theorem tally_restores : tally.Restores :=
  rfsrv_restores fun logs => (List.map_map ..).trans (List.map_id logs)

theorem applications_agree_on_two : ∃ s, Cluster.run threePeers deliverBoth = some s ∧
    (s.nodes "a").stateMachine = [.command ⟨1, 1, ⟨default, .noOp⟩⟩,
      .command ⟨2, 1, ⟨default, .noOp⟩⟩] ∧
    (s.nodes "c").stateMachine = [.snapshot 1 1 [1], .command ⟨2, 1, ⟨default, .noOp⟩⟩] ∧
    tally.state (s.nodes "a").stateMachine = tally.state (s.nodes "c").stateMachine := by
  have good : Along (Cluster.step threePeers) (Orderly tally) Cluster.initial
      (deliverBoth ++ []) := by decide +kernel
  obtain ⟨s, run, itemsA, itemsC⟩ : ∃ s, Cluster.run threePeers deliverBoth = some s ∧
      (s.nodes "a").stateMachine = [.command ⟨1, 1, ⟨default, .noOp⟩⟩,
        .command ⟨2, 1, ⟨default, .noOp⟩⟩] ∧
      (s.nodes "c").stateMachine = [.snapshot 1 1 [1], .command ⟨2, 1, ⟨default, .noOp⟩⟩] := by
    refine ⟨_, (Option.some_get (by decide +kernel)).symm, by decide +kernel, by decide +kernel⟩
  exact ⟨s, run, itemsA, itemsC, applications_agree tally_restores good run rfl
    (List.prefix_refl _) (List.prefix_refl _) (by rw [itemsA, itemsC]; rfl)⟩

theorem CommitSafe.of_runs {m : Membership} {first rest : List Action} {s t : Cluster}
    (good : Along (Cluster.step m) (fun s a => commitsSafely s a = true) Cluster.initial
      (first ++ rest))
    (run : Cluster.run m first = some s) (later : exec (Cluster.step m) s rest = some t) :
    ∃ h g k g', Replicated m s h g ∧ CommitSafe m s g ∧ Replicated m t k g' ∧
      CommitSafe m t g' ∧ Later g g' := by
  obtain ⟨h, runH⟩ := Cluster.exists_runHistory run
  obtain ⟨k, runK⟩ := Cluster.exists_history h later
  obtain ⟨g, rep, -, safe⟩ := (CommitSafe.initial m).run (Replicated.initial m)
    Cluster.initial_synced good.left runH
  obtain ⟨g', rep', past, safe'⟩ := safe.run rep (Cluster.run_synced run) (good.right run) runK
  exact ⟨h, g, k, g', rep, safe, rep', safe', past⟩

theorem Represents.atIndex_of_take {log log' : List LogEntry} {n n' : Node} {i : ℕ} {e : LogEntry}
    (r : Represents log n) (r' : Represents log' n') (agree : log.take i <+: log')
    (stored : n.mainLog.atIndex i = some e) :
    i ≤ n'.lastIncludedIndex ∨ n'.mainLog.atIndex i = some e := by
  obtain ⟨above, inside, place, _⟩ := r.atIndex_some stored
  rcases Nat.lt_or_ge n'.lastIncludedIndex i with low | high
  · right
    rw [r'.atIndex, if_pos low, getElem?_of_take_initial agree (by omega) inside, place]
  · exact Or.inl high

/-- Whatever a node has committed, every leader of the same or a later term has,
in its log or behind its snapshot point. -/
theorem committed_held_by_later_leaders {m : Membership} {first rest : List Action} {s t : Cluster}
    (good : Along (Cluster.step m) (fun s a => commitsSafely s a = true) Cluster.initial
      (first ++ rest))
    (run : Cluster.run m first = some s) (later : exec (Cluster.step m) s rest = some t)
    {v u : PeerId} {i : ℕ} (committed : i ≤ (s.nodes v).commitIndex)
    (leads : (t.nodes u).role = .leader)
    (term : (s.nodes v).currentTerm ≤ (t.nodes u).currentTerm) :
    i ≤ (t.nodes u).mainLog.lastIndex ∧
      ∀ e, (s.nodes v).mainLog.atIndex i = some e →
        i ≤ (t.nodes u).lastIncludedIndex ∨ (t.nodes u).mainLog.atIndex i = some e := by
  obtain ⟨h, g, k, g', rep, safe, rep', -, past⟩ := CommitSafe.of_runs good run later
  obtain ⟨long, settled⟩ := (safe.node v).commit.le committed
  obtain ⟨led, log⟩ := rep'.leads leads
  rw [rep.refines.term] at settled
  have held := (settled.mono past rep.refines.inv).prefix_leaderLog rep'.refines.inv term
    (by simp [led])
  rw [log] at held
  refine ⟨?_, fun e stored => (rep.node v).atIndex_of_take (rep'.node u) held stored⟩
  rw [(rep'.node u).lastIndex, ← List.length_take_of_le long]
  exact held.length_le

theorem committed_held_by_later_leaders_compacted : ∃ s t,
    Cluster.run threePeers (winElection "a" "b" 0 ++ [.start "a" ⟨default, .noOp⟩] ++
      commitOne "a" "b" 0) = some s ∧
    exec (Cluster.step threePeers) s (.snapshot "a" 1 [1] :: winElection "b" "c" 1) = some t ∧
    1 ≤ (s.nodes "a").commitIndex ∧ (t.nodes "b").role = .leader ∧
    (t.nodes "a").mainLog.entries = [] ∧ 1 ≤ (t.nodes "b").mainLog.lastIndex ∧
    ∃ e, (s.nodes "a").mainLog.atIndex 1 = some e ∧ (1 ≤ (t.nodes "b").lastIncludedIndex ∨
      (t.nodes "b").mainLog.atIndex 1 = some e) := by
  have good : Along (Cluster.step threePeers) (fun s a => commitsSafely s a = true)
      Cluster.initial ((winElection "a" "b" 0 ++ [.start "a" ⟨default, .noOp⟩] ++
        commitOne "a" "b" 0) ++ .snapshot "a" 1 [1] :: winElection "b" "c" 1) := by
    decide +kernel
  obtain ⟨s, t, run, later, committed, leads, empty, term, stored⟩ : ∃ s t,
      Cluster.run threePeers (winElection "a" "b" 0 ++ [.start "a" ⟨default, .noOp⟩] ++
        commitOne "a" "b" 0) = some s ∧
      exec (Cluster.step threePeers) s (.snapshot "a" 1 [1] :: winElection "b" "c" 1) = some t ∧
      1 ≤ (s.nodes "a").commitIndex ∧ (t.nodes "b").role = .leader ∧
      (t.nodes "a").mainLog.entries = [] ∧
      (s.nodes "a").currentTerm ≤ (t.nodes "b").currentTerm ∧
      (s.nodes "a").mainLog.atIndex 1 = some ⟨1, 1, ⟨default, .noOp⟩⟩ := by
    refine ⟨_, _, (Option.some_get (by decide +kernel)).symm,
      (Option.some_get (by decide +kernel)).symm, by decide +kernel, by decide +kernel,
      by decide +kernel, by decide +kernel, by decide +kernel⟩
  have held := committed_held_by_later_leaders good run later committed leads term
  exact ⟨s, t, run, later, committed, leads, empty, held.1, _, stored, held.2 _ stored⟩

/-- Two nodes never commit different entries at one index. -/
theorem committed_entries_agree {m : Membership} {first rest : List Action} {s t : Cluster}
    (good : Along (Cluster.step m) (fun s a => commitsSafely s a = true) Cluster.initial
      (first ++ rest))
    (run : Cluster.run m first = some s) (later : exec (Cluster.step m) s rest = some t)
    {v u : PeerId} {i : ℕ} (committed : i ≤ (s.nodes v).commitIndex)
    (committed' : i ≤ (t.nodes u).commitIndex) {e e' : LogEntry}
    (stored : (s.nodes v).mainLog.atIndex i = some e)
    (stored' : (t.nodes u).mainLog.atIndex i = some e') : e = e' := by
  obtain ⟨h, g, k, g', rep, safe, rep', safe', past⟩ := CommitSafe.of_runs good run later
  have agree := ((safe.node v).commit.le committed).agree ((safe'.node u).commit.le committed')
    past rep.refines.inv rep'.refines.inv
  have held : (g.log v).take i <+: g'.log u := agree ▸ take_initial i _
  have above := ((rep'.node u).atIndex_some stored').1
  rcases (rep.node v).atIndex_of_take (rep'.node u) held stored with low | same
  · omega
  · exact Option.some.inj (same.symm.trans stored')

theorem committed_entries_agree_after_snapshot : ∃ s,
    Cluster.run threePeers deliverBoth = some s ∧ (s.nodes "c").lastIncludedIndex = 1 ∧
    2 ≤ (s.nodes "a").commitIndex ∧ 2 ≤ (s.nodes "c").commitIndex ∧
    ∃ e e', (s.nodes "a").mainLog.atIndex 2 = some e ∧
      (s.nodes "c").mainLog.atIndex 2 = some e' ∧ e = e' := by
  have good : Along (Cluster.step threePeers) (fun s a => commitsSafely s a = true)
      Cluster.initial (deliverBoth ++ []) := by decide +kernel
  obtain ⟨s, run, point, high, high', stored, stored'⟩ : ∃ s,
      Cluster.run threePeers deliverBoth = some s ∧ (s.nodes "c").lastIncludedIndex = 1 ∧
      2 ≤ (s.nodes "a").commitIndex ∧ 2 ≤ (s.nodes "c").commitIndex ∧
      (s.nodes "a").mainLog.atIndex 2 = some ⟨2, 1, ⟨default, .noOp⟩⟩ ∧
      (s.nodes "c").mainLog.atIndex 2 = some ⟨2, 1, ⟨default, .noOp⟩⟩ := by
    refine ⟨_, (Option.some_get (by decide +kernel)).symm, by decide +kernel, by decide +kernel,
      by decide +kernel, by decide +kernel, by decide +kernel⟩
  exact ⟨s, run, point, high, high', _, _, stored, stored',
    committed_entries_agree good run rfl high high' stored stored'⟩

end Zdb.Raft
