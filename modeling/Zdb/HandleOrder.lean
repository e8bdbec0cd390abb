import Zdb.Replay

/-! `Rsm::handle` is linearizable. Calls are ordered as their commands stand in the
decided list, which is a part of the order in which the commands were started; and a
call starts its command after it is invoked and before it returns. -/

namespace Zdb.Rsm
open Raft LabelledRun LogReplication Linearizability
open scoped List

/-- No snapshot is taken, and the command of a new call carries a UUID that none
before it has carried. -/
def freshRequest (s : System) : Action → Bool
  | .raft a => !a.isSnapshot
  | .invoke _ requestId _ => s.handles.all fun h => h.command.uuid != stringToUuidV7 requestId
  | _ => true

def System.starting (s : System) : Action → List (ℕ × LogEntry)
  | .start k => match s.handles[k]? with
      | some h =>
          let n := s.cluster.nodes h.node
          if (n.start h.command).2 then
            [(k, ⟨n.mainLog.lastIndex + 1, n.currentTerm, h.command⟩)]
          else []
      | none => []
  | _ => []

theorem System.starting_eq {s : System} {k : ℕ} {h : Handle} (found : s.handles[k]? = some h)
    (accepted : ((s.cluster.nodes h.node).start h.command).2 = true) :
    s.starting (.start k) = [(k, ⟨(s.cluster.nodes h.node).mainLog.lastIndex + 1,
      (s.cluster.nodes h.node).currentTerm, h.command⟩)] := by
  simp [starting, found, accepted]

theorem System.starting_nodup (s : System) (a : Action) :
    ((s.starting a).map Prod.fst).Nodup := by
  cases a with
  | start k =>
    simp only [starting]
    split
    · split_ifs <;> simp
    · simp
  | _ => simp [starting]

theorem Moves.starting_mem {m : Membership} {s t : System} {a : Action} (move : Moves m s a t)
    {k : ℕ} {e : LogEntry} (new : (k, e) ∈ s.starting a) :
    (∃ h, s.handles[k]? = some h ∧ h.phase = .invoked) ∧
      ∃ h, t.handles[k]? = some h ∧ h.entry = some e := by
  cases move with
  | started j h c found phase step accepted =>
    simp only [System.starting_eq found accepted, List.mem_singleton, Prod.mk.injEq] at new
    obtain ⟨rfl, rfl⟩ := new
    refine ⟨⟨h, found, phase⟩, { h with entry := some _, phase := .started }, ?_, rfl⟩
    simp [System.setHandle, found]
  | refused j h c found phase step rejected => simp [System.starting, found, rejected] at new
  | _ => simp [System.starting] at new

/-- The calls that have started a command, with their entries, in the order of the
starts. -/
structure Ordered (s : System) (order : List (ℕ × LogEntry)) : Prop where
  once : (order.map Prod.fst).Nodup
  starts : ∀ k e, (k, e) ∈ order ↔ ∃ h, s.handles[k]? = some h ∧ h.entry = some e
  invoked : ∀ k, .invoke k ∈ s.history ↔ k < s.handles.length
  responded : ∀ k state, .respond k state ∈ s.history →
    ∃ h r, s.handles[k]? = some h ∧ h.phase = .returned r ∧ r.state = state
  realTime : ∀ a ∈ order.map Prod.fst, ∀ b ∈ order.map Prod.fst, Precedes s.history a b →
    [a, b] <+ order.map Prod.fst

namespace Ordered
variable {m : Membership} {s t : System} {a : Action} {order : List (ℕ × LogEntry)}

theorem initial : Ordered System.initial [] := by
  constructor <;> simp [System.initial]

theorem invoked_before (ordered : Ordered s order) (move : Moves m s a t) {k : ℕ}
    (mem : k ∈ (order ++ s.starting a).map Prod.fst) : k < s.handles.length := by
  obtain ⟨⟨_, e⟩, call, rfl⟩ := List.mem_map.mp mem
  rcases List.mem_append.mp call with old | new
  · obtain ⟨h, found, _⟩ := (ordered.starts _ e).mp old
    exact (List.getElem?_eq_some_iff.mp found).1
  · obtain ⟨h, found, _⟩ := (move.starting_mem new).1
    exact (List.getElem?_eq_some_iff.mp found).1

theorem step_starts (ordered : Ordered s order) (routed : Routed s) (move : Moves m s a t)
    (k : ℕ) (e : LogEntry) : (k, e) ∈ order ++ s.starting a ↔
      ∃ h, t.handles[k]? = some h ∧ h.entry = some e := by
  rw [List.mem_append]
  constructor
  · rintro (old | new)
    · obtain ⟨h, found, own⟩ := (ordered.starts k e).mp old
      obtain ⟨h', found', advance⟩ := move.kept found
      exact ⟨h', found', (routed.handle k h found).entry_kept advance own⟩
    · exact (move.starting_mem new).2
  · rintro ⟨h', found', own⟩
    rcases move.advance found' with ⟨h, found, advance⟩ | ⟨_, _, _, _, _, rfl⟩
    · rcases advance.entry_cases with kept | ⟨rfl, _, accepted, entry⟩
      · exact Or.inl ((ordered.starts k e).mpr ⟨h, found, kept ▸ own⟩)
      · right
        cases own.symm.trans entry
        simp [System.starting_eq found accepted]
    · cases own

theorem step_realTime (ordered : Ordered s order) (move : Moves m s a t)
    {i j : ℕ} (memI : i ∈ (order ++ s.starting a).map Prod.fst)
    (memJ : j ∈ (order ++ s.starting a).map Prod.fst) (before : Precedes s.history i j) :
    [i, j] <+ (order ++ s.starting a).map Prod.fst := by
  obtain ⟨state, answered⟩ := before.respond_mem
  rw [List.map_append, List.mem_append] at memI memJ
  rw [List.map_append]
  rcases memI with memI | newI
  · rcases memJ with memJ | newJ
    · exact (ordered.realTime i memI j memJ before).trans (List.sublist_append_left _ _)
    · exact (List.singleton_sublist.mpr memI).append (List.singleton_sublist.mpr newJ)
  · -- The call that starts has not returned.
    obtain ⟨⟨_, e⟩, new, rfl⟩ := List.mem_map.mp newI
    obtain ⟨h, found, phase⟩ := (move.starting_mem new).1
    obtain ⟨h', r, found', ended, _⟩ := ordered.responded _ _ answered
    cases found.symm.trans found'
    rw [phase] at ended
    cases ended

theorem step_once (ordered : Ordered s order) (routed : Routed s) (move : Moves m s a t) :
    ((order ++ s.starting a).map Prod.fst).Nodup := by
  rw [List.map_append]
  refine ordered.once.append (s.starting_nodup a) fun k old new => ?_
  obtain ⟨⟨_, e⟩, mem, rfl⟩ := List.mem_map.mp old
  obtain ⟨⟨_, e'⟩, mem', rfl⟩ := List.mem_map.mp new
  obtain ⟨h, found, own⟩ := (ordered.starts _ e).mp mem
  obtain ⟨h', found', phase⟩ := (move.starting_mem mem').1
  cases found.symm.trans found'
  rw [(routed.handle _ h found).begun phase] at own
  cases own

theorem step (ordered : Ordered s order) (routed : Routed s) (move : Moves m s a t) :
    Ordered t (order ++ s.starting a) := by
  have kept : ∀ k state, .respond k state ∈ s.history →
      ∃ h r, t.handles[k]? = some h ∧ h.phase = .returned r ∧ r.state = state := by
    intro k state answered
    obtain ⟨h, r, found, ended, same⟩ := ordered.responded k state answered
    obtain ⟨h', found', advance⟩ := move.kept found
    exact ⟨h', r, found', advance.returned_kept ended, same⟩
  have once := ordered.step_once routed move
  have starts := ordered.step_starts routed move
  rcases move.history_cases with ⟨history, calls⟩ |
    ⟨calls, history | ⟨k, r, h, history, found, ended⟩⟩
  · refine ⟨once, starts, fun k => ?_, fun k state answered => ?_, fun i memI j memJ before => ?_⟩
    · rw [history, calls, List.mem_append, ordered.invoked]
      simp
      omega
    · rw [history] at answered
      exact kept k state (by simpa using answered)
    · rw [history] at before
      rcases before.of_concat with before | ⟨new, _⟩
      · exact ordered.step_realTime move memI memJ before
      · cases new
        exact absurd (ordered.invoked_before move memJ) (lt_irrefl _)
  · refine ⟨once, starts, fun k => ?_, fun k state answered => ?_, fun i memI j memJ before => ?_⟩
    · rw [history, calls, ordered.invoked]
    · exact kept k state (history ▸ answered)
    · exact ordered.step_realTime move memI memJ (history ▸ before)
  · refine ⟨once, starts, fun i => ?_, fun i state answered => ?_, fun i memI j memJ before => ?_⟩
    · rw [history, calls, List.mem_append, ordered.invoked]
      simp
    · rw [history, List.mem_append, List.mem_singleton] at answered
      rcases answered with old | new
      · exact kept i state old
      · cases new
        exact ⟨h, r, found, ended, rfl⟩
    · rw [history] at before
      rcases before.of_concat with before | ⟨new, _⟩
      · exact ordered.step_realTime move memI memJ before
      · cases new

end Ordered

def runCommand (store : KV.InMemoryKVStore) (c : Command) : KV.InMemoryKVStore × KV.State :=
  match c.payload with
  | .get key => KV.KVStateMachine.get store key
  | .set key value => KV.KVStateMachine.set store key value
  | .erase key => KV.KVStateMachine.erase store key
  | _ => KV.KVStateMachine.size store

theorem applyEntry_eq {e : LogEntry} (known : served e.command.payload = true)
    (store : KV.InMemoryKVStore) : applyEntry store e =
      ((runCommand store e.command).1, some (runCommand store e.command).2) := by
  obtain ⟨index, term, uuid, payload⟩ := e
  cases payload with
  | testCommand | rmsCommand | noOp | installSnapshotCommand => simp [served] at known
  | _ => rfl

theorem after_applyEntry {entries : List LogEntry}
    (known : ∀ e ∈ entries, served e.command.payload = true) :
    after applyEntry {} entries = after runCommand {} (entries.map LogEntry.command) := by
  induction entries using List.reverseRecOn with
  | nil => rfl
  | append_singleton entries e ih =>
    rw [List.map_append, List.map_singleton, after_concat, after_concat,
      ih fun x mem => known x (by simp [mem]), applyEntry_eq (known e (by simp))]

def System.commandOf (s : System) (k : ℕ) : Command :=
  (s.handles[k]?).elim ⟨default, .size⟩ Handle.command

structure Linear (m : Membership) (s : System) (h : History) (g : Protocol)
    (order : List (ℕ × LogEntry)) (decided : List LogEntry) : Prop where
  routed : Routed s
  distinct : ∀ (j k : ℕ) (x y : Handle), s.handles[j]? = some x → s.handles[k]? = some y →
    x.command.uuid = y.command.uuid → j = k
  known : ∀ (k : ℕ) (x : Handle), s.handles[k]? = some x → served x.command.payload = true
  deciding : Deciding m s.cluster h g decided
  started : StartOrdered h (order.map Prod.snd)
  ordered : Ordered s order
  replays : ∀ v, Replays decided (s.replicas v)
  explained : ∀ (k : ℕ) (x : Handle), s.handles[k]? = some x → x.Explained decided

namespace Linear
variable {m : Membership} {s t : System} {h : History} {g : Protocol} {a : Action}
  {order : List (ℕ × LogEntry)} {decided : List LogEntry}

theorem initial (m : Membership) : Linear m System.initial {} State.initial [] [] where
  routed := Routed.initial
  distinct := by simp [System.initial]
  known := by simp [System.initial]
  deciding := Deciding.initial m
  started := StartOrdered.initial
  ordered := Ordered.initial
  replays _ := Replays.initial []
  explained := by simp [System.initial]

theorem starts_unique (lin : Linear m s h g order decided) (move : Moves m s a t) :
    startsUnique s a = true := by
  have fresh : ∀ (k : ℕ) (x : Handle), s.handles[k]? = some x → x.phase = .invoked →
      startsUnique s (.start k) = true := by
    intro k x found phase
    simp only [startsUnique, found, List.all_eq_true]
    intro y mem
    obtain ⟨j, at_⟩ := List.getElem?_of_mem mem
    by_cases same : y.command.uuid = x.command.uuid
    · obtain rfl := lin.distinct j k y x at_ found same
      cases at_.symm.trans found
      simp [(lin.routed.handle j x found).begun phase]
    · simp [same]
  cases move with
  | started k x c found phase => exact fresh k x found phase
  | refused k x c found phase => exact fresh k x found phase
  | _ => rfl

theorem step_distinct (lin : Linear m s h g order decided) (ok : freshRequest s a = true)
    (move : Moves m s a t) {j k : ℕ} {x y : Handle} (atJ : t.handles[j]? = some x)
    (atK : t.handles[k]? = some y) (same : x.command.uuid = y.command.uuid) : j = k := by
  have fresh : ∀ (v : PeerId) (requestId : Bytes) (payload : Payload) (i : ℕ) (z : Handle),
      a = .invoke v requestId payload → s.handles[i]? = some z →
        z.command.uuid ≠ stringToUuidV7 requestId := by
    rintro v requestId payload i z rfl found
    simp only [freshRequest, List.all_eq_true] at ok
    simpa using ok z (List.mem_of_getElem? found)
  rcases move.advance atJ with ⟨x', oldX, advX⟩ | ⟨v, requestId, payload, called, newJ, rfl⟩
  · rw [advX.command_eq] at same
    rcases move.advance atK with ⟨y', oldY, advY⟩ | ⟨v, requestId, payload, called, newK, rfl⟩
    · rw [advY.command_eq] at same
      exact lin.distinct j k x' y' oldX oldY same
    · exact absurd same (fresh v requestId payload j x' called oldX)
  · rcases move.advance atK with ⟨y', oldY, advY⟩ | ⟨_, _, _, _, newK, _⟩
    · rw [advY.command_eq] at same
      exact absurd same.symm (fresh v requestId payload k y' called oldY)
    · rw [newJ, newK]

theorem step_known (lin : Linear m s h g order decided) (move : Moves m s a t) {k : ℕ}
    {x : Handle} (found : t.handles[k]? = some x) : served x.command.payload = true := by
  rcases move.advance found with ⟨x', old, advance⟩ | ⟨v, requestId, payload, rfl, _, rfl⟩
  · rw [advance.command_eq]
    exact lin.known k x' old
  · cases move with
    | invoke v requestId payload known => exact known

theorem step_cluster (lin : Linear m s h g order decided) (ok : freshRequest s a = true)
    (move : Moves m s a t) : ∃ h' g' decided', Deciding m t.cluster h' g' decided' ∧
      decided <+: decided' ∧ StartOrdered h' ((order ++ s.starting a).map Prod.snd) := by
  have longer : order.map Prod.snd <+ (order ++ s.starting a).map Prod.snd :=
    (List.sublist_append_left order _).map _
  rcases move.cluster_cases with same | ⟨b, step, cases⟩
  · rw [same]
    exact ⟨h, g, decided, lin.deciding, List.prefix_rfl, lin.started.mono longer⟩
  have calm : b.isSnapshot = false := by
    rcases cases with ⟨rfl, _⟩ | ⟨k, x, _, _, _, rfl⟩
    · simpa [freshRequest] using ok
    · rfl
  obtain ⟨v, n, out, g', decided', found, _, raft, deciding, more⟩ := lin.deciding.step calm step
  have free := lin.deciding.free
  refine ⟨_, g', decided', deciding, more, lin.started.step lin.deciding.rep free.synced
    (free.keeps b) raft longer fun command e called made grown => ?_⟩
  rcases cases with ⟨_, other⟩ | ⟨k, x, rfl, there, _, rfl⟩
  · rw [called] at other
    cases other
  · cases called
    cases found
    have accepted : ((s.cluster.nodes x.node).start x.command).2 = true := by
      rw [Node.start] at grown ⊢
      split_ifs at grown ⊢
      · simp at grown
      · simp at grown
      · rfl
    rw [System.starting_eq there accepted, ← made]
    simp

theorem step (lin : Linear m s h g order decided) (ok : freshRequest s a = true)
    (move : Moves m s a t) :
    ∃ h' g' decided', Linear m t h' g' (order ++ s.starting a) decided' := by
  obtain ⟨h', g', decided', deciding, more, started⟩ := lin.step_cluster ok move
  refine ⟨h', g', decided', lin.routed.step (lin.starts_unique move) move,
    fun j k x y => lin.step_distinct ok move, fun k x => lin.step_known move, deciding, started,
    lin.ordered.step lin.routed move, fun v => ?_, fun k x' found' => ?_⟩
  · exact ((lin.replays v).turn (lin.deciding.channel v) (move.turn v)).mono more
  · rcases move.advance found' with ⟨x, found, advance⟩ | ⟨_, _, _, _, _, rfl⟩
    · intro r e ended source
      exact ((lin.explained k x found).advance advance lin.replays r e ended source).mono more
    · simp [Handle.Explained]

theorem commandOf_eq (lin : Linear m s h g order decided) {k : ℕ} {e : LogEntry}
    (mem : (k, e) ∈ order) : s.commandOf k = e.command ∧ served e.command.payload = true := by
  obtain ⟨x, found, own⟩ := (lin.ordered.starts k e).mp mem
  have command := (lin.routed.handle k x found).command e own
  refine ⟨?_, command ▸ lin.known k x found⟩
  rw [System.commandOf, found, Option.elim_some, command]

theorem answered (lin : Linear m s h g order decided) {calls : List (ℕ × LogEntry)}
    (within : calls <+ order) (same : decided = calls.map Prod.snd) {k : ℕ} {state : KV.State}
    (responded : .respond k state ∈ s.history) (definite : ¬ state.isNotLeader = true) :
    ∃ i e, calls[i]? = some (k, e) ∧
      answer applyEntry {} ((calls.map Prod.snd).take i) e = some state := by
  obtain ⟨x, r, found, ended, rfl⟩ := lin.ordered.responded k state responded
  have sound := lin.routed.handle k x found
  obtain ⟨own, source⟩ := (sound.result r (Or.inr ended)).resolve_left definite
  obtain ⟨e, entry⟩ := Option.isSome_iff_exists.mp own
  obtain ⟨i, place, produced⟩ :=
    lin.explained k x found r e (Or.inr ended) (source.trans entry)
  rw [same] at place produced
  rw [List.getElem?_map] at place
  obtain ⟨⟨j, _⟩, there, rfl⟩ := Option.map_eq_some_iff.mp place
  obtain ⟨y, found', entry'⟩ :=
    (lin.ordered.starts j _).mp (within.subset (List.mem_of_getElem? there))
  have uuid : y.command.uuid = x.command.uuid := by
    rw [← (lin.routed.handle j y found').command _ entry', ← sound.command _ entry]
  obtain rfl := lin.distinct j k y x found' found uuid
  exact ⟨i, _, there, produced⟩

theorem linearizes (lin : Linear m s h g order decided) : ∃ calls : List ℕ,
    Linearizes runCommand {} s.commandOf (fun state => state.isNotLeader = true) s.history
      calls := by
  obtain ⟨calls, within, same⟩ := List.sublist_map_iff.mp (lin.deciding.sublist lin.started)
  have sub := within.map Prod.fst
  have once := lin.ordered.once.sublist sub
  have commands : ∀ i, ((calls.map Prod.fst).take i).map s.commandOf =
      ((calls.map Prod.snd).take i).map LogEntry.command := by
    intro i
    rw [← List.map_take, ← List.map_take, List.map_map, List.map_map]
    refine List.map_congr_left fun call mem => ?_
    exact (lin.commandOf_eq (within.subset (List.mem_of_mem_take mem))).1
  refine ⟨calls.map Prod.fst, once, fun k mem => ?_, fun k state responded definite => ?_,
    fun k state responded definite i place => ?_, fun i memI j memJ before => ?_⟩
  · obtain ⟨⟨_, e⟩, call, rfl⟩ := List.mem_map.mp mem
    obtain ⟨x, found, _⟩ := (lin.ordered.starts _ e).mp (within.subset call)
    exact (lin.ordered.invoked _).mpr (List.getElem?_eq_some_iff.mp found).1
  · obtain ⟨i, e, found, _⟩ := lin.answered within same responded definite
    exact List.mem_map.mpr ⟨(k, e), List.mem_of_getElem? found, rfl⟩
  · obtain ⟨i', e, found, produced⟩ := lin.answered within same responded definite
    have place' : (calls.map Prod.fst)[i']? = some k := by rw [List.getElem?_map, found]; rfl
    obtain rfl := (List.getElem?_inj (List.getElem?_eq_some_iff.mp place).1 once).mp
      (place.trans place'.symm)
    obtain ⟨command, known⟩ := lin.commandOf_eq (within.subset (List.mem_of_getElem? found))
    have all : ∀ x ∈ (calls.map Prod.snd).take i, served x.command.payload = true := by
      intro x mem
      obtain ⟨⟨j, _⟩, call, rfl⟩ := List.mem_map.mp (List.mem_of_mem_take mem)
      exact (lin.commandOf_eq (within.subset call)).2
    rw [answer, after_applyEntry all, applyEntry_eq known] at produced
    rw [answer, commands, command]
    exact Option.some.inj produced
  · exact pair_sublist_of_sublist lin.ordered.once sub memI memJ
      (lin.ordered.realTime i (sub.subset memI) j (sub.subset memJ) before)

end Linear

/-- Snapshot-free runs whose calls carry different UUIDs are linearizable. -/
theorem handle_linearizable {m : Membership} {actions : List Action} {s : System}
    (good : Along (System.step m) (fun s a => freshRequest s a = true) System.initial actions)
    (run : System.run m actions = some s) : ∃ calls : List ℕ,
      Linearizes runCommand {} s.commandOf (fun state => state.isNotLeader = true) s.history
        calls := by
  obtain ⟨h, g, order, decided, lin⟩ := exec_invariant
    (fun s => ∃ h g order decided, Linear m s h g order decided)
    (fun s a t => by
      rintro ⟨h, g, order, decided, lin⟩ ok step
      obtain ⟨h', g', decided', lin'⟩ := lin.step ok (System.moves step)
      exact ⟨h', g', _, decided', lin'⟩)
    ⟨{}, State.initial, [], [], Linear.initial m⟩ good run
  exact lin.linearizes

def serveThree : List Action :=
  serveSet ++ [.raft (.appendEntriesFinish "a" "b"),
    .invoke "b" (List.replicate 16 2) (.get ⟨[107]⟩), .start 1,
    .invoke "a" (List.replicate 16 3) (.get ⟨[107]⟩), .start 2, .add 2,
    .raft (.appendEntries "a" "b"), .raft (.appendEntriesHandler 1)] ++ (applyOne "b").map .raft ++
    [.raft (.appendEntriesReply "a" "b" (some 1) (0, 0))] ++ (applyOne "a").map .raft ++
    consumeA ++ [.get 2]

theorem handle_linearizable_three : ∃ s,
    Along (System.step threePeers) (fun s a => freshRequest s a = true) System.initial
      serveThree ∧
    System.run threePeers serveThree = some s ∧
    s.history = [.invoke 0, .respond 0 ⟨some ⟨[107]⟩, .monostate⟩,
      .invoke 1, .respond 1 (Result.notLeader "not the leader").state,
      .invoke 2, .respond 2 ⟨some ⟨[107]⟩, .value (some ⟨[118], 1⟩)⟩] ∧
    ∃ calls : List ℕ,
      Linearizes runCommand {} s.commandOf (fun state => state.isNotLeader = true) s.history
        calls := by
  have good : Along (System.step threePeers) (fun s a => freshRequest s a = true) System.initial
      serveThree := by decide +kernel
  obtain ⟨s, run, history⟩ : ∃ s, System.run threePeers serveThree = some s ∧
      s.history = [.invoke 0, .respond 0 ⟨some ⟨[107]⟩, .monostate⟩,
        .invoke 1, .respond 1 (Result.notLeader "not the leader").state,
        .invoke 2, .respond 2 ⟨some ⟨[107]⟩, .value (some ⟨[118], 1⟩)⟩] := by
    refine ⟨_, (Option.some_get (by decide +kernel)).symm, by decide +kernel⟩
  exact ⟨s, good, run, history, handle_linearizable good run⟩

end Zdb.Rsm
