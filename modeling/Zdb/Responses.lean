import Zdb.Origin
import Zdb.RsmMoves

/-! Which answer a call of `Rsm::handle` gets. Waiters are found by UUID alone, so
that two started commands with one UUID mix up their answers; and a command is
handed to Raft before its waiter is registered, so that its answer can come too
early. -/

namespace Zdb.Rsm
open Raft LabelledRun Linearizability

/-- No command that has been started before carries the UUID of a command that is
about to be. -/
def startsUnique (s : System) : Action → Bool
  | .start k => match s.handles[k]? with
      | some h => s.handles.all fun g => g.entry.isNone || g.command.uuid != h.command.uuid
      | none => true
  | _ => true

def Started (s : System) (e : LogEntry) : Prop :=
  ∃ (k : ℕ) (h : Handle), s.handles[k]? = some h ∧ h.entry = some e

structure Handle.Sound (h : Handle) : Prop where
  begun : h.phase = .invoked → h.entry = none
  open_ : h.phase = .started ∨ (∃ f, h.phase = .waiting f) → h.entry.isSome = true
  command : ∀ e, h.entry = some e → e.command = h.command
  result : ∀ r, h.phase = .waiting (.value r) ∨ h.phase = .returned r →
    r.state.isNotLeader = true ∨ (h.entry.isSome = true ∧ r.source = h.entry)

structure Routed (s : System) : Prop where
  synced : ∀ v, (s.cluster.nodes v).Synced
  handle : ∀ (k : ℕ) (h : Handle), s.handles[k]? = some h → h.Sound
  unique : ∀ (j k : ℕ) (g h : Handle), s.handles[j]? = some g → s.handles[k]? = some h →
    g.entry.isSome = true → h.entry.isSome = true → g.command.uuid = h.command.uuid → j = k
  origin : Carried (Started s) s.cluster
  applied : ∀ v e state, (s.replicas v).consumer = .applied (.command e) state → Started s e
  pending : ∀ v u k, (s.replicas v).pending u = some k → ∃ h, s.handles[k]? = some h ∧
    h.node = v ∧ h.command.uuid = u ∧ h.entry.isSome = true ∧ h.phase ≠ .started

section Step
variable {m : Membership} {s t : System} {a : Action}

theorem notLeader_isNotLeader (what : String) : (Result.notLeader what).state.isNotLeader = true :=
  rfl

theorem Handle.Sound.advance {k : ℕ} {h h' : Handle} (sound : h.Sound)
    (advance : Advance s a k h h')
    (arrives : ∀ v e state, (s.replicas v).consumer = .applied (.command e) state →
      (s.replicas v).pending e.command.uuid = some k → h.entry = some e) : h'.Sound := by
  cases advance with
  | same => exact sound
  | started k h phase accepted =>
    refine ⟨by simp, by simp, fun e same => ?_, by simp⟩
    cases same
    rfl
  | refused k h phase =>
    refine ⟨by simp, by simp, sound.command, fun r at_ => Or.inl ?_⟩
    rcases at_ with at_ | at_ <;> cases at_
    exact notLeader_isNotLeader _
  | added k h phase => exact ⟨by simp, fun _ => sound.open_ (Or.inl phase), sound.command, by simp⟩
  | broken j k h x phase =>
    exact ⟨by simp, fun _ => sound.open_ (Or.inr ⟨_, phase⟩), sound.command, by simp⟩
  | got k h r phase =>
    refine ⟨by simp, by simp, sound.command, fun r' at_ => sound.result r' (Or.inl ?_)⟩
    rcases at_ with at_ | at_ <;> cases at_
    exact phase
  | threw k h phase => exact ⟨by simp, by simp, sound.command, by simp⟩
  | timedOut k h phase =>
    refine ⟨by simp, by simp, sound.command, fun r at_ => Or.inl ?_⟩
    rcases at_ with at_ | at_ <;> cases at_
    exact notLeader_isNotLeader _
  | completed v e state k h phase at_ taken =>
    have own := arrives v e state at_ taken
    refine ⟨by simp, fun _ => sound.open_ (Or.inr ⟨_, phase⟩), sound.command, fun r here => ?_⟩
    rcases here with here | here <;> cases here
    exact Or.inr ⟨sound.open_ (Or.inr ⟨_, phase⟩), own.symm⟩
  | cancelled v k h phase =>
    refine ⟨by simp, fun _ => sound.open_ (Or.inr ⟨_, phase⟩), sound.command, fun r here =>
      Or.inl ?_⟩
    rcases here with here | here <;> cases here
    exact notLeader_isNotLeader _
  | gone b k h => exact ⟨by simp, by simp, sound.command, by simp⟩

theorem Handle.Sound.entry_kept {k : ℕ} {h h' : Handle} {e : LogEntry} (sound : h.Sound)
    (advance : Advance s a k h h') (own : h.entry = some e) : h'.entry = some e := by
  rcases advance.entry_cases with same | ⟨_, phase, _⟩
  · rw [same, own]
  · rw [sound.begun phase] at own
    contradiction

theorem Started.mono {e : LogEntry} (inv : Routed s) (move : Moves m s a t) (h : Started s e) :
    Started t e := by
  obtain ⟨k, x, found, own⟩ := h
  obtain ⟨y, found', advance⟩ := move.kept found
  exact ⟨k, y, found', (inv.handle k x found).entry_kept advance own⟩

theorem Routed.arrives (inv : Routed s) {v : PeerId} {e : LogEntry} {state : KV.State} {k : ℕ}
    {h : Handle} (found : s.handles[k]? = some h)
    (at_ : (s.replicas v).consumer = .applied (.command e) state)
    (taken : (s.replicas v).pending e.command.uuid = some k) : h.entry = some e := by
  obtain ⟨x, found', _, uuid, own, _⟩ := inv.pending v _ k taken
  cases found.symm.trans found'
  obtain ⟨j, g, other, entry⟩ := inv.applied v e state at_
  have command := (inv.handle j g other).command e entry
  have same := inv.unique j k g h other found (by simp [entry]) own (by rw [uuid, command])
  subst same
  cases found.symm.trans other
  exact entry

theorem Routed.step_origin (inv : Routed s) (move : Moves m s a t) :
    (∀ v, (t.cluster.nodes v).Synced) ∧ Carried (Started t) t.cluster := by
  have before := inv.origin.mono (fun e => Started.mono inv move)
  rcases move.cluster_cases with same | ⟨b, step, cases⟩
  · rw [same]
    exact ⟨inv.synced, before⟩
  · obtain ⟨v, n, out, found, _, _, updated⟩ := Cluster.step_eq_some step
    rw [updated]
    refine ⟨Cluster.forall_nodes_update (P := fun _ n => n.Synced)
      (Cluster.act_synced inv.synced found) fun u _ => inv.synced u,
      before.step (Cluster.act_move inv.synced found) fun command called => ?_⟩
    rcases cases with ⟨_, other⟩ | ⟨k, h, rfl, there, phase, rfl⟩
    · rw [called] at other
      cases other
    · cases called
      cases found
      by_cases accepted : ((s.cluster.nodes h.node).start h.command).2 = true
      · left
        cases move with
        | started k x c found phase step accepted =>
          cases there.symm.trans found
          refine ⟨k, { h with entry := some _, phase := .started }, ?_, rfl⟩
          simp [System.setHandle, there]
        | refused k x c found phase step rejected =>
          cases there.symm.trans found
          rw [accepted] at rejected
          contradiction
      · right
        rw [Node.start] at accepted ⊢
        split_ifs at accepted ⊢
        · rfl
        · rfl
        · exact absurd rfl accepted

theorem Routed.step_unique (inv : Routed s) (ok : startsUnique s a = true) (move : Moves m s a t)
    {j k : ℕ} {g h : Handle} (atJ : t.handles[j]? = some g) (atK : t.handles[k]? = some h)
    (ownG : g.entry.isSome = true) (ownH : h.entry.isSome = true)
    (same : g.command.uuid = h.command.uuid) : j = k := by
  rcases move.advance atJ with ⟨x, oldX, advX⟩ | ⟨_, _, _, _, _, rfl⟩
  · rcases move.advance atK with ⟨y, oldY, advY⟩ | ⟨_, _, _, _, _, rfl⟩
    · have fresh : ∀ (i : ℕ) (z : Handle), a = .start i → s.handles[i]? = some z →
          ∀ (l : ℕ) (w : Handle), s.handles[l]? = some w → w.entry.isSome = true →
            w.command.uuid ≠ z.command.uuid := by
        rintro i z rfl foundZ l w foundW own
        simp only [startsUnique, foundZ, List.all_eq_true] at ok
        have apart := ok w (List.mem_of_getElem? foundW)
        simpa [Option.isSome_iff_ne_none.mp own] using apart
      rw [advX.command_eq, advY.command_eq] at same
      rcases advX.entry_cases with keptX | ⟨rfl, _⟩
      · rw [keptX] at ownG
        rcases advY.entry_cases with keptY | ⟨rfl, _⟩
        · rw [keptY] at ownH
          exact inv.unique j k x y oldX oldY ownG ownH same
        · exact absurd same (fresh k y rfl oldY j x oldX ownG)
      · rcases advY.entry_cases with keptY | ⟨both, _⟩
        · rw [keptY] at ownH
          exact absurd same.symm (fresh j x rfl oldX k y oldY ownH)
        · cases both
          rfl
    · simp at ownH
  · simp at ownG

theorem Routed.step_pending (inv : Routed s) (move : Moves m s a t) {v : PeerId} {u : UUIDV7}
    {k : ℕ} (waits : (t.replicas v).pending u = some k) : ∃ h : Handle, t.handles[k]? = some h ∧
      h.node = v ∧ h.command.uuid = u ∧ h.entry.isSome = true ∧ h.phase ≠ .started := by
  have old : (s.replicas v).pending u = some k → ∃ h : Handle, t.handles[k]? = some h ∧
      h.node = v ∧ h.command.uuid = u ∧ h.entry.isSome = true ∧ h.phase ≠ .started := by
    intro before
    obtain ⟨h, found, node, uuid, own, past⟩ := inv.pending v u k before
    obtain ⟨h', found', advance⟩ := move.kept found
    obtain ⟨e, entry⟩ := Option.isSome_iff_exists.mp own
    refine ⟨h', found', advance.node_eq.trans node, by rw [advance.command_eq, uuid], ?_, ?_⟩
    · rw [(inv.handle k h found).entry_kept advance entry]
      rfl
    · cases advance with
      | same => exact past
      | started k h phase =>
        rw [(inv.handle k h found).begun phase] at entry
        contradiction
      | _ => simp
  have turn := move.turn v
  generalize (t.replicas v) = r at turn waits
  cases turn with
  | same => exact old waits
  | reset => simp at waits
  | added j h found phase =>
    by_cases here : u = h.command.uuid
    · subst here
      simp only [Function.update_self, Option.some.injEq] at waits
      subst waits
      obtain ⟨h', found', advance⟩ := move.kept found
      have own := (inv.handle j h found).open_ (Or.inl phase)
      refine ⟨h', found', advance.node_eq, by rw [advance.command_eq], ?_, ?_⟩
      · obtain ⟨e, entry⟩ := Option.isSome_iff_exists.mp own
        rw [(inv.handle j h found).entry_kept advance entry]
        rfl
      · cases move with
        | add k x at_ _ vacant =>
          cases at_.symm.trans found
          obtain ⟨y, _, rfl⟩ := System.setHandle_at found'
          simp
        | overwrite k x i at_ _ taken =>
          cases at_.symm.trans found
          obtain ⟨y, _, rfl⟩ := System.setHandle_at found'
          simp
    · simp only [Function.update_of_ne here] at waits
      exact old waits
  | consumed v item store state at_ next applied => exact old waits
  | dropped v item state at_ nobody => exact old waits
  | completed v e state j at_ taken =>
    by_cases here : u = e.command.uuid
    · subst here
      simp at waits
    · simp only [Function.update_of_ne here] at waits
      exact old waits
  | cancelled v => simp at waits

theorem Routed.step_applied (inv : Routed s) (move : Moves m s a t) {v : PeerId} {e : LogEntry}
    {state : KV.State} (at_ : (t.replicas v).consumer = .applied (.command e) state) :
    Started t e := by
  have old : (s.replicas v).consumer = .applied (.command e) state → Started t e :=
    fun before => (inv.applied v e state before).mono inv move
  have turn := move.turn v
  generalize (t.replicas v) = r at turn at_
  cases turn with
  | same => exact old at_
  | reset => simp at at_
  | added j h found phase => exact old at_
  | consumed v item store state' before next applied =>
    cases at_
    exact ((inv.origin.node v).channel e (List.mem_of_getElem? next)).mono inv move
  | dropped v item state before nobody => simp at at_
  | completed v e state k before taken => simp at at_
  | cancelled v => exact old at_

theorem Routed.step (inv : Routed s) (ok : startsUnique s a = true) (move : Moves m s a t) :
    Routed t := by
  obtain ⟨synced, origin⟩ := inv.step_origin move
  refine ⟨synced, fun k h' found => ?_, fun j k g h => inv.step_unique ok move, origin,
    fun v e state => inv.step_applied move, fun v u k => inv.step_pending move⟩
  rcases move.advance found with ⟨h, old, advance⟩ | ⟨v, requestId, payload, _, _, rfl⟩
  · exact (inv.handle k h old).advance advance fun v e state => inv.arrives old
  · exact ⟨fun _ => rfl, by simp, by simp, by simp⟩

theorem Routed.initial : Routed System.initial where
  synced := Cluster.initial_synced
  handle := by simp [System.initial]
  unique := by simp [System.initial]
  origin := Carried.initial _
  applied := by simp [System.initial]
  pending := by simp [System.initial]

end Step

/-- As long as no UUID is started twice, whatever a call returns, unless it is the
NotLeader error, has been produced by applying the entry the call has started. -/
theorem responses_come_from_own_entry {m : Membership} {actions : List Action} {s : System}
    (good : Along (System.step m) (fun s a => startsUnique s a = true) System.initial actions)
    (run : System.run m actions = some s) {k : ℕ} {h : Handle} {r : Result}
    (call : s.handles[k]? = some h) (ended : h.phase = .returned r)
    (definite : r.state.isNotLeader = false) : ∃ e, h.entry = some e ∧ r.source = some e := by
  have inv := exec_invariant Routed (fun s a t inv ok step => inv.step ok (System.moves step))
    Routed.initial good run
  rcases (inv.handle k h call).result r (Or.inr ended) with denied | ⟨own, source⟩
  · rw [denied] at definite
    contradiction
  · obtain ⟨e, entry⟩ := Option.isSome_iff_exists.mp own
    exact ⟨e, entry, source.trans entry⟩

def leaderA : List Action := (winElection "a" "b" 0).map .raft

def commitWithB : List Action :=
  [.raft (.appendEntries "a" "b"), .raft (.appendEntriesHandler 0),
    .raft (.appendEntriesReply "a" "b" (some 0) (0, 0))] ++ (applyOne "a").map .raft

def setRequest : Payload := .set ⟨[107]⟩ ⟨[118], 0⟩

def consumeA : List Action := [.consume "a", .complete "a"]

def serveSet : List Action :=
  leaderA ++ [.invoke "a" (List.replicate 16 1) setRequest, .start 0, .add 0] ++ commitWithB ++
    consumeA ++ [.get 0]

theorem responses_come_from_own_entry_set : ∃ s h r,
    Along (System.step threePeers) (fun s a => startsUnique s a = true) System.initial serveSet ∧
    System.run threePeers serveSet = some s ∧ s.handles[0]? = some h ∧ h.phase = .returned r ∧
    r.state.isNotLeader = false ∧ ∃ e, h.entry = some e ∧ r.source = some e := by
  have good : Along (System.step threePeers) (fun s a => startsUnique s a = true) System.initial
      serveSet := by decide +kernel
  obtain ⟨s, run, h, call, r, ended, definite⟩ : ∃ s, System.run threePeers serveSet = some s ∧
      ∃ h : Handle, s.handles[0]? = some h ∧ ∃ r : Result, h.phase = .returned r ∧
      r.state.isNotLeader = false := by
    refine ⟨_, (Option.some_get (by decide +kernel)).symm, _,
      (Option.some_get (by decide +kernel)).symm,
      ⟨⟨some ⟨[107]⟩, .monostate⟩, some ⟨1, 1, ⟨Vector.replicate 16 1, setRequest⟩⟩⟩,
      by decide +kernel, by decide +kernel⟩
  exact ⟨s, h, r, good, run, call, ended, definite,
    responses_come_from_own_entry good run call ended definite⟩

def serveRetry : List Action :=
  leaderA ++ [.invoke "a" (List.replicate 16 1) setRequest, .start 0, .add 0,
    .invoke "a" (List.replicate 16 1) setRequest, .start 1, .add 1] ++ commitWithB ++
    consumeA ++ [.get 1]

/-- The second call, which has started entry 2, returns what entry 1 produced. -/
theorem response_of_other_entry : ∃ s h r, System.run threePeers serveRetry = some s ∧
    s.handles[1]? = some h ∧ h.phase = .returned r ∧ r.state.isNotLeader = false ∧
    h.entry = some ⟨2, 1, ⟨Vector.replicate 16 1, setRequest⟩⟩ ∧
    r.source = some ⟨1, 1, ⟨Vector.replicate 16 1, setRequest⟩⟩ := by
  refine ⟨_, _, ⟨⟨some ⟨[107]⟩, .monostate⟩, some ⟨1, 1, ⟨Vector.replicate 16 1, setRequest⟩⟩⟩,
    (Option.some_get (by decide +kernel)).symm, (Option.some_get (by decide +kernel)).symm,
    by decide +kernel, by decide +kernel, by decide +kernel, by decide +kernel⟩

end Zdb.Rsm
