import Zdb.Responses

/-! Whether a call of `Rsm::handle` gets the answer to its command. `start` hands
the command to Raft before `add` registers the waiter, and `complete` drops the
answer to a command nobody waits for. Between `applyCommand` and `complete` the
answer exists, but a call whose two seconds are over does not see it. -/

namespace Zdb.Rsm
open Raft LabelledRun Linearizability

/-- The answer to a command is handed over after its call has registered and before
the call, or all calls of the node, give up; and no UUID is started twice. -/
def answersInTime (s : System) : Action → Bool
  | .complete v => match (s.replicas v).consumer with
      | .applied (.command e) _ =>
          s.handles.all fun h => h.node != v || h.entry != some e || h.phase != .started
      | _ => true
  | .timeout k => match s.handles[k]? with
      | some h => match (s.replicas h.node).consumer with
          | .applied (.command e) _ => h.entry != some e
          | _ => true
      | none => true
  | .cancelAll v => (s.replicas v).consumer == .receiving
  | a => startsUnique s a

structure Registered (s : System) : Prop extends Routed s where
  waiter : ∀ (k : ℕ) (h : Handle), s.handles[k]? = some h → h.phase = .waiting .empty →
    (s.replicas h.node).pending h.command.uuid = some k

/-- Entry `e` of call `k` on node `v` has been applied with outcome `state`, and the
call has got it or will. -/
inductive Owed (r : Replica) (e : LogEntry) (state : KV.State) : Phase → Prop
  | started (at_ : r.consumer = .applied (.command e) state) : Owed r e state .started
  | waiting (at_ : r.consumer = .applied (.command e) state) : Owed r e state (.waiting .empty)
  | ready : Owed r e state (.waiting (.value ⟨state, some e⟩))
  | returned : Owed r e state (.returned ⟨state, some e⟩)
  | gone : Owed r e state .gone

theorem startsUnique_of_answersInTime {s : System} {a : Action} (ok : answersInTime s a = true) :
    startsUnique s a = true := by
  cases a with
  | complete v => rfl
  | timeout k => rfl
  | cancelAll v => rfl
  | _ => exact ok

section Step
variable {m : Membership} {s t : System} {a : Action}

@[simp] theorem System.setHandle_getElem? (s : System) (j k : ℕ) (f : Handle → Handle) :
    (s.setHandle j f).handles[k]? = s.handles[k]?.map fun h => if k = j then f h else h := by
  rw [System.setHandle, List.getElem?_modify]
  cases s.handles[k]? with
  | none => rfl
  | some h =>
    by_cases here : k = j
    · simp [here]
    · simp [here, Ne.symm here]

theorem Routed.not_overwrite (inv : Routed s) {k j : ℕ} {h : Handle}
    (found : s.handles[k]? = some h) (phase : h.phase = .started) :
    (s.replicas h.node).pending h.command.uuid ≠ some j := by
  intro taken
  obtain ⟨x, there, _, uuid, own, past⟩ := inv.pending _ _ j taken
  have same := inv.unique j k x h there found own
    ((inv.handle k h found).open_ (Or.inl phase)) uuid
  subst same
  cases found.symm.trans there
  exact past phase

theorem Registered.step_waiter (inv : Registered s) (move : Moves m s a t) {k : ℕ} {h' : Handle}
    (found : t.handles[k]? = some h') (phase : h'.phase = .waiting .empty) :
    (t.replicas h'.node).pending h'.command.uuid = some k := by
  have other : ∀ (u : System) (j : ℕ) (f : Handle → Handle), u.handles = s.handles →
      u.replicas = s.replicas → (∀ h, (f h).phase ≠ .waiting .empty) →
      (u.setHandle j f).handles[k]? = some h' →
      (s.replicas h'.node).pending h'.command.uuid = some k := by
    intro u j f handles replicas leaves found
    rw [System.setHandle_getElem?, handles] at found
    obtain ⟨h, old, rfl⟩ := Option.map_eq_some_iff.mp found
    split_ifs at phase ⊢
    · exact absurd phase (leaves h)
    · exact inv.waiter k h old phase
  cases move with
  | raft => exact inv.waiter k h' found phase
  | reset b c v step isOther anew =>
    obtain ⟨h, old, rfl⟩ := Option.map_eq_some_iff.mp ((List.getElem?_map).symm.trans found)
    rw [Handle.abandon] at phase ⊢
    split_ifs at phase ⊢ with ends
    have waits := inv.waiter k h old phase
    have apart : h.node ≠ v := fun here => ends ⟨here, by simp [Handle.finished, phase]⟩
    simpa [System.reset, System.setReplica, apart] using waits
  | invoke v requestId payload known =>
    rw [List.getElem?_append] at found
    split_ifs at found
    · exact inv.waiter k h' found phase
    · rw [List.getElem?_singleton] at found
      split_ifs at found
      cases found
      simp at phase
  | started j x c => exact other { s with cluster := c } j _ rfl rfl (by simp) found
  | refused j x c => exact other { s with cluster := c } j _ rfl rfl (by simp) found
  | get j x r => exact other s j _ rfl rfl (by simp) found
  | threw j x => exact other s j _ rfl rfl (by simp) found
  | timeout j x => exact other s j _ rfl rfl (by simp) found
  | add j x there adds vacant =>
    rw [System.setHandle_getElem?] at found
    obtain ⟨h, old, rfl⟩ := Option.map_eq_some_iff.mp found
    replace old : s.handles[k]? = some h := old
    split_ifs at phase ⊢ with here
    · subst here
      cases there.symm.trans old
      simp [System.setHandle, System.setReplica]
    · have waits := inv.waiter k h old phase
      have apart : h.node ≠ x.node ∨ h.command.uuid ≠ x.command.uuid := by
        by_contra same
        rw [not_or, not_not, not_not] at same
        rw [same.1, same.2, vacant] at waits
        contradiction
      by_cases node : h.node = x.node
      · have uuid := apart.resolve_left (not_not.mpr node)
        simpa [System.setHandle, System.setReplica, node, uuid] using node ▸ waits
      · simpa [System.setHandle, System.setReplica, node] using waits
  | overwrite j x i there adds taken => exact absurd taken (inv.not_overwrite there adds)
  | consume v item store state at_ next applied =>
    have waits := inv.waiter k h' found phase
    by_cases node : h'.node = v
    · subst node
      simpa [System.setReplica] using waits
    · simpa [System.setReplica, node] using waits
  | dropped v item state at_ nobody =>
    have waits := inv.waiter k h' found phase
    by_cases node : h'.node = v
    · subst node
      simpa [System.setReplica] using waits
    · simpa [System.setReplica, node] using waits
  | complete v e state j at_ taken =>
    rw [System.setHandle_getElem?] at found
    obtain ⟨h, old, rfl⟩ := Option.map_eq_some_iff.mp found
    replace old : s.handles[k]? = some h := old
    split_ifs at phase ⊢ with here
    · rw [Handle.settle] at phase
      split at phase
      · simp at phase
      · rename_i busy
        exact absurd phase busy
    · have waits := inv.waiter k h old phase
      by_cases node : h.node = v
      · have uuid : h.command.uuid ≠ e.command.uuid := by
          intro same
          rw [node, same, taken, Option.some.injEq] at waits
          exact here waits.symm
        simpa [System.setHandle, System.setReplica, node, uuid] using node ▸ waits
      · simpa [System.setHandle, System.setReplica, node] using waits
  | cancelAll v =>
    obtain ⟨h, old, rfl⟩ := Option.map_eq_some_iff.mp ((List.getElem?_mapIdx).symm.trans found)
    split_ifs at phase ⊢ with taken
    · rw [Handle.settle] at phase
      split at phase
      · simp at phase
      · rename_i busy
        exact absurd phase busy
    · have waits := inv.waiter k h old phase
      have apart : h.node ≠ v := fun here => taken (here ▸ waits)
      simpa [System.setReplica, apart] using waits

theorem Registered.step (inv : Registered s) (ok : answersInTime s a = true)
    (move : Moves m s a t) : Registered t where
  toRouted := inv.toRouted.step (startsUnique_of_answersInTime ok) move
  waiter _ _ := inv.step_waiter move

theorem Owed.frame {r r' : Replica} {e : LogEntry} {state : KV.State} {phase : Phase}
    (owed : Owed r e state phase) (same : r'.consumer = r.consumer) : Owed r' e state phase := by
  cases owed with
  | started at_ => exact .started (same.trans at_)
  | waiting at_ => exact .waiting (same.trans at_)
  | ready => exact .ready
  | returned => exact .returned
  | gone => exact .gone

theorem Owed.settled {r r' : Replica} {e : LogEntry} {state : KV.State} {phase : Phase}
    (owed : Owed r e state phase) (free : r.consumer ≠ .applied (.command e) state) :
    Owed r' e state phase := by
  cases owed with
  | started at_ => exact absurd at_ free
  | waiting at_ => exact absurd at_ free
  | ready => exact .ready
  | returned => exact .returned
  | gone => exact .gone

theorem Owed.settle {r : Replica} {e : LogEntry} {state : KV.State} {h : Handle} {f : Future}
    (owed : Owed r e state h.phase) (free : r.consumer ≠ .applied (.command e) state) :
    h.settle f = h := by
  rw [Handle.settle]
  split
  · rename_i phase
    rw [phase] at owed
    cases owed with
    | waiting at_ => exact absurd at_ free
  · rfl

theorem Owed.of_finished {r r' : Replica} {e : LogEntry} {state : KV.State} {h : Handle}
    (owed : Owed r e state h.phase) (ended : h.finished = true) : Owed r' e state h.phase := by
  obtain ⟨node, command, entry, phase⟩ := h
  cases owed with
  | started => cases ended
  | waiting => cases ended
  | ready => cases ended
  | returned => exact .returned
  | gone => exact .gone

variable {k : ℕ} {h : Handle} {e : LogEntry} {state : KV.State}

theorem not_started (ok : answersInTime s (.complete h.node) = true)
    (found : s.handles[k]? = some h) (own : h.entry = some e)
    (busy : (s.replicas h.node).consumer = .applied (.command e) state) :
    h.phase ≠ .started := by
  intro phase
  simp only [answersInTime, busy, List.all_eq_true] at ok
  have late := ok h (List.mem_of_getElem? found)
  simp [own, phase] at late

def Awaits (s : System) (k : ℕ) (v : PeerId) (e : LogEntry) (state : KV.State) : Prop :=
  ∃ h : Handle, s.handles[k]? = some h ∧ h.node = v ∧ h.entry = some e ∧
    Owed (s.replicas v) e state h.phase

theorem Awaits.other {u : System} {j : ℕ} (apart : k ≠ j) (f : Handle → Handle)
    (found : u.handles[k]? = some h) (own : h.entry = some e)
    (owed : Owed (u.replicas h.node) e state h.phase) :
    Awaits (u.setHandle j f) k h.node e state :=
  ⟨h, by simp [found, apart], rfl, own, owed⟩

theorem Owed.apart {j : ℕ} {x : Handle} (owed : Owed (s.replicas h.node) e state h.phase)
    (found : s.handles[k]? = some h) (there : s.handles[j]? = some x)
    (clear : ¬ Owed (s.replicas x.node) e state x.phase) : k ≠ j := by
  rintro rfl
  cases there.symm.trans found
  exact clear owed

theorem Registered.taken (inv : Registered s) (found : s.handles[k]? = some h)
    (own : h.entry = some e) (phase : h.phase = .waiting .empty) :
    (s.replicas h.node).pending e.command.uuid = some k := by
  rw [(inv.handle k h found).command e own]
  exact inv.waiter k h found phase

theorem Registered.not_pending (inv : Registered s) {v : PeerId}
    (found : s.handles[k]? = some h) (elsewhere : h.node ≠ v) (uuid : UUIDV7) :
    (s.replicas v).pending uuid ≠ some k := by
  intro taken
  obtain ⟨x, there, node, _⟩ := inv.pending v _ k taken
  cases found.symm.trans there
  exact elsewhere node

theorem Registered.owed_add {j : ℕ} {x : Handle} (there : s.handles[j]? = some x)
    (phase : x.phase = .started) (found : s.handles[k]? = some h) (own : h.entry = some e)
    (owed : Owed (s.replicas h.node) e state h.phase) :
    Awaits ((s.setReplica x.node { s.replicas x.node with
      pending := Function.update (s.replicas x.node).pending x.command.uuid (some j) }).setHandle
        j fun y => { y with phase := .waiting .empty }) k h.node e state := by
  have consumer : ((s.setReplica x.node { s.replicas x.node with
      pending := Function.update (s.replicas x.node).pending x.command.uuid (some j) }).replicas
        h.node).consumer = (s.replicas h.node).consumer := by
    by_cases here : h.node = x.node
    · simp [System.setReplica, here]
    · simp [System.setReplica, here]
  by_cases here : k = j
  · subst here
    cases there.symm.trans found
    rw [phase] at owed
    refine ⟨{ h with phase := .waiting .empty }, ?_, rfl, own, ?_⟩
    · rw [System.setHandle_getElem?]
      simp [System.setReplica, there]
    · cases owed with
      | started at_ => exact .waiting (consumer.trans at_)
  · exact Awaits.other here _ found own (owed.frame consumer)

theorem Registered.owed_complete (inv : Registered s) {v : PeerId} {e' : LogEntry}
    {state' : KV.State} {j : ℕ} (ok : answersInTime s (.complete v) = true)
    (at_ : (s.replicas v).consumer = .applied (.command e') state')
    (taken : (s.replicas v).pending e'.command.uuid = some j)
    (found : s.handles[k]? = some h) (own : h.entry = some e)
    (owed : Owed (s.replicas h.node) e state h.phase) :
    Awaits ((s.setReplica v { s.replicas v with
      consumer := .receiving
      pending := Function.update (s.replicas v).pending e'.command.uuid none }).setHandle j
        (Handle.settle (.value ⟨state', some e'⟩))) k h.node e state := by
  by_cases here : h.node = v
  · subst here
    have kept : h.phase ≠ .waiting .empty → ((s.setReplica h.node { s.replicas h.node with
        consumer := .receiving
        pending := Function.update (s.replicas h.node).pending e'.command.uuid none }).setHandle j
          (Handle.settle (.value ⟨state', some e'⟩))).handles[k]? = some h := by
      intro busy
      have same : h.settle (.value ⟨state', some e'⟩) = h := by
        rw [Handle.settle]
        split
        · rename_i waits
          exact absurd waits busy
        · rfl
      rw [System.setHandle_getElem?]
      simp [System.setReplica, found, same]
    generalize at_phase : h.phase = phase at owed
    cases owed with
    | started busy => exact absurd at_phase (not_started ok found own busy)
    | waiting busy =>
      cases at_.symm.trans busy
      cases taken.symm.trans (inv.taken found own at_phase)
      refine ⟨{ h with phase := .waiting (.value ⟨state, some e⟩) }, ?_, rfl, own, .ready⟩
      rw [System.setHandle_getElem?]
      simp [System.setReplica, found, Handle.settle, at_phase]
    | ready => exact ⟨h, kept (by simp [at_phase]), rfl, own, at_phase ▸ .ready⟩
    | returned => exact ⟨h, kept (by simp [at_phase]), rfl, own, at_phase ▸ .returned⟩
    | gone => exact ⟨h, kept (by simp [at_phase]), rfl, own, at_phase ▸ .gone⟩
  · have apart : k ≠ j := by
      rintro rfl
      exact inv.not_pending found here _ taken
    refine Awaits.other apart _ found own (owed.frame ?_)
    simp [System.setReplica, here]

theorem Registered.owed_dropped (inv : Registered s) {v : PeerId} {item : Item}
    {state' : KV.State} (ok : answersInTime s (.complete v) = true)
    (at_ : (s.replicas v).consumer = .applied item state')
    (nobody : ∀ e, item = .command e → (s.replicas v).pending e.command.uuid = none)
    (found : s.handles[k]? = some h) (own : h.entry = some e)
    (owed : Owed (s.replicas h.node) e state h.phase) :
    Awaits (s.setReplica v { s.replicas v with consumer := .receiving }) k h.node e state := by
  refine ⟨h, found, rfl, own, ?_⟩
  by_cases here : h.node = v
  · subst here
    generalize at_phase : h.phase = phase at owed
    cases owed with
    | started busy => exact absurd at_phase (not_started ok found own busy)
    | waiting busy =>
      cases at_.symm.trans busy
      cases (nobody e rfl).symm.trans (inv.taken found own at_phase)
    | ready => exact .ready
    | returned => exact .returned
    | gone => exact .gone
  · exact owed.frame (by simp [System.setReplica, here])

theorem Registered.owed_step (inv : Registered s) (ok : answersInTime s a = true)
    (move : Moves m s a t) (found : s.handles[k]? = some h) (own : h.entry = some e)
    (owed : Owed (s.replicas h.node) e state h.phase) : Awaits t k h.node e state := by
  cases move with
  | raft => exact ⟨h, found, rfl, own, owed⟩
  | reset b c v step isOther anew =>
    have there : (System.reset { s with cluster := c } v).handles[k]? = some (h.abandon v) := by
      simp [System.reset, found]
    refine ⟨h.abandon v, there, ?_⟩
    rw [Handle.abandon]
    split_ifs with ends
    · exact ⟨rfl, own, .gone⟩
    · refine ⟨rfl, own, ?_⟩
      by_cases here : h.node = v
      · exact owed.of_finished (by simpa [here] using ends)
      · exact owed.frame (by simp [System.reset, System.setReplica, here])
  | invoke v requestId payload known =>
    refine ⟨h, ?_, rfl, own, owed⟩
    rw [List.getElem?_append_left (List.getElem?_eq_some_iff.mp found).1]
    exact found
  | started j x c there phase step accepted =>
    have apart := owed.apart found there (by rw [phase]; rintro ⟨⟩)
    exact Awaits.other (u := { s with cluster := c }) apart _ found own owed
  | refused j x c there phase step rejected =>
    have apart := owed.apart found there (by rw [phase]; rintro ⟨⟩)
    exact Awaits.other (u := { s with cluster := c }) apart _ found own owed
  | threw j x there phase =>
    exact Awaits.other (owed.apart found there (by rw [phase]; rintro ⟨⟩)) _ found own owed
  | overwrite j x i there adds taken => exact absurd taken (inv.not_overwrite there adds)
  | add j x there phase vacant => exact owed_add there phase found own owed
  | get j x r there phase =>
    by_cases here : k = j
    · subst here
      cases there.symm.trans found
      rw [phase] at owed
      refine ⟨{ h with phase := .returned r }, ?_, rfl, own, ?_⟩
      · simp [System.respond, there]
      · cases owed with
        | ready => exact .returned
    · refine ⟨h, ?_, rfl, own, owed⟩
      simp [System.respond, found, here]
  | timeout j x there phase =>
    by_cases here : k = j
    · subst here
      cases there.symm.trans found
      rw [phase] at owed
      cases owed with
      | waiting at_ =>
        simp [answersInTime, there, at_, own] at ok
    · refine ⟨h, ?_, rfl, own, owed⟩
      simp [System.respond, found, here]
  | consume v item store state' at_ next applied =>
    refine ⟨h, found, rfl, own, ?_⟩
    by_cases here : h.node = v
    · subst here
      exact owed.settled (by simp [at_])
    · exact owed.frame (by simp [System.setReplica, here])
  | dropped v item state' at_ nobody => exact inv.owed_dropped ok at_ nobody found own owed
  | complete v e' state' j at_ taken => exact inv.owed_complete ok at_ taken found own owed
  | cancelAll v =>
    by_cases here : h.node = v
    · subst here
      have free : (s.replicas h.node).consumer ≠ .applied (.command e) state := by
        rw [beq_iff_eq.mp ok]
        simp
      refine ⟨h, ?_, rfl, own, owed.settled free⟩
      simp [found, owed.settle free]
    · have apart := inv.not_pending found here h.command.uuid
      refine ⟨h, ?_, rfl, own, owed.frame ?_⟩
      · simp [found, apart]
      · simp [System.setReplica, here]

theorem Registered.initial : Registered System.initial where
  toRouted := Routed.initial
  waiter := by simp [System.initial]

theorem System.alive_of_cluster {u : System} {v : PeerId} (alive : s.alive m v = true)
    (same : u.cluster = s.cluster) : u.alive m v = true := by
  rw [System.alive, same]
  exact alive

theorem exists_get {r : Result} (found : s.handles[k]? = some h) (alive : s.alive m h.node = true)
    (phase : h.phase = .waiting (.value r)) : ∃ (u : System) (h' : Handle),
      s.step m (.get k) = some u ∧ u.handles[k]? = some h' ∧ h'.phase = .returned r := by
  obtain ⟨node, command, entry, _⟩ := h
  subst phase
  refine ⟨s.respond k r, { node, command, entry, phase := .returned r }, ?_, ?_, rfl⟩
  · simp only [System.step, System.get, found, alive, if_true]
  · simp [System.respond, found]

theorem exists_complete (found : s.handles[k]? = some h) (alive : s.alive m h.node = true)
    (phase : h.phase = .waiting .empty)
    (at_ : (s.replicas h.node).consumer = .applied (.command e) state)
    (taken : (s.replicas h.node).pending e.command.uuid = some k) :
    ∃ (u : System) (h' : Handle), s.step m (.complete h.node) = some u ∧
      u.cluster = s.cluster ∧ u.handles[k]? = some h' ∧ h'.node = h.node ∧
      h'.phase = .waiting (.value ⟨state, some e⟩) := by
  refine ⟨(s.setReplica h.node { s.replicas h.node with
      consumer := .receiving
      pending := Function.update (s.replicas h.node).pending e.command.uuid none }).setHandle k
        (Handle.settle (.value ⟨state, some e⟩)),
    { h with phase := .waiting (.value ⟨state, some e⟩) }, ?_, rfl, ?_, rfl, rfl⟩
  · simp only [System.step, System.complete, at_, alive, taken, if_true]
  · rw [System.setHandle_getElem?]
    simp [System.setReplica, found, Handle.settle, phase]

theorem exists_add (found : s.handles[k]? = some h) (alive : s.alive m h.node = true)
    (phase : h.phase = .started)
    (vacant : (s.replicas h.node).pending h.command.uuid = none) :
    ∃ (u : System) (h' : Handle), s.step m (.add k) = some u ∧ u.cluster = s.cluster ∧
      u.handles[k]? = some h' ∧ h'.phase = .waiting .empty := by
  obtain ⟨node, command, entry, _⟩ := h
  subst phase
  refine ⟨(s.setReplica node { s.replicas node with
      pending := Function.update (s.replicas node).pending command.uuid (some k) }).setHandle k
        fun x => { x with phase := .waiting .empty },
    { node, command, entry, phase := .waiting .empty }, ?_, rfl, ?_, rfl⟩
  · simp only [System.step, System.add, found, alive, vacant, if_true]
  · rw [System.setHandle_getElem?]
    simp [System.setReplica, found]

theorem Registered.exists_return (inv : Registered s) (found : s.handles[k]? = some h)
    (own : h.entry = some e) (owed : Owed (s.replicas h.node) e state h.phase)
    (alive : s.alive m h.node = true) (lives : h.phase ≠ .gone) :
    ∃ (more : List Action) (u : System) (h' : Handle), exec (System.step m) s more = some u ∧
      u.handles[k]? = some h' ∧ h'.phase = .returned ⟨state, some e⟩ := by
  have waiting : ∀ (x : System) (y : Handle), Registered x → x.handles[k]? = some y →
      y.entry = some e → y.node = h.node → x.alive m h.node = true → y.phase = .waiting .empty →
      (x.replicas h.node).consumer = .applied (.command e) state → ∃ (u : System) (h' : Handle),
        exec (System.step m) x [.complete h.node, .get k] = some u ∧ u.handles[k]? = some h' ∧
        h'.phase = .returned ⟨state, some e⟩ := by
    intro x y registered there entry node lives phase at_
    have taken := registered.waiter k y there phase
    rw [← (registered.handle k y there).command e entry] at taken
    rw [← node] at at_ lives ⊢
    obtain ⟨u, z, completed, cluster, there', node', ready⟩ :=
      exists_complete there lives phase at_ taken
    obtain ⟨w, h', got, last, ended⟩ := exists_get there'
      (node' ▸ System.alive_of_cluster lives cluster) ready
    exact ⟨w, h', by simp [exec, completed, got], last, ended⟩
  generalize at_phase : h.phase = phase at owed
  cases owed with
  | started busy =>
    have vacant : (s.replicas h.node).pending h.command.uuid = none := by
      cases taken : (s.replicas h.node).pending h.command.uuid with
      | none => rfl
      | some j => exact absurd taken (inv.not_overwrite found at_phase)
    obtain ⟨x, y, added, cluster, there, waits⟩ := exists_add found alive at_phase vacant
    have moved := System.moves added
    have owes : Owed (s.replicas h.node) e state h.phase := at_phase ▸ .started busy
    obtain ⟨z, there', node, entry, owed⟩ := inv.owed_step rfl moved found own owes
    cases there.symm.trans there'
    rw [waits] at owed
    cases owed with
    | waiting busy' =>
      obtain ⟨u, h', run, last, ended⟩ := waiting x y (inv.step rfl moved) there entry node
        (System.alive_of_cluster alive cluster) waits busy'
      refine ⟨.add k :: [.complete h.node, .get k], u, h', ?_, last, ended⟩
      simp only [exec, added, Option.bind_some]
      exact run
  | waiting busy =>
    obtain ⟨u, h', run, last, ended⟩ := waiting s h inv found own rfl alive at_phase busy
    exact ⟨_, u, h', run, last, ended⟩
  | ready =>
    obtain ⟨u, h', got, last, ended⟩ := exists_get found alive at_phase
    exact ⟨[.get k], u, h', by simp [exec, got], last, ended⟩
  | returned => exact ⟨[], s, h, rfl, found, at_phase⟩
  | gone => exact absurd at_phase lives

end Step

/-- When the answer to a command is handed over after its call has registered and
before it gives up, a call whose command is applied before its time is over returns
the outcome and nothing else. -/
theorem applied_response_returned {m : Membership} {first rest : List Action} {s t : System}
    {v : PeerId}
    (good : Along (System.step m) (fun s a => answersInTime s a = true) System.initial
      (first ++ .consume v :: rest))
    (run : System.run m first = some s)
    (later : exec (System.step m) s (.consume v :: rest) = some t) {k : ℕ} {h : Handle}
    {e : LogEntry} (call : s.handles[k]? = some h) (here : h.node = v) (own : h.entry = some e)
    (inTime : h.phase = .started ∨ h.phase = .waiting .empty)
    (next : (s.cluster.nodes v).stateMachine[(s.replicas v).received]? = some (.command e)) :
    ∃ state h', (applyItem (s.replicas v).store (.command e)).2 = some state ∧
      state.isNotLeader = false ∧ t.handles[k]? = some h' ∧
      (∀ r, h'.phase = .returned r → r = ⟨state, some e⟩) ∧ h'.phase ≠ .threw ∧
      (h'.phase ≠ .gone → t.alive m v = true → ∃ (more : List Action) (u : System) (h'' : Handle),
        exec (System.step m) t more = some u ∧ u.handles[k]? = some h'' ∧
        h''.phase = .returned ⟨state, some e⟩) := by
  subst here
  have inv := exec_invariant Registered (fun s a t inv ok step => inv.step ok (System.moves step))
    Registered.initial good.left run
  obtain ⟨ok, after⟩ := good.right run
  cases moved : s.step m (.consume h.node) with
  | none => simp [exec, moved] at later
  | some x =>
    simp only [exec, moved, Option.bind_some] at later
    have move := System.moves moved
    have registered := inv.step ok move
    cases move with
    | consume _ item store state at_ there applied =>
      cases next.symm.trans there
      have definite := KV.KVStateMachine.applyCommand_definite
        (congrArg Prod.snd applied : (applyItem _ (.command e)).2 = some state)
      have owed : Owed { s.replicas h.node with
          store
          received := (s.replicas h.node).received + 1
          consumer := .applied (.command e) state } e state h.phase := by
        rcases inTime with phase | phase
        · exact phase ▸ .started rfl
        · exact phase ▸ .waiting rfl
      obtain ⟨registered', h', found', node, entry, owed'⟩ := exec_invariant
        (fun u : System => Registered u ∧ ∃ h' : Handle, u.handles[k]? = some h' ∧
          h'.node = h.node ∧ h'.entry = some e ∧ Owed (u.replicas h.node) e state h'.phase)
        (by
          rintro u a w ⟨registered, h', found, node, entry, owed⟩ ok step
          have move := System.moves step
          rw [← node] at owed
          obtain ⟨z, there, node', entry', owed'⟩ := registered.owed_step ok move found entry owed
          exact ⟨registered.step ok move, z, there, node'.trans node, entry', node ▸ owed'⟩)
        ⟨registered, h, call, rfl, own, by simpa [System.setReplica] using owed⟩
        (after _ moved) later
      refine ⟨state, h', congrArg Prod.snd applied, definite, found', ?_, ?_, fun lives alive => ?_⟩
      · intro r ended
        rw [ended] at owed'
        cases owed'
        rfl
      · intro threw
        rw [threw] at owed'
        cases owed'
      · exact registered'.exists_return found' entry (node ▸ owed') (node ▸ alive) lives

def registerFirst : List Action :=
  leaderA ++ [.invoke "a" (List.replicate 16 1) setRequest, .start 0, .add 0] ++ commitWithB

def commitFirst : List Action :=
  leaderA ++ [.invoke "a" (List.replicate 16 1) setRequest, .start 0] ++ commitWithB

def setEntry : LogEntry := ⟨1, 1, ⟨Vector.replicate 16 1, setRequest⟩⟩

theorem applied_response_returned_set : ∃ (s t : System) (h : Handle),
    Along (System.step threePeers) (fun s a => answersInTime s a = true) System.initial
      (registerFirst ++ .consume "a" :: [.complete "a", .get 0]) ∧
    System.run threePeers registerFirst = some s ∧
    exec (System.step threePeers) s (.consume "a" :: [.complete "a", .get 0]) = some t ∧
    s.handles[0]? = some h ∧ h.node = "a" ∧ h.entry = some setEntry ∧
    h.phase = .waiting .empty ∧
    (s.cluster.nodes "a").stateMachine[(s.replicas "a").received]? = some (.command setEntry) ∧
    ∃ state h', (applyItem (s.replicas "a").store (.command setEntry)).2 = some state ∧
      state.isNotLeader = false ∧ t.handles[0]? = some h' ∧
      (∀ r, h'.phase = .returned r → r = ⟨state, some setEntry⟩) ∧ h'.phase ≠ .threw ∧
      (h'.phase ≠ .gone → t.alive threePeers "a" = true →
        ∃ (more : List Action) (u : System) (h'' : Handle),
          exec (System.step threePeers) t more = some u ∧ u.handles[0]? = some h'' ∧
          h''.phase = .returned ⟨state, some setEntry⟩) := by
  have good : Along (System.step threePeers) (fun s a => answersInTime s a = true) System.initial
      (registerFirst ++ .consume "a" :: [.complete "a", .get 0]) := by decide +kernel
  obtain ⟨s, t, h, run, later, call, here, own, inTime, next⟩ : ∃ (s t : System) (h : Handle),
      System.run threePeers registerFirst = some s ∧
      exec (System.step threePeers) s (.consume "a" :: [.complete "a", .get 0]) = some t ∧
      s.handles[0]? = some h ∧ h.node = "a" ∧ h.entry = some setEntry ∧
      h.phase = .waiting .empty ∧
      (s.cluster.nodes "a").stateMachine[(s.replicas "a").received]? =
        some (.command setEntry) := by
    refine ⟨_, _, _, (Option.some_get (by decide +kernel)).symm,
      (Option.some_get (by decide +kernel)).symm, (Option.some_get (by decide +kernel)).symm,
      by decide +kernel, by decide +kernel, by decide +kernel, by decide +kernel⟩
  exact ⟨s, t, h, good, run, later, call, here, own, inTime, next,
    applied_response_returned good run later call here own (Or.inr inTime) next⟩

/-- The consumer thread drops the answer, and the call times out. -/
theorem applied_response_lost : ∃ (s t : System) (h h' : Handle),
    System.run threePeers commitFirst = some s ∧
    exec (System.step threePeers) s (.consume "a" :: [.complete "a", .add 0, .timeout 0]) =
      some t ∧
    Along (System.step threePeers) (fun s a => startsUnique s a = true) System.initial
      (commitFirst ++ .consume "a" :: [.complete "a", .add 0, .timeout 0]) ∧
    s.handles[0]? = some h ∧ h.node = "a" ∧ h.entry = some setEntry ∧ h.phase = .started ∧
    (s.cluster.nodes "a").stateMachine[(s.replicas "a").received]? = some (.command setEntry) ∧
    t.handles[0]? = some h' ∧ h'.phase = .returned (.notLeader "not the leader") := by
  refine ⟨_, _, _, _, (Option.some_get (by decide +kernel)).symm,
    (Option.some_get (by decide +kernel)).symm, by decide +kernel,
    (Option.some_get (by decide +kernel)).symm, by decide +kernel, by decide +kernel,
    by decide +kernel, by decide +kernel, (Option.some_get (by decide +kernel)).symm,
    by decide +kernel⟩

end Zdb.Rsm
