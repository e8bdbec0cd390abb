import Zdb.ClientEffects
import Zdb.Lock

/-! Mutual exclusion of `Lock`. A client that holds the lock finds its own token under
the key, in version 1, because only the requests of a `release` take it away. Those
requests do not say whose token they are for: an `erase`, or a `set` of version 1, that
comes late takes away the token of another client. -/

namespace Zdb.KV
open Resumption LabelledRun

def freshToken (s : Locks) : LockAction → Bool
  | .acquire _ token => s.purposes.all fun line =>
      line.acquires != some token && line.releases != some token
  | _ => true

def Line.withdraws : Line → Option Bytes
  | .bumping c => some c
  | .erasing c => some c
  | _ => none

/-- A request of a `release` that reaches the store finds the key absent or with the
token it was sent for. -/
def withdrawsOwn (key : Key) (s : Locks) : LockAction → Bool
  | .session (.apply i) => match s.sessions.attempts[i]? with
      | some x => match (s.purposes[x.call]?).bind Line.withdraws with
          | some c => (s.sessions.store.get key).all fun v => v.data == c
          | none => true
      | none => true
  | _ => true

inductive Enters (key : Key) (s : Locks) (k : ℕ) (line : Line) : Locks → Prop
  | rest (silent : line.op key = none) :
      Enters key s k line { s with lines := Function.update s.lines k line }
  | call (op sessions) (calls : line.op key = some op)
      (move : SessionMoves s.sessions (.call k op) sessions) :
      Enters key s k line
        ⟨sessions, Function.update s.lines k line, s.purposes ++ [line]⟩

inductive LockMoves (key : Key) (s : Locks) : LockAction → Locks → Prop
  | acquire (k token t) (outside : s.lines k = .outside)
      (enters : Enters key s k (.creating token) t) : LockMoves key s (.acquire k token) t
  | release (k token t) (holds : s.lines k = .holding token)
      (enters : Enters key s k (.reading token) t) : LockMoves key s (.release k) t
  | session (a sessions) (inner : a.isInner = true) (move : SessionMoves s.sessions a sessions) :
      LockMoves key s (.session a) { s with sessions }
  | proceed (k call result config heard sent sessions t)
      (at_ : (s.sessions.clients k).running = some ⟨call, .done (result, config), heard, sent⟩)
      (move : SessionMoves s.sessions (.finish k) sessions)
      (enters : Enters key { s with sessions } k ((s.lines k).next result) t) :
      LockMoves key s (.proceed k) t

theorem Locks.enters {key : Key} {s t : Locks} {k : ℕ} {line : Line}
    (enter : s.enter key k line = some t) : Enters key s k line t := by
  rw [Locks.enter] at enter
  cases calls : line.op key with
  | none =>
    simp only [calls, Option.some.injEq] at enter
    subst enter
    exact .rest calls
  | some op =>
    simp only [calls] at enter
    obtain ⟨sessions, step, rfl⟩ := Option.map_eq_some_iff.mp enter
    exact .call op sessions calls (Sessions.moves step)

theorem Locks.moves {key : Key} {s t : Locks} {a : LockAction} (step : s.step key a = some t) :
    LockMoves key s a t := by
  cases a with
  | acquire k token =>
    simp only [Locks.step] at step
    split_ifs at step with outside
    exact .acquire k token t outside (Locks.enters step)
  | release k =>
    simp only [Locks.step] at step
    split at step
    · rename_i token holds
      exact .release k token t holds (Locks.enters step)
    · contradiction
  | session a =>
    simp only [Locks.step] at step
    split_ifs at step with inner
    obtain ⟨sessions, moved, rfl⟩ := Option.map_eq_some_iff.mp step
    exact .session a sessions inner (Sessions.moves moved)
  | proceed k =>
    simp only [Locks.step, Locks.proceed] at step
    split at step
    · rename_i at_
      obtain ⟨sessions, moved, entered⟩ := Option.bind_eq_some_iff.mp step
      exact .proceed k _ _ _ _ _ sessions t at_ (Sessions.moves moved) (Locks.enters entered)
    · contradiction

def Made (key : Key) (applied : List Applied) (token : Bytes) : Prop :=
  ∃ a ∈ applied, a.changed = true ∧ a.payload = .set key ⟨token, 0⟩

theorem Made.mono {key : Key} {applied : List Applied} {token : Bytes} (more : List Applied)
    (made : Made key applied token) : Made key (applied ++ more) token := by
  obtain ⟨a, mem, rest⟩ := made
  exact ⟨a, List.mem_append_left _ mem, rest⟩

structure LockStore (key : Key) (s : Sessions) : Prop where
  version : ∀ v, s.store.get key = some v → v.version = 1 ∨ v.version = 2
  one : ∀ token, s.store.get key = some ⟨token, 1⟩ → Made key s.applied token
  seen : ∀ a ∈ s.applied, a.payload = .get key →
    ∀ token, a.status = .ok (.value ⟨token, 1⟩) → Made key s.applied token
  stored : ∀ a ∈ s.applied, ∀ value, a.payload = .set key value →
    ∀ reply, a.status = .ok reply → a.changed = true

structure Admits (key : Key) (s : Locks) (k : ℕ) (line : Line) : Prop where
  alone : ∀ token, line.acquires = some token ∨ line.releases = some token → ∀ j, j ≠ k →
    (s.lines j).acquires ≠ some token ∧ (s.lines j).releases ≠ some token
  unreleased : ∀ token, line.acquires = some token → ∀ l ∈ s.purposes, l.releases ≠ some token
  held : ∀ token, line.acquires = some token → Made key s.sessions.applied token →
    s.sessions.store.get key = some ⟨token, 1⟩
  holds : ∀ token, line = .holding token → Made key s.sessions.applied token

structure Guarded (key : Key) (s : Locks) : Prop where
  sound : s.sessions.Sound
  length : s.purposes.length = s.sessions.records.length
  purpose : ∀ (c : ℕ) (line : Line) (record : Record), s.purposes[c]? = some line →
    s.sessions.records[c]? = some record → line.op key = some record.op
  running : ∀ k r, (s.sessions.clients k).running = some r → s.purposes[r.call]? = some (s.lines k)
  known : ∀ k token, (s.lines k).acquires = some token ∨ (s.lines k).releases = some token →
    ∃ line ∈ s.purposes, line.acquires = some token ∨ line.releases = some token
  line : ∀ k, Admits key s k (s.lines k)
  store : LockStore key s.sessions

namespace Line
variable {key : Key} {line : Line} {op : Op}

theorem op_set {value : Value} (calls : line.op key = some op)
    (own : Payload.set key value = op.payload) :
    (value.version = 0 ∧ line = .creating value.data) ∨
      (value.version = 1 ∧ line = .bumping value.data) := by
  cases line with
  | creating c =>
    cases calls
    cases own
    exact Or.inl ⟨rfl, rfl⟩
  | bumping c =>
    cases calls
    cases own
    exact Or.inr ⟨rfl, rfl⟩
  | outside => cases calls
  | holding c => cases calls
  | _ =>
    cases calls
    cases own

theorem op_erase (calls : line.op key = some op) (own : Payload.erase key = op.payload) :
    ∃ c, line = .erasing c := by
  cases line with
  | erasing c => exact ⟨c, rfl⟩
  | outside => cases calls
  | holding c => cases calls
  | _ =>
    cases calls
    cases own

end Line

section Apply
variable {key : Key} {s : Sessions} {store : InMemoryKVStore} {line : Line} {op : Op}
  {payload : Payload} {state : State}

theorem LockStore.effect (inv : LockStore key s) (calls : line.op key = some op)
    (own : payload = op.payload)
    (applied : KVStateMachine.applyCommand s.store 0 payload = (store, some state)) :
    store.get key = s.store.get key ∨
      (∃ c, line = .creating c ∧ payload = .set key ⟨c, 0⟩ ∧ changes payload state = true ∧
        s.store.get key = none ∧ store.get key = some ⟨c, 1⟩) ∨
      ∃ c stored, line.withdraws = some c ∧ s.store.get key = some stored ∧
        ∀ v, store.get key = some v → v.version = 2 := by
  have effect := applyCommand_effect applied key
  generalize changes payload state = changed at effect ⊢
  cases effect with
  | none _ same => exact Or.inl same
  | other _ same => exact Or.inl same
  | created value absent version now =>
    rcases Line.op_set calls own with ⟨_, rfl⟩ | ⟨one, _⟩
    · obtain ⟨data, _⟩ := value
      cases version
      exact Or.inr (Or.inl ⟨data, rfl, rfl, rfl, absent, now⟩)
    · omega
  | replaced value stored present version now =>
    have versions := inv.version stored present
    rcases Line.op_set calls own with ⟨zero, _⟩ | ⟨one, rfl⟩
    · omega
    · refine Or.inr (Or.inr ⟨value.data, stored, rfl, present, fun v found => ?_⟩)
      cases now.symm.trans found
      dsimp only
      omega
  | erased stored present now =>
    obtain ⟨c, rfl⟩ := Line.op_erase calls own
    refine Or.inr (Or.inr ⟨c, stored, rfl, present, fun v found => ?_⟩)
    cases now.symm.trans found

theorem get_status {v : Value}
    (applied : KVStateMachine.applyCommand s.store 0 (.get key) = (store, some state))
    (replied : KVStoreServiceImpl.status (.get key) state = .ok (.value v)) :
    s.store.get key = some v := by
  cases applied
  simp only [KVStoreServiceImpl.status, KVStoreServiceImpl.valueStatus] at replied
  split at replied
  · cases replied
  · rename_i found
    cases replied
    exact Variant.value.inj found
  · cases replied
  · cases replied

theorem set_status {value : Value} {reply : Reply}
    (applied : KVStateMachine.applyCommand s.store 0 (.set key value) = (store, some state))
    (replied : KVStoreServiceImpl.status (.set key value) state = .ok reply) :
    changes (.set key value) state = true := by
  simp only [KVStateMachine.applyCommand, KVStateMachine.set] at applied
  split at applied
  · cases applied
    rfl
  · cases applied
    cases replied

theorem LockStore.apply (inv : LockStore key s) (calls : line.op key = some op)
    (own : payload = op.payload)
    (applied : KVStateMachine.applyCommand s.store 0 payload = (store, some state)) (call : ℕ) :
    LockStore key { s with
      store
      applied := s.applied ++
        [⟨call, payload, KVStoreServiceImpl.status payload state, changes payload state⟩] } := by
  refine ⟨fun v found => ?_, fun token found => ?_, fun a mem isGet token told => ?_,
    fun a mem value isSet reply told => ?_⟩
  · rcases inv.effect calls own applied with same | ⟨c, _, _, _, _, now⟩ | ⟨_, _, _, _, now⟩
    · exact inv.version v (same.symm.trans found)
    · cases now.symm.trans found
      exact Or.inl rfl
    · exact Or.inr (now v found)
  · rcases inv.effect calls own applied with same | ⟨c, _, isSet, changed, _, now⟩ |
      ⟨_, _, _, _, now⟩
    · exact (inv.one token (same.symm.trans found)).mono _
    · cases now.symm.trans found
      exact ⟨_, List.mem_append_right _ (List.mem_singleton_self _), changed, isSet⟩
    · cases now _ found
  · rcases List.mem_append.mp mem with old | new
    · exact (inv.seen a old isGet token told).mono _
    · cases List.mem_singleton.mp new
      subst isGet
      exact (inv.one token (get_status applied told)).mono _
  · rcases List.mem_append.mp mem with old | new
    · exact inv.stored a old value isSet reply told
    · cases List.mem_singleton.mp new
      subst isSet
      exact set_status applied told

theorem LockStore.made_now (inv : LockStore key s) {token : Bytes} {changed : Bool}
    (effect : Effect (s.store.get key) (store.get key) key payload changed)
    (new : changed = true) (isSet : payload = .set key ⟨token, 0⟩) :
    store.get key = some ⟨token, 1⟩ := by
  cases effect with
  | none _ same => cases new
  | other _ same apart => exact absurd isSet (apart _).1
  | created value absent version now =>
    cases isSet
    exact now
  | replaced value stored present version now =>
    cases isSet
    have versions := inv.version stored present
    simp only at version
    omega
  | erased stored present now => cases isSet

theorem LockStore.same {t : Sessions} (inv : LockStore key s) (store : t.store = s.store)
    (applied : t.applied = s.applied) : LockStore key t := by
  constructor
  · rw [store]
    exact inv.version
  · rw [store, applied]
    exact inv.one
  · rw [applied]
    exact inv.seen
  · rw [applied]
    exact inv.stored

end Apply

namespace Line
variable {key : Key} {line : Line} {result : Except Error Reply} {token : Bytes}

theorem next_acquires (after : (line.next result).acquires = some token) :
    line.acquires = some token := by
  cases line <;> simp only [next] at after <;> (repeat' split at after) <;> exact after

theorem next_releases (after : (line.next result).releases = some token) :
    line.releases = some token := by
  cases line <;> simp only [next] at after <;> (repeat' split at after) <;>
    first | exact after | cases after

theorem not_both (first : line.acquires = some token) : line.releases ≠ some token := by
  cases line <;> simp [acquires, releases] at first ⊢

theorem withdraws_releases (withdraws : line.withdraws = some token) :
    line.releases = some token := by
  cases line with
  | bumping c => exact withdraws
  | erasing c => exact withdraws
  | _ => cases withdraws

theorem waitGet_true {value : Value} (same : KVStoreClient.waitGet value result = some true) :
    result = .ok (.value value) := by
  cases result with
  | error e =>
    simp only [KVStoreClient.waitGet] at same
    split_ifs at same
    cases same
  | ok reply =>
    cases reply with
    | value v =>
      simp only [KVStoreClient.waitGet, Option.some.injEq, decide_eq_true_eq] at same
      rw [same]
    | _ => cases same

theorem next_holding (after : line.next result = .holding token) : line = .holding token ∨
    (line = .creating token ∧ ∃ reply, result = .ok reply) ∨
      (line = .created token ∧ result = .ok (.value ⟨token, 1⟩)) := by
  cases line with
  | holding c => exact Or.inl after
  | creating c =>
    cases result with
    | ok reply =>
      cases after
      exact Or.inr (Or.inl ⟨rfl, reply, rfl⟩)
    | error e => cases after
  | created c =>
    simp only [next] at after
    split at after
    · rename_i same
      cases after
      exact Or.inr (Or.inr ⟨rfl, waitGet_true same⟩)
    · cases after
    · cases after
  | _ =>
    simp only [next] at after
    repeat' split at after
    all_goals cases after

end Line

theorem Admits.enter {key : Key} {s t : Locks} {k : ℕ} {line : Line}
    (others : ∀ j, Admits key s j (s.lines j)) (admits : Admits key s k line)
    (lines : t.lines = Function.update s.lines k line)
    (purposes : ∀ l ∈ t.purposes, l ∈ s.purposes ∨ l = line)
    (store : t.sessions.store = s.sessions.store)
    (applied : t.sessions.applied = s.sessions.applied) (j : ℕ) :
    Admits key t j (t.lines j) := by
  rw [lines]
  by_cases here : j = k
  · subst here
    rw [Function.update_self]
    refine ⟨fun token own i apart => ?_, fun token acquires l mem => ?_, ?_, ?_⟩
    · rw [lines, Function.update_of_ne apart]
      exact admits.alone token own i apart
    · rcases purposes l mem with old | rfl
      · exact admits.unreleased token acquires l old
      · exact l.not_both acquires
    · rw [store, applied]
      exact admits.held
    · rw [applied]
      exact admits.holds
  · rw [Function.update_of_ne here]
    refine ⟨fun token own i apart => ?_, fun token acquires l mem => ?_, ?_, ?_⟩
    · rw [lines]
      by_cases new : i = k
      · subst new
        rw [Function.update_self]
        have mine := fun other => admits.alone token other j here
        exact ⟨fun acquires => own.elim (mine (Or.inl acquires)).1 (mine (Or.inl acquires)).2,
          fun releases => own.elim (mine (Or.inr releases)).1 (mine (Or.inr releases)).2⟩
      · rw [Function.update_of_ne new]
        exact (others j).alone token own i apart
    · rcases purposes l mem with old | rfl
      · exact (others j).unreleased token acquires l old
      · exact fun releases => (admits.alone token (Or.inr releases) j here).1 acquires
    · rw [store, applied]
      exact (others j).held
    · rw [applied]
      exact (others j).holds

namespace Guarded
variable {key : Key} {s t : Locks}

theorem initial (configs : ℕ → Config) : Guarded key (Locks.initial configs) where
  sound := Sessions.Sound.initial configs
  length := rfl
  purpose := by simp [Locks.initial]
  running := by simp [Locks.initial]
  known := by simp [Locks.initial, Line.acquires, Line.releases]
  line k := by constructor <;> simp [Locks.initial, Line.acquires, Line.releases]
  store := by constructor <;> simp [Locks.initial, InMemoryKVStore.get]

theorem exists_purpose (inv : Guarded key s) {c : ℕ} {record : Record}
    (found : s.sessions.records[c]? = some record) :
    ∃ line, s.purposes[c]? = some line ∧ line.op key = some record.op := by
  have inside := (List.getElem?_eq_some_iff.mp found).1
  rw [← inv.length] at inside
  have there := List.getElem?_eq_getElem inside
  exact ⟨_, there, inv.purpose c _ record there found⟩

theorem apply_held (inv : Guarded key s) {i call visit : ℕ} {uuid : UUIDV7} {payload : Payload}
    {store : InMemoryKVStore} {state : State}
    (ok : withdrawsOwn key s (.session (.apply i)) = true)
    (found : s.sessions.attempts[i]? = some ⟨call, ⟨uuid, payload⟩, visit⟩)
    (applied : KVStateMachine.applyCommand s.sessions.store 0 payload = (store, some state))
    {k : ℕ} {token : Bytes} (acquires : (s.lines k).acquires = some token)
    (made : Made key (s.sessions.applied ++ [⟨call, payload,
      KVStoreServiceImpl.status payload state, changes payload state⟩]) token) :
    store.get key = some ⟨token, 1⟩ := by
  obtain ⟨record, there, own⟩ := inv.sound.attempt _ (List.mem_of_getElem? found)
  obtain ⟨line, purpose, calls⟩ := inv.exists_purpose there
  obtain ⟨a, mem, changed, isSet⟩ := made
  rcases List.mem_append.mp mem with old | new
  · have before := (inv.line k).held token acquires ⟨a, old, changed, isSet⟩
    rcases inv.store.effect calls own applied with same | ⟨_, _, _, _, absent, _⟩ |
      ⟨c, stored, withdraws, present, _⟩
    · exact same.trans before
    · cases absent.symm.trans before
    · -- The request was sent for the token it takes away, which no release has.
      simp only at purpose
      simp only [withdrawsOwn, found, purpose, Option.bind_some, withdraws, before,
        Option.all_some, beq_iff_eq] at ok
      subst ok
      have releases := line.withdraws_releases withdraws
      exact absurd releases
        ((inv.line k).unreleased token acquires line (List.mem_of_getElem? purpose))
  · cases List.mem_singleton.mp new
    exact inv.store.made_now (applyCommand_effect applied key) changed isSet

theorem session (inv : Guarded key s) {a : SessionAction} {sessions : Sessions}
    (ok : withdrawsOwn key s (.session a) = true) (old : ∀ k op, a ≠ .call k op)
    (move : SessionMoves s.sessions a sessions) : Guarded key { s with sessions } where
  sound := inv.sound.step move
  length := by
    rw [inv.length]
    cases move with
    | call k op idle => exact absurd rfl (old k op)
    | finish => exact (List.length_modify _ _ _).symm
    | _ => rfl
  purpose c line record purpose found := by
    have inside := (List.getElem?_eq_some_iff.mp purpose).1
    rw [inv.length] at inside
    have before := List.getElem?_eq_getElem inside
    obtain ⟨record', found', same⟩ := move.record_kept before
    cases found.symm.trans found'
    rw [inv.purpose c line _ purpose before, same]
  running k r at_ := by
    rcases move.running_cases at_ with ⟨r', before, progress⟩ | ⟨op, called, _⟩
    · rw [progress.call_eq]
      exact inv.running k r' before
    · exact absurd called (old k op)
  known := inv.known
  line k := by
    refine ⟨(inv.line k).alone, (inv.line k).unreleased, fun token acquires made => ?_,
      fun token holds => ?_⟩
    · cases move with
      | apply i call uuid payload visit store state found applied =>
        exact inv.apply_held ok found applied acquires made
      | _ => exact (inv.line k).held token acquires made
    · obtain ⟨more, applied⟩ := move.applied_append
      rw [applied]
      exact ((inv.line k).holds token holds).mono more
  store := by
    cases move with
    | apply i call uuid payload visit store state found applied =>
      obtain ⟨record, there, own⟩ := inv.sound.attempt _ (List.mem_of_getElem? found)
      obtain ⟨line, _, calls⟩ := inv.exists_purpose there
      exact inv.store.apply calls own applied call
    | _ => exact inv.store.same rfl rfl

theorem enter_rest (inv : Guarded key s) {k : ℕ} {line : Line} (admits : Admits key s k line)
    (idle : (s.sessions.clients k).running = none)
    (known : ∀ token, line.acquires = some token ∨ line.releases = some token →
      ∃ l ∈ s.purposes, l.acquires = some token ∨ l.releases = some token) :
    Guarded key { s with lines := Function.update s.lines k line } where
  sound := inv.sound
  length := inv.length
  purpose := inv.purpose
  running j r at_ := by
    have apart : j ≠ k := by
      rintro rfl
      cases idle.symm.trans at_
    dsimp only
    rw [Function.update_of_ne apart]
    exact inv.running j r at_
  known j token own := by
    dsimp only at own ⊢
    by_cases here : j = k
    · subst here
      rw [Function.update_self] at own
      exact known token own
    · rw [Function.update_of_ne here] at own
      exact inv.known j token own
  line := Admits.enter inv.line admits rfl (fun _ => Or.inl) rfl rfl
  store := inv.store

theorem enter_call (inv : Guarded key s) {k : ℕ} {line : Line} (admits : Admits key s k line)
    {op : Op} {sessions : Sessions} (calls : line.op key = some op)
    (move : SessionMoves s.sessions (.call k op) sessions) :
    Guarded key ⟨sessions, Function.update s.lines k line, s.purposes ++ [line]⟩ where
  sound := inv.sound.step move
  length := by
    cases move
    rw [List.length_append, List.length_append, inv.length]
    rfl
  purpose c l record purpose found := by
    cases move
    rw [List.getElem?_append, inv.length] at purpose
    rw [List.getElem?_append] at found
    split_ifs at purpose found with old
    · exact inv.purpose c l record purpose found
    · rw [List.getElem?_singleton] at purpose found
      split_ifs at purpose found
      cases purpose
      cases found
      exact calls
  running j r at_ := by
    rcases move.running_cases at_ with ⟨r', before, progress⟩ | ⟨op, called, _, rfl⟩
    · have apart : j ≠ k := by
        rintro rfl
        cases move with
        | call k op idle => cases idle.symm.trans before
      have purpose := inv.running j r' before
      dsimp only
      rw [progress.call_eq, Function.update_of_ne apart,
        List.getElem?_append_left (List.getElem?_eq_some_iff.mp purpose).1]
      exact purpose
    · cases called
      dsimp only
      rw [Function.update_self, ← inv.length]
      exact List.getElem?_concat_length
  known j token own := by
    dsimp only at own ⊢
    by_cases here : j = k
    · subst here
      rw [Function.update_self] at own
      exact ⟨line, List.mem_append_right _ (List.mem_singleton_self _), own⟩
    · rw [Function.update_of_ne here] at own
      obtain ⟨l, mem, same⟩ := inv.known j token own
      exact ⟨l, List.mem_append_left _ mem, same⟩
  line := by
    have purposes : ∀ l ∈ s.purposes ++ [line], l ∈ s.purposes ∨ l = line := by
      intro l mem
      rcases List.mem_append.mp mem with old | new
      · exact Or.inl old
      · exact Or.inr (List.mem_singleton.mp new)
    cases move
    exact Admits.enter inv.line admits rfl purposes rfl rfl
  store := by
    cases move
    exact inv.store.same rfl rfl

theorem enter (inv : Guarded key s) {k : ℕ} {line : Line} (admits : Admits key s k line)
    (rest : line.op key = none → (s.sessions.clients k).running = none ∧
      ∀ token, line.acquires = some token ∨ line.releases = some token →
        ∃ l ∈ s.purposes, l.acquires = some token ∨ l.releases = some token)
    (enters : Enters key s k line t) : Guarded key t := by
  cases enters with
  | rest silent =>
    obtain ⟨idle, known⟩ := rest silent
    exact inv.enter_rest admits idle known
  | call op sessions calls move => exact inv.enter_call admits calls move

theorem fresh_unmade (inv : Guarded key s) {k : ℕ} {token : Bytes}
    (fresh : freshToken s (.acquire k token) = true) : ¬ Made key s.sessions.applied token := by
  rintro ⟨a, mem, _, isSet⟩
  obtain ⟨record, found, own⟩ := inv.sound.applied a mem
  obtain ⟨line, purpose, calls⟩ := inv.exists_purpose found
  rw [isSet] at own
  rcases Line.op_set calls own with ⟨_, rfl⟩ | ⟨one, _⟩
  · simp only [freshToken, List.all_eq_true] at fresh
    have unused := fresh _ (List.mem_of_getElem? purpose)
    simp [Line.acquires] at unused
  · cases one

theorem acquire_admits (inv : Guarded key s) {k : ℕ} {token : Bytes}
    (fresh : freshToken s (.acquire k token) = true) : Admits key s k (.creating token) := by
  have unused : ∀ l ∈ s.purposes, l.acquires ≠ some token ∧ l.releases ≠ some token := by
    simpa [freshToken] using fresh
  refine ⟨?_, ?_, ?_, ?_⟩
  · rintro _ (⟨⟨⟩⟩ | ⟨⟨⟩⟩) j apart
    have known := inv.known j token
    by_contra taken
    obtain ⟨l, mem, own⟩ := known (by tauto)
    have := unused l mem
    tauto
  · rintro _ ⟨⟩ l mem
    exact (unused l mem).2
  · rintro _ ⟨⟩ made
    exact absurd made (inv.fresh_unmade fresh)
  · rintro _ ⟨⟩

theorem release_admits (inv : Guarded key s) {k : ℕ} {token : Bytes}
    (holds : s.lines k = .holding token) : Admits key s k (.reading token) := by
  refine ⟨?_, ?_, ?_, ?_⟩
  · rintro _ (⟨⟨⟩⟩ | ⟨⟨⟩⟩)
    exact (inv.line k).alone token (Or.inl (by rw [holds]; rfl))
  · rintro _ ⟨⟩
  · rintro _ ⟨⟩
  · rintro _ ⟨⟩

theorem returns_made (inv : Guarded key s) {k call : ℕ} {result : Except Error Reply}
    {config : Config} {heard : Heard} {sent : Bool}
    (at_ : (s.sessions.clients k).running = some ⟨call, .done (result, config), heard, sent⟩)
    {token : Bytes} (returns : (s.lines k).next result = .holding token) :
    Made key s.sessions.applied token := by
  obtain ⟨record, running⟩ := inv.sound.running k _ at_
  have purpose := inv.running k _ at_
  have calls := inv.purpose call _ record purpose running.found
  have justified := Heard.Explains.justified running.ensures running.told
  have same : ∀ a ∈ s.sessions.applied, a.call = call → a.payload = record.op.payload := by
    intro a mem own
    obtain ⟨record', found, payload⟩ := inv.sound.applied a mem
    rw [own] at found
    cases found.symm.trans running.found
    exact payload
  rcases Line.next_holding returns with holds | ⟨line, reply, ok⟩ | ⟨line, seen⟩
  · exact (inv.line k).holds token holds
  · rw [line] at calls
    obtain ⟨a, mem, own, told⟩ := justified.reply reply ok
    have isSet : a.payload = .set key ⟨token, 0⟩ := by
      rw [same a mem own, ← Option.some.inj calls]
      rfl
    exact ⟨a, mem, inv.store.stored a mem _ isSet reply told, isSet⟩
  · rw [line] at calls
    obtain ⟨a, mem, own, told⟩ := justified.reply _ seen
    have isGet : a.payload = .get key := by
      rw [same a mem own, ← Option.some.inj calls]
      rfl
    exact inv.store.seen a mem isGet token told

theorem proceed_admits (inv : Guarded key s) {k : ℕ} {result : Except Error Reply}
    (made : ∀ token, (s.lines k).next result = .holding token →
      Made key s.sessions.applied token) : Admits key s k ((s.lines k).next result) where
  alone _ own := (inv.line k).alone _ (own.imp Line.next_acquires Line.next_releases)
  unreleased _ acquires := (inv.line k).unreleased _ (Line.next_acquires acquires)
  held _ acquires := (inv.line k).held _ (Line.next_acquires acquires)
  holds := made

theorem step (inv : Guarded key s) {a : LockAction} (fresh : freshToken s a = true)
    (ok : withdrawsOwn key s a = true) (move : LockMoves key s a t) : Guarded key t := by
  cases move with
  | acquire k token t outside enters =>
    exact inv.enter (inv.acquire_admits fresh) (fun silent => by cases silent) enters
  | release k token t holds enters =>
    exact inv.enter (inv.release_admits holds) (fun silent => by cases silent) enters
  | session a sessions inner move =>
    refine inv.session ok ?_ move
    rintro k op rfl
    cases inner
  | proceed k call result config heard sent sessions t at_ move enters =>
    have after : Guarded key { s with sessions } := inv.session rfl (by simp) move
    have made : ∀ token, (s.lines k).next result = .holding token →
        Made key sessions.applied token := by
      intro token returns
      obtain ⟨more, applied⟩ := move.applied_append
      rw [applied]
      exact (inv.returns_made at_ returns).mono more
    refine after.enter (after.proceed_admits made) (fun _ => ⟨?_, fun token own => ?_⟩) enters
    · cases move with
      | finish =>
        rw [s.sessions.setClient_running k k, if_pos rfl]
    · exact after.known k token (own.imp Line.next_acquires Line.next_releases)

end Guarded

/-- At most one client holds the lock, as long as every request of a `release` that
reaches the store finds the key absent or with the token it was sent for. -/
theorem lock_mutual_exclusion {key : Key} {configs : ℕ → Config} {actions : List LockAction}
    {s : Locks}
    (good : Along (Locks.step key) (fun s a => freshToken s a = true ∧ withdrawsOwn key s a = true)
      (Locks.initial configs) actions)
    (run : Locks.run key configs actions = some s) {j k : ℕ} (holdsJ : s.Holds j)
    (holdsK : s.Holds k) : j = k := by
  have inv := exec_invariant (Guarded key)
    (fun s a t inv ok step => inv.step ok.1 ok.2 (Locks.moves step)) (Guarded.initial configs)
    good run
  obtain ⟨c, atJ⟩ := holdsJ
  obtain ⟨d, atK⟩ := holdsK
  have mineJ : (s.lines j).acquires = some c := by
    rw [atJ]
    rfl
  have mineK : (s.lines k).acquires = some d := by
    rw [atK]
    rfl
  have storedJ := (inv.line j).held c mineJ ((inv.line j).holds c atJ)
  have storedK := (inv.line k).held d mineK ((inv.line k).holds d atK)
  cases storedJ.symm.trans storedK
  by_contra apart
  exact ((inv.line k).alone c (Or.inl mineK) j apart).1 mineJ

def asks (k : ℕ) : List LockAction :=
  [.observe k k, .observe k 1, .observe k 1, .observe k 0, .send k].map .session

def hears (k : ℕ) (status : Status) : List LockAction :=
  [.session (.answer k status), .session (.observe k 0), .proceed k]

def serves (k i : ℕ) (status : Status) : List LockAction :=
  asks k ++ [.session (.apply i)] ++ hears k status

def takeTurns : List LockAction :=
  [.acquire 0 [97]] ++ serves 0 0 (.ok .done) ++ [.release 0] ++
    serves 0 1 (.ok (.value ⟨[97], 1⟩)) ++ serves 0 2 (.ok .done) ++
    serves 0 3 (.ok (.value ⟨[97], 2⟩)) ++ [.acquire 1 [98]] ++ serves 1 4 (.ok .done)

theorem lock_mutual_exclusion_turns : ∃ s,
    Along (Locks.step ⟨[107]⟩) (fun s a => freshToken s a = true ∧ withdrawsOwn ⟨[107]⟩ s a = true)
      (Locks.initial oneServer) takeTurns ∧
    Locks.run ⟨[107]⟩ oneServer takeTurns = some s ∧ s.Holds 1 ∧ ∀ j, s.Holds j → j = 1 := by
  have good : Along (Locks.step ⟨[107]⟩)
      (fun s a => freshToken s a = true ∧ withdrawsOwn ⟨[107]⟩ s a = true)
      (Locks.initial oneServer) takeTurns := by decide +kernel
  obtain ⟨s, run, holds⟩ : ∃ s, Locks.run ⟨[107]⟩ oneServer takeTurns = some s ∧ s.Holds 1 :=
    ⟨_, (Option.some_get (by decide +kernel)).symm, [98], by decide +kernel⟩
  exact ⟨s, good, run, holds, fun j other => lock_mutual_exclusion good run other holds⟩

/-- The first `erase` of client 0 is delayed until client 1 has acquired the lock. -/
def lateErase : List LockAction :=
  [.acquire 0 [97]] ++ serves 0 0 (.ok .done) ++ [.release 0] ++
    serves 0 1 (.ok (.value ⟨[97], 1⟩)) ++ serves 0 2 (.ok .done) ++
    asks 0 ++ hears 0 deadlineExceeded ++ serves 0 4 (.ok (.value ⟨[97], 2⟩)) ++
    serves 0 5 (.ok (.value ⟨[97], 2⟩)) ++ serves 0 6 (.ok (.value ⟨[97], 2⟩)) ++
    [.acquire 1 [98]] ++ serves 1 7 (.ok .done) ++ [.session (.apply 3), .acquire 2 [99]] ++
    serves 2 8 (.ok .done)

/-- The late `erase` takes away the token of client 1, and client 2 acquires the lock
that client 1 holds. -/
theorem lock_held_twice : ∃ s,
    Along (Locks.step ⟨[107]⟩) (fun s a => freshToken s a = true)
      (Locks.initial oneServer) lateErase ∧
    Locks.run ⟨[107]⟩ oneServer lateErase = some s ∧ s.Holds 1 ∧ s.Holds 2 := by
  refine ⟨_, by decide +kernel, (Option.some_get (by decide +kernel)).symm, ⟨[98], ?_⟩, [99], ?_⟩
  · decide +kernel
  · decide +kernel

end Zdb.KV
