import Zdb.SessionMoves

/-! How often the attempts of one call change the store. A call that is sent again is
told apart from itself by versions alone: a set succeeds once per version, but an
erase starts the versions anew. -/

namespace Zdb.KV
open Resumption LabelledRun

inductive Effect (old new : Option Value) (key : Key) : Payload → Bool → Prop
  | none (payload) (same : new = old) : Effect old new key payload false
  | other (payload) (same : new = old)
      (apart : ∀ value, payload ≠ .set key value ∧ payload ≠ .erase key) :
      Effect old new key payload true
  | created (value) (absent : old = .none) (version : value.version = 0)
      (now : new = some ⟨value.data, 1⟩) : Effect old new key (.set key value) true
  | replaced (value stored) (present : old = some stored)
      (version : value.version = stored.version)
      (now : new = some ⟨value.data, (stored.version + 1) % 2 ^ 64⟩) :
      Effect old new key (.set key value) true
  | erased (stored) (present : old = some stored) (now : new = .none) :
      Effect old new key (.erase key) true

theorem set_effect {store store' : InMemoryKVStore} {k : Key} {value : Value}
    (done : store.set k value = .ok store') (key : Key) :
    Effect (store.get key) (store'.get key) key (.set k value) true := by
  by_cases here : key = k
  · subst here
    rw [InMemoryKVStore.set] at done
    cases found : store.store.lookup key with
    | none =>
      simp only [found] at done
      split_ifs at done with version
      cases done
      exact .created value found (by simpa using version) (AList.lookup_insert _)
    | some stored =>
      simp only [found] at done
      split_ifs at done with version
      cases done
      exact .replaced value stored found (by simpa using version) (AList.lookup_insert _)
  · have apart : ∀ value', Payload.set k value ≠ .set key value' ∧
        Payload.set k value ≠ .erase key := by
      intro value'
      simp [Ne.symm here]
    refine .other _ ?_ apart
    rw [InMemoryKVStore.set] at done
    split at done <;> split_ifs at done <;> cases done <;> exact AList.lookup_insert_ne here

theorem erase_effect (store : InMemoryKVStore) (k key : Key) :
    Effect (store.get key) ((store.erase k).1.get key) key (.erase k)
      (store.erase k).2.isSome := by
  by_cases here : key = k
  · subst here
    cases found : store.store.lookup key with
    | none =>
      simp only [InMemoryKVStore.erase, found, Option.isSome_none]
      refine .none _ ?_
      rw [InMemoryKVStore.get, InMemoryKVStore.get, AList.lookup_erase, found]
    | some stored =>
      simp only [InMemoryKVStore.erase, found, Option.isSome_some]
      exact .erased stored found (AList.lookup_erase _ _)
  · have same : (store.erase k).1.get key = store.get key := AList.lookup_erase_ne here
    cases (store.erase k).2.isSome with
    | false => exact .none _ same
    | true => exact .other _ same (by simp [Ne.symm here])

theorem applyCommand_effect {store store' : InMemoryKVStore} {payload : Payload} {state : State}
    (applied : KVStateMachine.applyCommand store 0 payload = (store', some state)) (key : Key) :
    Effect (store.get key) (store'.get key) key payload (changes payload state) := by
  cases payload with
  | set k value =>
    simp only [KVStateMachine.applyCommand, KVStateMachine.set] at applied
    split at applied
    · rename_i stored done
      cases applied
      exact set_effect done key
    · cases applied
      exact .none _ rfl
  | erase k =>
    cases applied
    have flag : changes (.erase k) ⟨some k, .value (store.erase k).2⟩ =
        (store.erase k).2.isSome := by
      cases (store.erase k).2 <;> rfl
    have effect := erase_effect store k key
    rw [← flag] at effect
    exact effect
  | rmsCommand data => cases applied
  | _ =>
    cases applied
    exact .none _ rfl

def Applied.stores (key : Key) (a : Applied) : Bool :=
  a.changed && match a.payload with
    | .set k _ => k == key
    | _ => false

def Applied.erases (key : Key) (a : Applied) : Bool := a.changed && a.payload == .erase key

/-- What came after the request leaves no room for it to change the store again: after
a set no erase and no full turn of the versions, after an erase no set. -/
def calm (payload : Payload) (later : List Applied) : Bool :=
  match payload with
  | .set key _ => later.all (fun a => !a.erases key) &&
      decide (later.countP (Applied.stores key) + 1 < 2 ^ 64)
  | .erase key => later.all fun a => !a.stores key
  | _ => true

def Fenced (store : InMemoryKVStore) (payload : Payload) (later : List Applied) : Prop :=
  match payload with
  | .set key value => (∀ a ∈ later, a.erases key = false) → ∃ stored, store.get key = some stored ∧
      stored.version = (value.version + 1 + later.countP (Applied.stores key)) % 2 ^ 64
  | .erase key => (∀ a ∈ later, a.stores key = false) → store.get key = none
  | _ => True

section Fence
variable {store store' : InMemoryKVStore} {payload : Payload} {state : State}

theorem Fenced.fresh (applied : KVStateMachine.applyCommand store 0 payload = (store', some state))
    (changed : changes payload state = true) : Fenced store' payload [] := by
  cases payload with
  | set key value =>
    intro _
    have effect := applyCommand_effect applied key
    rw [changed] at effect
    cases effect with
    | other _ same apart => exact absurd rfl (apart value).1
    | created _ absent version now => exact ⟨_, now, by simp [version]⟩
    | replaced _ stored present version now => exact ⟨_, now, by simp [version]⟩
  | erase key =>
    intro _
    have effect := applyCommand_effect applied key
    rw [changed] at effect
    cases effect with
    | other _ same apart => exact absurd rfl (apart ⟨[], 0⟩).2
    | erased stored present now => exact now
  | _ => trivial

theorem Fenced.later {earlier : Payload} {later : List Applied} {a : Applied}
    (fenced : Fenced store earlier later) (own : a.payload = payload)
    (flag : a.changed = changes payload state)
    (applied : KVStateMachine.applyCommand store 0 payload = (store', some state)) :
    Fenced store' earlier (later ++ [a]) := by
  have effect := applyCommand_effect applied
  rw [← flag, ← own] at effect
  obtain ⟨call, payload', status, changed⟩ := a
  simp only at effect
  cases earlier with
  | set key value =>
    intro quiet
    obtain ⟨stored, found, version⟩ := fenced fun x mem => quiet x (List.mem_append_left _ mem)
    rw [List.countP_append, List.countP_singleton]
    cases effect key with
    | none _ same => exact ⟨stored, same.trans found, by simp [Applied.stores, version]⟩
    | other _ same apart =>
      have silent : Applied.stores key ⟨call, payload', status, true⟩ = false := by
        cases payload' with
        | set k v =>
          have other : k ≠ key := fun here => (apart v).1 (by rw [here])
          simp [Applied.stores, other]
        | _ => rfl
      exact ⟨stored, same.trans found, by simp [silent, version]⟩
    | created _ absent => cases found.symm.trans absent
    | replaced v stored' present _ now =>
      cases found.symm.trans present
      have more : Applied.stores key ⟨call, .set key v, status, true⟩ = true := by
        simp [Applied.stores]
      refine ⟨_, now, ?_⟩
      simp only [more, if_true, version]
      omega
    | erased _ present now =>
      have broken := quiet ⟨call, .erase key, status, true⟩ (by simp)
      simp [Applied.erases] at broken
  | erase key =>
    intro quiet
    have absent := fenced fun x mem => quiet x (List.mem_append_left _ mem)
    have last := quiet ⟨call, payload', status, changed⟩ (by simp)
    cases effect key with
    | none _ same => exact same.trans absent
    | other _ same apart => exact same.trans absent
    | created v => simp [Applied.stores] at last
    | replaced v => simp [Applied.stores] at last
    | erased stored present => cases absent.symm.trans present
  | _ => trivial

theorem Fenced.unchanged {later : List Applied} (fenced : Fenced store payload later)
    (quiet : calm payload later = true)
    (applied : KVStateMachine.applyCommand store 0 payload = (store', some state)) :
    changes payload state = false := by
  have effect := applyCommand_effect applied
  by_contra changed
  rw [Bool.not_eq_false] at changed
  rw [changed] at effect
  cases payload with
  | set key value =>
    simp only [calm, Bool.and_eq_true, List.all_eq_true, Bool.not_eq_true',
      decide_eq_true_eq] at quiet
    obtain ⟨stored, found, version⟩ := fenced quiet.1
    cases effect key with
    | other _ same apart => exact (apart value).1 rfl
    | created _ absent => cases found.symm.trans absent
    | replaced _ stored' present again =>
      cases found.symm.trans present
      omega
  | erase key =>
    simp only [calm, List.all_eq_true, Bool.not_eq_true'] at quiet
    have absent := fenced quiet
    cases effect key with
    | other _ same apart => exact (apart ⟨[], 0⟩).2 rfl
    | erased stored present => cases absent.symm.trans present
  | _ =>
    simp [changes] at changed

end Fence

def undisturbed (call : ℕ) : List Applied → Bool
  | [] => true
  | a :: later => (a.call != call || !a.changed || calm a.payload later) && undisturbed call later

theorem undisturbed_calm {call : ℕ} {a : Applied} {before later : List Applied}
    (quiet : undisturbed call (before ++ a :: later) = true) (own : a.call = call)
    (changed : a.changed = true) : calm a.payload later = true := by
  induction before with
  | nil => simpa [undisturbed, own, changed] using ((Bool.and_eq_true _ _).mp quiet).1
  | cons b before ih => exact ih ((Bool.and_eq_true _ _).mp quiet).2

/-- No attempt reaches the store after one of its own call that has changed it, unless
nothing has made room for another change. -/
def retriesUndisturbed (s : Sessions) : SessionAction → Bool
  | .apply i => match s.attempts[i]? with
      | some x => undisturbed x.call s.applied
      | none => true
  | _ => true

def Sessions.changesOf (s : Sessions) (call : ℕ) : ℕ :=
  s.applied.countP fun a => a.call == call && a.changed

structure Effective (s : Sessions) : Prop extends s.Sound where
  fenced : ∀ before a later, s.applied = before ++ a :: later → a.changed = true →
    Fenced s.store a.payload later
  once : ∀ call, s.changesOf call ≤ 1

namespace Effective
variable {s t : Sessions} {a : SessionAction}

theorem initial (configs : ℕ → Config) :
    Effective { clients := fun k => { config := configs k } } :=
  ⟨Sessions.Sound.initial configs, by simp, by simp [Sessions.changesOf]⟩

theorem step_fenced (inv : Effective s) (move : SessionMoves s a t) {before : List Applied}
    {x : Applied} {later : List Applied} (split : t.applied = before ++ x :: later)
    (changed : x.changed = true) : Fenced t.store x.payload later := by
  cases move with
  | apply i call uuid payload visit store state found applied =>
    rcases List.eq_nil_or_concat later with rfl | ⟨later', last, rfl⟩
    · obtain ⟨-, same⟩ := List.append_inj' split rfl
      cases same
      exact Fenced.fresh applied changed
    · rw [List.concat_eq_append, ← List.cons_append, ← List.append_assoc] at split
      obtain ⟨earlier, same⟩ := List.append_inj' split rfl
      cases same
      rw [List.concat_eq_append]
      exact (inv.fenced before x later' earlier changed).later rfl rfl applied
  | _ => exact inv.fenced before x later split changed

theorem attempt_unchanged (inv : Effective s) {i call visit : ℕ} {uuid : UUIDV7}
    {payload : Payload} {store : InMemoryKVStore} {state : State}
    (found : s.attempts[i]? = some ⟨call, ⟨uuid, payload⟩, visit⟩)
    (ok : retriesUndisturbed s (.apply i) = true) (already : 0 < s.changesOf call)
    (applied : KVStateMachine.applyCommand s.store 0 payload = (store, some state)) :
    changes payload state = false := by
  obtain ⟨x, mem, first⟩ := List.countP_pos_iff.mp already
  simp only [Bool.and_eq_true, beq_iff_eq] at first
  obtain ⟨record, there, own⟩ := inv.attempt _ (List.mem_of_getElem? found)
  obtain ⟨record', there', own'⟩ := inv.applied x mem
  rw [first.1] at there'
  cases there.symm.trans there'
  obtain ⟨before, later, split⟩ := List.append_of_mem mem
  have fenced := inv.fenced before x later split first.2
  simp only [retriesUndisturbed, found, split] at ok
  have quiet := undisturbed_calm ok first.1 first.2
  rw [own', ← own] at fenced quiet
  exact fenced.unchanged quiet applied

theorem step (inv : Effective s) (ok : retriesUndisturbed s a = true) (move : SessionMoves s a t) :
    Effective t := by
  refine ⟨inv.toSound.step move, fun before x later => inv.step_fenced move, fun c => ?_⟩
  have before := inv.once c
  cases move with
  | apply i call uuid payload visit store state found applied =>
    have added : Sessions.changesOf { s with
        store
        applied := s.applied ++ [⟨call, payload, KVStoreServiceImpl.status payload state,
          changes payload state⟩] } c =
        s.changesOf c + if call == c && changes payload state then 1 else 0 := by
      rw [Sessions.changesOf, List.countP_append, List.countP_singleton]
      rfl
    rw [added]
    by_cases here : call = c
    · subst here
      rcases Nat.eq_zero_or_pos (s.changesOf call) with none | already
      · rw [none]
        split_ifs <;> omega
      · rw [inv.attempt_unchanged found ok already applied]
        simpa using before
    · simpa [here] using before
  | _ => exact before

end Effective

/-- The attempts of one call change the store at most once, as long as nothing makes
room for a second change between them. -/
theorem call_changes_store_once {configs : ℕ → Config} {actions : List SessionAction} {s : Sessions}
    (good : Along Sessions.step (fun s a => retriesUndisturbed s a = true)
      { clients := fun k => { config := configs k } } actions)
    (run : Sessions.run configs actions = some s) (call : ℕ) : s.changesOf call ≤ 1 := by
  have inv := exec_invariant Effective
    (fun s a t inv ok step => inv.step ok (Sessions.moves step)) (Effective.initial configs) good
    run
  exact inv.once call

def patient : RetryPolicy := ⟨1000, 2000, 1000000, 2, 1, by decide, by decide, by decide⟩

def oneServer (_ : ℕ) : Config := ⟨patient, [{ address := "s" }], 1, 1⟩

def deadlineExceeded : Status := .error ⟨.deadlineExceeded, "Deadline Exceeded", none⟩

def begins (k : ℕ) (op : Op) : List SessionAction :=
  [.call k op, .observe k k, .observe k 1, .observe k 1, .observe k 0, .send k]

def sendsAgain (k : ℕ) : List SessionAction :=
  [.answer k deadlineExceeded, .observe k 0, .observe k 0, .observe k 0, .send k]

def setTwice : List SessionAction :=
  begins 0 (.set ⟨[107]⟩ ⟨[118], 0⟩) ++ [.apply 0] ++ sendsAgain 0 ++ [.apply 1]

theorem call_changes_store_once_set : ∃ s,
    Along Sessions.step (fun s a => retriesUndisturbed s a = true)
      { clients := fun k => { config := oneServer k } } setTwice ∧
    Sessions.run oneServer setTwice = some s ∧ s.applied.map Applied.changed = [true, false] ∧
    s.changesOf 0 ≤ 1 := by
  have good : Along Sessions.step (fun s a => retriesUndisturbed s a = true)
      { clients := fun k => { config := oneServer k } } setTwice := by decide +kernel
  obtain ⟨s, run, flags⟩ : ∃ s, Sessions.run oneServer setTwice = some s ∧
      s.applied.map Applied.changed = [true, false] := by
    refine ⟨_, (Option.some_get (by decide +kernel)).symm, by decide +kernel⟩
  exact ⟨s, good, run, flags, call_changes_store_once good run 0⟩

def setEraseSet : List SessionAction :=
  begins 0 (.set ⟨[107]⟩ ⟨[118], 0⟩) ++ [.apply 0] ++ sendsAgain 0 ++
    begins 1 (.erase ⟨[107]⟩) ++ [.apply 2, .apply 1]

/-- One call of `set` stores its value twice. -/
theorem call_changes_store_twice : ∃ s, Sessions.run oneServer setEraseSet = some s ∧
    s.applied.map (fun a => (a.call, a.changed)) = [(0, true), (1, true), (0, true)] ∧
    s.changesOf 0 = 2 := by
  refine ⟨_, (Option.some_get (by decide +kernel)).symm, by decide +kernel, by decide +kernel⟩

end Zdb.KV
