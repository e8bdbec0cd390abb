import Zdb.Sessions

/-! What one step of the sessions can do, and what holds in all of them: every attempt
carries the request of its call, and what a call returns is the status of one of its
attempts that has reached the store, or says nothing of the store. -/

namespace Zdb.KV
open Resumption LabelledRun

def Told (applied : List Applied) (call : ℕ) (status : Status) : Prop :=
  lost status = true ∨ ∃ a ∈ applied, a.call = call ∧ a.status = status

theorem Told.mono {applied : List Applied} {call : ℕ} {status : Status} (more : List Applied)
    (told : Told applied call status) : Told (applied ++ more) call status := by
  rcases told with gone | ⟨a, mem, same⟩
  · exact Or.inl gone
  · exact Or.inr ⟨a, List.mem_append_left _ mem, same⟩

inductive SessionMoves (s : Sessions) : SessionAction → Sessions → Prop
  | call (k op) (idle : (s.clients k).running = none) : SessionMoves s (.call k op)
      { s.setRunning k ⟨s.records.length, op.run (s.clients k).config, [], false⟩ with
        records := s.records ++ [{ op }] }
  | send (k call address request next heard)
      (at_ : (s.clients k).running = some ⟨call, .ask (.rpc address request) next, heard, false⟩) :
      SessionMoves s (.send k)
        { s.setRunning k ⟨call, .ask (.rpc address request) next, heard, true⟩ with
          attempts := s.attempts ++ [⟨call, request, heard.visits⟩] }
  | answer (k status call address request next heard)
      (at_ : (s.clients k).running = some ⟨call, .ask (.rpc address request) next, heard, true⟩)
      (told : Told s.applied call status) :
      SessionMoves s (.answer k status) (s.setRunning k
        ⟨call, next status, heard ++ [⟨.rpc address request, status⟩], false⟩)
  | observe (k n call e next heard r)
      (at_ : (s.clients k).running = some ⟨call, .ask e next, heard, false⟩)
      (decoded : e.decode n = some r) :
      SessionMoves s (.observe k n) (s.setRunning k ⟨call, next r, heard ++ [⟨e, r⟩], false⟩)
  | apply (i call uuid payload visit store state)
      (found : s.attempts[i]? = some ⟨call, ⟨uuid, payload⟩, visit⟩)
      (applied : KVStateMachine.applyCommand s.store 0 payload = (store, some state)) :
      SessionMoves s (.apply i) { s with
        store
        applied := s.applied ++
          [⟨call, payload, KVStoreServiceImpl.status payload state, changes payload state⟩] }
  | finish (k call result config heard sent)
      (at_ : (s.clients k).running = some ⟨call, .done (result, config), heard, sent⟩) :
      SessionMoves s (.finish k) { s.setClient k ⟨config, none⟩ with
        records := s.records.modify call fun r =>
          { r with returned := some (result, s.applied.length) } }

theorem Sessions.moves {s t : Sessions} {a : SessionAction} (step : s.step a = some t) :
    SessionMoves s a t := by
  cases a with
  | call k op =>
    simp only [Sessions.step, Sessions.call] at step
    split at step
    · contradiction
    · rename_i idle
      cases step
      exact .call k op idle
  | send k =>
    simp only [Sessions.step, Sessions.send] at step
    split at step
    · rename_i at_
      cases step
      exact .send k _ _ _ _ _ at_
    · contradiction
  | answer k status =>
    simp only [Sessions.step, Sessions.answer] at step
    split at step
    · rename_i at_
      split_ifs at step with told
      cases step
      exact .answer k status _ _ _ _ _ at_ (by simpa [Told] using told)
    · contradiction
  | observe k n =>
    simp only [Sessions.step, Sessions.observe] at step
    split at step
    · rename_i at_
      obtain ⟨r, decoded, rfl⟩ := Option.map_eq_some_iff.mp step
      exact .observe k n _ _ _ _ r at_ decoded
    · contradiction
  | apply i =>
    simp only [Sessions.step, Sessions.apply] at step
    split at step
    · rename_i found
      split at step
      · rename_i applied
        cases step
        exact .apply i _ _ _ _ _ _ found applied
      · contradiction
    · contradiction
  | finish k =>
    simp only [Sessions.step, Sessions.finish] at step
    split at step
    · rename_i at_
      cases step
      exact .finish k _ _ _ _ _ at_
    · contradiction

namespace Sessions

theorem setClient_running (s : Sessions) (j k : ℕ) (c : Client) :
    ((s.setClient k c).clients j).running = if j = k then c.running else (s.clients j).running := by
  rw [setClient]
  by_cases here : j = k
  · subst here
    simp
  · simp [here]

theorem setRunning_running (s : Sessions) (j k : ℕ) (r : Running) :
    ((s.setRunning k r).clients j).running = if j = k then some r else (s.clients j).running :=
  s.setClient_running j k _

end Sessions

inductive Progress (applied : List Applied) : Running → Running → Prop
  | same (r) : Progress applied r r
  | sent (r) : Progress applied r { r with sent := true }
  | heard (call e next heard out x) (told : ∀ address request status,
      (⟨e, x⟩ : Exchange Ask Ask.Answer) = ⟨.rpc address request, status⟩ →
        Told applied call status) :
      Progress applied ⟨call, .ask e next, heard, out⟩
        ⟨call, next x, heard ++ [⟨e, x⟩], false⟩

theorem Progress.call_eq {applied : List Applied} {r r' : Running}
    (progress : Progress applied r r') : r'.call = r.call := by
  cases progress <;> rfl

namespace SessionMoves
variable {s t : Sessions} {a : SessionAction}

theorem applied_append (move : SessionMoves s a t) : ∃ more, t.applied = s.applied ++ more := by
  cases move with
  | apply => exact ⟨_, rfl⟩
  | _ => exact ⟨[], (List.append_nil _).symm⟩

theorem record_kept (move : SessionMoves s a t) {c : ℕ} {record : Record}
    (found : s.records[c]? = some record) : ∃ record', t.records[c]? = some record' ∧
      record'.op = record.op := by
  cases move with
  | call k op idle =>
    refine ⟨record, ?_, rfl⟩
    rw [List.getElem?_append_left (List.getElem?_eq_some_iff.mp found).1]
    exact found
  | finish k call result config heard sent at_ =>
    rw [List.getElem?_modify, found]
    refine ⟨_, rfl, ?_⟩
    dsimp only
    split_ifs <;> rfl
  | _ => exact ⟨record, found, rfl⟩

theorem record_cases (move : SessionMoves s a t) {c : ℕ} {record : Record}
    (found : t.records[c]? = some record) : s.records[c]? = some record ∨
      (∃ k op, a = .call k op ∧ c = s.records.length ∧ record = { op }) ∨
      ∃ k result config heard sent record', a = .finish k ∧
        (s.clients k).running = some ⟨c, .done (result, config), heard, sent⟩ ∧
        s.records[c]? = some record' ∧
        record = { record' with returned := some (result, s.applied.length) } := by
  cases move with
  | call k op idle =>
    rw [List.getElem?_append] at found
    split_ifs at found with old
    · exact Or.inl found
    · rw [List.getElem?_singleton] at found
      split_ifs at found with last
      cases found
      exact Or.inr (Or.inl ⟨k, op, rfl, by omega, rfl⟩)
  | finish k call result config heard sent at_ =>
    rw [List.getElem?_modify] at found
    obtain ⟨record', before, same⟩ := Option.map_eq_some_iff.mp found
    split_ifs at same with here
    · subst here
      exact Or.inr (Or.inr ⟨k, result, config, heard, sent, record', rfl, at_, before, same.symm⟩)
    · subst same
      exact Or.inl before
  | _ => exact Or.inl found

theorem running_cases (move : SessionMoves s a t) {j : ℕ} {r : Running}
    (there : (t.clients j).running = some r) :
    (∃ r', (s.clients j).running = some r' ∧ Progress s.applied r' r) ∨
      ∃ op, a = .call j op ∧ (s.clients j).running = none ∧
        r = ⟨s.records.length, op.run (s.clients j).config, [], false⟩ := by
  cases move with
  | call k op idle =>
    replace there := (s.setRunning_running j k _).symm.trans there
    split_ifs at there with same
    · subst same
      cases there
      exact Or.inr ⟨op, rfl, idle, rfl⟩
    · exact Or.inl ⟨r, there, .same r⟩
  | send k call address request next heard at_ =>
    replace there := (s.setRunning_running j k _).symm.trans there
    split_ifs at there with same
    · subst same
      cases there
      exact Or.inl ⟨_, at_, .sent _⟩
    · exact Or.inl ⟨r, there, .same r⟩
  | answer k status call address request next heard at_ told =>
    replace there := (s.setRunning_running j k _).symm.trans there
    split_ifs at there with same
    · subst same
      cases there
      refine Or.inl ⟨_, at_, .heard _ _ _ _ _ _ ?_⟩
      rintro _ _ _ ⟨⟩
      exact told
    · exact Or.inl ⟨r, there, .same r⟩
  | observe k n call e next heard x at_ decoded =>
    replace there := (s.setRunning_running j k _).symm.trans there
    split_ifs at there with same
    · subst same
      cases there
      refine Or.inl ⟨_, at_, .heard _ _ _ _ _ _ ?_⟩
      rintro _ _ _ ⟨⟩
      cases decoded
    · exact Or.inl ⟨r, there, .same r⟩
  | apply i call uuid payload visit store state found applied => exact Or.inl ⟨r, there, .same r⟩
  | finish k call result config heard sent at_ =>
    replace there := (s.setClient_running j k _).symm.trans there
    split_ifs at there
    exact Or.inl ⟨r, there, .same r⟩

end SessionMoves

structure Justified (applied : List Applied) (call : ℕ) (result : Except Error Reply) : Prop where
  reply : ∀ reply, result = .ok reply → ∃ a ∈ applied, a.call = call ∧ a.status = .ok reply
  error : ∀ e, result = .error e → e.definite = true →
    ∃ a ∈ applied, a.call = call ∧ ∃ failure, a.status = .error failure ∧ toError failure = e

theorem Heard.Explains.justified {heard : Heard} {result : Except Error Reply}
    {applied : List Applied} {call : ℕ} (explains : heard.Explains result)
    (told : ∀ status, heard.From status → Told applied call status) :
    Justified applied call result := by
  constructor
  · intro reply same
    rcases told _ (explains.reply reply same) with gone | there
    · simp [lost] at gone
    · exact there
  · intro e same definite
    obtain ⟨failure, from_, rfl⟩ := explains.error e same definite
    rcases told _ from_ with gone | ⟨a, mem, own, status⟩
    · simp [lost, definite] at gone
    · exact ⟨a, mem, own, failure, status, rfl⟩

structure Running.Sound (s : Sessions) (r : Running) (record : Record) : Prop where
  found : s.records[r.call]? = some record
  open_ : record.returned = none
  ensures : Ensures (Ask.Sends record.op.payload) (fun heard x => Heard.Explains heard x.1) r.heard
    r.task
  told : ∀ status, Heard.From r.heard status → Told s.applied r.call status

structure Sessions.Sound (s : Sessions) : Prop where
  attempt : ∀ a ∈ s.attempts, ∃ record, s.records[a.call]? = some record ∧
    a.request.payload = record.op.payload
  applied : ∀ a ∈ s.applied, ∃ record, s.records[a.call]? = some record ∧
    a.payload = record.op.payload
  unchanged : ∀ a ∈ s.applied, ∀ failure, a.status = .error failure → a.changed = false
  running : ∀ k r, (s.clients k).running = some r → ∃ record, r.Sound s record
  apart : ∀ j k r q, (s.clients j).running = some r → (s.clients k).running = some q →
    r.call = q.call → j = k
  returned : ∀ (c : ℕ) (record : Record) (result : Except Error Reply) (n : ℕ),
    s.records[c]? = some record → record.returned = some (result, n) →
      n ≤ s.applied.length ∧ Justified (s.applied.take n) c result

theorem status_error {payload : Payload} {state : State} {failure : Failure}
    (failed : KVStoreServiceImpl.status payload state = .error failure) :
    changes payload state = false := by
  obtain ⟨key, u⟩ := state
  cases payload with
  | set key value =>
    cases u with
    | monostate => cases failed
    | _ => rfl
  | erase key =>
    cases u with
    | value v =>
      cases v with
      | some v => cases failed
      | none => rfl
    | _ => rfl
  | _ => rfl

namespace Sessions.Sound
variable {s t : Sessions} {a : SessionAction}

theorem progress {r r' : Running} {record : Record} (sound : r.Sound s record)
    (progress : Progress s.applied r r') : r'.Sound s record := by
  obtain ⟨found, open_, ensures, told⟩ := sound
  cases progress with
  | same => exact ⟨found, open_, ensures, told⟩
  | sent => exact ⟨found, open_, ensures, told⟩
  | heard call e next heard out x new =>
    refine ⟨found, open_, ensures.2 x, ?_⟩
    rintro status ⟨address, request, mem⟩
    rcases List.mem_append.mp mem with old | last
    · exact told status ⟨address, request, old⟩
    · exact new address request status (List.mem_singleton.mp last).symm

theorem record_open (sound : Sound s) (move : SessionMoves s a t) {j : ℕ} {r r' : Running}
    {record : Record} (there : (t.clients j).running = some r)
    (at_ : (s.clients j).running = some r') (found : s.records[r'.call]? = some record) :
    t.records[r'.call]? = some record := by
  cases move with
  | call k op idle =>
    rw [List.getElem?_append_left (List.getElem?_eq_some_iff.mp found).1]
    exact found
  | finish k call result config heard sent here =>
    rw [List.getElem?_modify, found]
    by_cases same : call = r'.call
    · obtain rfl := sound.apart j k r' _ at_ here same.symm
      replace there := (s.setClient_running j j _).symm.trans there
      simp at there
    · simp [same]
  | _ => exact found

theorem step_running (sound : Sound s) (move : SessionMoves s a t) {j : ℕ} {r : Running}
    (there : (t.clients j).running = some r) : ∃ record, r.Sound t record := by
  obtain ⟨more, applied⟩ := move.applied_append
  rcases move.running_cases there with ⟨r', at_, progress⟩ | ⟨op, rfl, idle, rfl⟩
  · obtain ⟨record, before⟩ := sound.running j r' at_
    obtain ⟨found, open_, ensures, told⟩ := Sound.progress before progress
    rw [progress.call_eq] at found
    have found' := sound.record_open move there at_ found
    refine ⟨record, ?_, open_, ensures, fun status from_ => ?_⟩
    · rw [progress.call_eq]
      exact found'
    · rw [applied]
      exact (told status from_).mono more
  · cases move with
    | call k op idle =>
      refine ⟨{ op }, ?_, rfl, op.run_ensures _ _, ?_⟩
      · simp
      · rintro status ⟨address, request, mem⟩
        cases mem

theorem step_apart (sound : Sound s) (move : SessionMoves s a t) {j k : ℕ} {r q : Running}
    (atJ : (t.clients j).running = some r) (atK : (t.clients k).running = some q)
    (same : r.call = q.call) : j = k := by
  have old : ∀ (i : ℕ) (x : Running), (s.clients i).running = some x →
      x.call < s.records.length := by
    intro i x at_
    obtain ⟨record, running⟩ := sound.running i x at_
    exact (List.getElem?_eq_some_iff.mp running.found).1
  rcases move.running_cases atJ with ⟨r', oldJ, progressJ⟩ | ⟨op, rfl, _, rfl⟩
  · rw [progressJ.call_eq] at same
    rcases move.running_cases atK with ⟨q', oldK, progressK⟩ | ⟨op, _, _, rfl⟩
    · rw [progressK.call_eq] at same
      exact sound.apart j k r' q' oldJ oldK same
    · have earlier := old j r' oldJ
      simp only at same
      omega
  · rcases move.running_cases atK with ⟨q', oldK, progressK⟩ | ⟨op, called, _, rfl⟩
    · rw [progressK.call_eq] at same
      have earlier := old k q' oldK
      simp only at same
      omega
    · cases called
      rfl

theorem step_returned (sound : Sound s) (move : SessionMoves s a t) {c n : ℕ} {record : Record}
    {result : Except Error Reply} (found : t.records[c]? = some record)
    (ended : record.returned = some (result, n)) :
    n ≤ t.applied.length ∧ Justified (t.applied.take n) c result := by
  rcases move.record_cases found with before | ⟨_, _, _, _, rfl⟩ |
    ⟨k, _, _, _, _, _, rfl, at_, _, rfl⟩
  · obtain ⟨more, applied⟩ := move.applied_append
    obtain ⟨within, justified⟩ := sound.returned c record result n before ended
    rw [applied, List.take_append_of_le_length within, List.length_append]
    exact ⟨by omega, justified⟩
  · cases ended
  · cases ended
    obtain ⟨_, running⟩ := sound.running k _ at_
    have justified := Heard.Explains.justified running.ensures running.told
    rw [← List.take_length (l := s.applied)] at justified
    cases move
    exact ⟨le_rfl, justified⟩

theorem step (sound : Sound s) (move : SessionMoves s a t) : Sound t := by
  have kept : ∀ {c : ℕ} {payload : Payload}, (∃ record, s.records[c]? = some record ∧
      payload = record.op.payload) → ∃ record, t.records[c]? = some record ∧
        payload = record.op.payload := by
    rintro c payload ⟨record, found, own⟩
    obtain ⟨record', found', same⟩ := move.record_kept found
    exact ⟨record', found', by rw [same, own]⟩
  refine ⟨fun x mem => ?_, fun x mem => ?_, fun x mem => ?_, fun k r => sound.step_running move,
    fun j k r q => sound.step_apart move, fun c record result n => sound.step_returned move⟩
  · cases move with
    | send k call address request next heard at_ =>
      rcases List.mem_append.mp mem with old | new
      · exact kept (sound.attempt x old)
      · rw [List.mem_singleton.mp new]
        obtain ⟨record, running⟩ := sound.running k _ at_
        exact ⟨record, running.found, running.ensures.1⟩
    | _ => exact kept (sound.attempt x mem)
  · cases move with
    | apply i call uuid payload visit store state found applied =>
      rcases List.mem_append.mp mem with old | new
      · exact kept (sound.applied x old)
      · rw [List.mem_singleton.mp new]
        exact kept (sound.attempt _ (List.mem_of_getElem? found))
    | _ => exact kept (sound.applied x mem)
  · cases move with
    | apply i call uuid payload visit store state found applied =>
      rcases List.mem_append.mp mem with old | new
      · exact sound.unchanged x old
      · rw [List.mem_singleton.mp new]
        exact fun failure => status_error
    | _ => exact sound.unchanged x mem

theorem initial (configs : ℕ → Config) :
    Sound { clients := fun k => { config := configs k } } := by
  constructor <;> simp

end Sessions.Sound

end Zdb.KV
