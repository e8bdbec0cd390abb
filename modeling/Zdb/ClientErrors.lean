import Zdb.ClientEffects

/-! When an error of the store means that a set has not taken effect. `set` returns
`Maybe` in place of `VersionMismatch` when the visit to the last service has had more
than one error. The visits before do not count, and neither does a request that the
network has doubled; and there is no such care for `KeyNotFound`. -/

namespace Zdb.KV
open Resumption LabelledRun

def Heard.streak (heard : Heard) : ℕ :=
  heard.foldl (fun n x => match x.1 with
    | .connected _ => 0
    | .rpc _ _ => n + 1
    | _ => n) 0

namespace Heard
variable (heard : Heard)

theorem streak_append (x : Exchange Ask Ask.Answer) :
    Heard.streak (heard ++ [x]) = match x.1 with
      | .connected _ => 0
      | .rpc _ _ => heard.streak + 1
      | _ => heard.streak := by
  rw [streak, List.foldl_append]
  rfl

theorem visits_append (x : Exchange Ask Ask.Answer) :
    Heard.visits (heard ++ [x]) = match x.1 with
      | .connected _ => heard.visits + 1
      | _ => heard.visits := by
  rw [visits, List.countP_append]
  obtain ⟨e, r⟩ := x
  cases e <;> rfl

end Heard

def Counted (heard : Heard) (statuses : List Status) : Prop :=
  ∀ failure, statuses.getLast? = some (.error failure) →
    (toError failure).code = .versionMismatch →
      heard.streak = (RPCService.errors statuses).length

theorem Counted.of_last {heard : Heard} (statuses : List Status) {failure : Failure}
    (made : (toError failure).code ≠ .versionMismatch) :
    Counted heard (statuses ++ [.error failure]) := by
  intro failure' last code
  rw [List.getLast?_concat] at last
  cases last
  exact absurd code made

section Ensures
variable {heard : Heard} {payload : Payload} {request : Command}

theorem Heard.streak_of_asked {address : String} {more : Heard}
    (asked : ∀ x ∈ more, Repeater.Asks address request x.1) :
    Heard.streak (heard ++ more) = heard.streak + more.outcomes.length := by
  induction more generalizing heard with
  | nil => simp
  | cons x rest ih =>
    have later : Heard.streak (heard ++ [x] ++ rest) = _ :=
      ih fun y mem => asked y (List.mem_cons_of_mem x mem)
    rw [List.append_cons, later, Heard.streak_append]
    obtain ⟨e, r⟩ := x
    rcases asked _ List.mem_cons_self with same | same
    · cases same
      simp
    · cases same
      exact Nat.succ_add_eq_add_succ _ _

theorem RPCService.errors_length {op : Operation} {front : List Status} {failure : Failure}
    (retried : ∀ status ∈ front, retries op status = true) :
    (errors (front ++ [.error failure])).length = front.length + 1 := by
  induction front with
  | nil => rfl
  | cons status rest ih =>
    have later := ih fun status mem => retried status (List.mem_cons_of_mem _ mem)
    cases status with
    | ok reply => cases retried _ List.mem_cons_self
    | error first => exact congrArg Nat.succ later

theorem Repeater.attempt_counted (policy : RetryPolicy) (op : Operation) (address : String)
    (own : request.payload = payload) (backoff : ExponentialBackoff)
    (first : heard.streak = 0) :
    Ensures (Ask.Sends payload) (fun heard r => Counted heard r.1) heard
      (attempt policy op (Ask.call address request) backoff []) := by
  refine ((attempt_framed policy op address request backoff heard).weaken
    fun e asks => asks.sends own).mono ?_
  rintro _ r ⟨more, rfl, asked, reported⟩
  have tally (front : List Status) (last : Status) (listed : more.outcomes = front ++ [last])
      (retried : ∀ status ∈ front, retries op status = true) :
      Counted (heard ++ more) (front ++ [last]) := by
    intro failure final _
    rw [List.getLast?_concat] at final
    cases final
    rw [Heard.streak_of_asked asked, first, listed, RPCService.errors_length retried, Nat.zero_add,
      List.length_append, List.length_singleton]
  cases reported with
  | stopped front backoff => exact Counted.of_last front (by decide)
  | settled front last listed retried => exact tally front last listed retried
  | exhausted front last backoff listed retried =>
    exact tally front last listed fun status mem => retried status (List.mem_append_left _ mem)

namespace CircuitBreaker

theorem trip_streak (b : CircuitBreaker) :
    Ensures (Ask.Sends payload) (fun heard' _ => Heard.streak heard' = heard.streak) heard
      b.trip :=
  Ensures.bind_ask trivial fun _ => .pure (Heard.streak_append _ _)

theorem probe_counted (op : Operation) (address : String) (own : request.payload = payload)
    (b : CircuitBreaker) (first : heard.streak = 0) :
    Ensures (Ask.Sends payload) (fun heard r => Counted heard r.1) heard
      (b.probe op (Ask.call address request)) := by
  refine Ensures.bind_ask own fun status => ?_
  have one : Heard.streak (heard ++ [⟨.rpc address request, status⟩]) = 1 := by
    rw [Heard.streak_append, first]
  cases status with
  | ok reply =>
    refine .pure fun failure last _ => ?_
    cases last
  | error failure =>
    dsimp only
    split
    · refine Ensures.seq b.trip_streak fun heard' b' _ same => .pure fun _ _ _ => ?_
      exact same.trans one
    · exact .pure fun _ _ _ => one

theorem call_counted (policy : RetryPolicy) (op : Operation) (address : String)
    (own : request.payload = payload) (b : CircuitBreaker) (first : heard.streak = 0) :
    Ensures (Ask.Sends payload) (fun heard r => Counted heard r.1) heard
      (b.call policy op (Ask.call address request)) := by
  rw [call]
  split
  · refine Ensures.bind_ask trivial fun now => ?_
    split
    · exact .pure (Counted.of_last [] (by decide))
    · refine probe_counted op address own _ ?_
      rw [Heard.streak_append, first]
  · exact probe_counted op address own _ first
  · refine Ensures.seq (Repeater.attempt_counted policy op address own _ first) ?_
    rintro heard' ⟨statuses, backoff⟩ _ counted
    dsimp only
    split
    · split
      · refine Ensures.seq (trip_streak _) fun heard'' b' _ same => .pure ?_
        intro failure last code
        exact same.trans (counted failure last code)
      · exact .pure counted
    · exact .pure counted

end CircuitBreaker

def CountedErrors (heard : Heard) (result : Except (List Error) Reply) : Prop :=
  ∀ errors e, result = .error errors → errors.getLast? = some e → e.code = .versionMismatch →
    heard.streak = errors.length

theorem CountedErrors.made {e : Error} (made : e.code ≠ .versionMismatch) :
    CountedErrors heard (.error [e]) := by
  intro errors e' same last code
  cases same
  cases last
  exact absurd code made

theorem RPCService.errors_getLast {statuses : List Status} {e : Error}
    (last : (errors statuses).getLast? = some e)
    (failed : ∀ reply, statuses.getLast? ≠ some (.ok reply)) :
    ∃ failure, statuses.getLast? = some (.error failure) ∧ toError failure = e := by
  induction statuses using List.reverseRecOn with
  | nil => cases last
  | append_singleton before status ih =>
    rw [List.getLast?_concat] at failed ⊢
    cases status with
    | ok reply => exact absurd rfl (failed reply)
    | error failure =>
      refine ⟨failure, rfl, ?_⟩
      rw [errors, List.filterMap_append] at last
      exact Option.some.inj (List.getLast?_concat.symm.trans last)

theorem RPCService.call_counted (policy : RetryPolicy) (op : Operation)
    (own : request.payload = payload) (s : RPCService) :
    Ensures (Ask.Sends payload) (fun heard r => CountedErrors heard r.1) heard
      (s.call policy op request) := by
  rw [call]
  refine Ensures.bind_ask trivial fun connected => ?_
  split
  · have first : Heard.streak (heard ++ [⟨.connected s.address, connected⟩]) = 0 :=
      Heard.streak_append _ _
    refine Ensures.seq (CircuitBreaker.call_counted policy op s.address own _ first) ?_
    rintro heard' ⟨statuses, breaker⟩ _ counted
    dsimp only
    split
    · exact .pure fun errors e same => by cases same
    · rename_i failed
      refine .pure fun errors e same last code => ?_
      cases same
      obtain ⟨failure, there, rfl⟩ := errors_getLast last failed
      exact counted failure there code
  · exact .pure (.made (by decide))

namespace KVStoreClient

theorem tryServices_counted (op : Operation) (own : request.payload = payload) (left : ℕ)
    (c : Config) :
    Ensures (Ask.Sends payload) (fun heard r => CountedErrors heard r.1) heard
      (tryServices op request left c) := by
  induction left generalizing heard c with
  | zero => exact .pure (.made (by decide))
  | succ left ih =>
    rw [tryServices]
    refine Ensures.seq c.nextService_ensures ?_
    rintro heard₁ ⟨service, c₁⟩ _ _
    dsimp only
    split
    · exact ih c₁
    split
    · exact Ask.fail_ensures
    refine Ensures.seq (RPCService.call_counted c₁.policy op own _) ?_
    rintro heard₂ ⟨result, s⟩ _ counted
    dsimp only
    split
    · exact .pure counted
    split
    · exact Ask.fail_ensures
    split
    · refine Ensures.seq (Config.randomService_ensures _ _) ?_
      rintro heard₃ ⟨_, c₃⟩ _ _
      exact ih c₃
    split
    · exact ih _
    · exact .pure counted

theorem call_counted (op : Operation) (payload : Payload) (c : Config) :
    Ensures (Ask.Sends payload) (fun heard r => CountedErrors heard r.1) heard
      (call op payload c) := by
  refine Ensures.bind_ask trivial fun uuid => ?_
  have own : (Command.mk uuid payload).payload = payload := rfl
  exact tryServices_counted op own _ c

theorem set_streak (key : Key) (value : Value) (c : Config) :
    Ensures (Ask.Sends (.set key value)) (fun heard r => ∀ e, r.1 = .error e →
      e.code = .versionMismatch → Heard.streak heard = 1) heard (set key value c) := by
  refine Ensures.seq (call_counted _ _ c) ?_
  rintro heard' ⟨t, c'⟩ _ counted
  dsimp only
  split
  · exact .pure fun e same => by cases same
  split
  · exact Ask.fail_ensures
  rename_i errors _ last found
  split
  · refine .pure fun e same code => ?_
    cases same
    cases code
  · rename_i few
    refine .pure fun e same code => ?_
    cases same
    have length := counted errors last rfl found code
    have nonempty := List.length_pos_of_mem (List.mem_of_getLast? found)
    have short : ¬ 1 < errors.length := fun many => few ⟨many, code⟩
    omega

end KVStoreClient

end Ensures

structure Running.Tallied (attempts : List Attempt) (op : Op) (r : Running) : Prop where
  lone : ∀ key value, op = .set key value → Ensures (Ask.Sends op.payload)
    (fun heard x => ∀ e, x.1 = .error e → e.code = .versionMismatch → Heard.streak heard = 1)
    r.heard r.task
  visited : ∀ a ∈ attempts, a.call = r.call → a.visit ≤ r.heard.visits
  tally : attempts.countP (fun a => a.call == r.call && a.visit == r.heard.visits) =
    r.heard.streak + r.sent.toNat
  out : r.sent = true → ∃ address request next, r.task = .ask (.rpc address request) next

namespace Running.Tallied
variable {attempts : List Attempt} {op : Op} {call : ℕ} {heard : Heard}

theorem start (op : Op) (c : Config) (unsent : ∀ a ∈ attempts, a.call ≠ call) :
    Tallied attempts op ⟨call, op.run c, [], false⟩ := by
  refine ⟨?_, fun a mem own => absurd own (unsent a mem), ?_, fun sent => by cases sent⟩
  · rintro key value rfl
    exact KVStoreClient.set_streak key value c
  · refine List.countP_eq_zero.mpr fun a mem => ?_
    simp [unsent a mem]

theorem other {r : Running} (tallied : Tallied attempts op r) (a : Attempt)
    (apart : a.call ≠ r.call) : Tallied (attempts ++ [a]) op r := by
  refine ⟨tallied.lone, fun b mem own => ?_, ?_, tallied.out⟩
  · rcases List.mem_append.mp mem with old | new
    · exact tallied.visited b old own
    · rw [List.mem_singleton.mp new] at own
      exact absurd own apart
  · rw [List.countP_append, tallied.tally, List.countP_singleton]
    simp [apart]

theorem send {address : String} {request : Command}
    {next : Status → Task (Except Error Reply × Config)}
    (tallied : Tallied attempts op ⟨call, .ask (.rpc address request) next, heard, false⟩) :
    Tallied (attempts ++ [⟨call, request, heard.visits⟩]) op
      ⟨call, .ask (.rpc address request) next, heard, true⟩ := by
  refine ⟨tallied.lone, fun b mem own => ?_, ?_, fun _ => ⟨_, _, _, rfl⟩⟩
  · rcases List.mem_append.mp mem with old | new
    · exact tallied.visited b old own
    · rw [List.mem_singleton.mp new]
  · rw [List.countP_append, tallied.tally, List.countP_singleton]
    simp

theorem answer {address : String} {request : Command} {status : Status}
    {next : Status → Task (Except Error Reply × Config)}
    (tallied : Tallied attempts op ⟨call, .ask (.rpc address request) next, heard, true⟩) :
    Tallied attempts op
      ⟨call, next status, heard ++ [⟨.rpc address request, status⟩], false⟩ := by
  refine ⟨fun key value isSet => (tallied.lone key value isSet).2 status, ?_, ?_,
    fun sent => by cases sent⟩
  · rw [Heard.visits_append]
    exact tallied.visited
  · rw [Heard.visits_append, Heard.streak_append]
    exact tallied.tally

theorem observe {e : Ask} {next : e.Answer → Task (Except Error Reply × Config)} {n : ℕ}
    {x : e.Answer} (decoded : e.decode n = some x)
    (tallied : Tallied attempts op ⟨call, .ask e next, heard, false⟩) :
    Tallied attempts op ⟨call, next x, heard ++ [⟨e, x⟩], false⟩ := by
  obtain ⟨lone, visited, tally, _⟩ := tallied
  refine ⟨fun key value isSet => (lone key value isSet).2 x, ?_, ?_, fun sent => by cases sent⟩
  · intro a mem own
    have before := visited a mem own
    rw [Heard.visits_append]
    split
    · exact before.trans (Nat.le_succ _)
    · exact before
  · rw [Heard.visits_append, Heard.streak_append]
    cases e with
    | rpc address request => cases decoded
    | connected address =>
      refine List.countP_eq_zero.mpr fun a mem both => ?_
      simp only [Bool.and_eq_true, beq_iff_eq] at both
      have before := visited a mem both.1
      dsimp only at before
      omega
    | _ => exact tally

end Running.Tallied

structure Tallies (s : Sessions) : Prop extends s.Sound where
  current : ∀ k r record, (s.clients k).running = some r → s.records[r.call]? = some record →
    r.Tallied s.attempts record.op
  lone : ∀ (c : ℕ) (record : Record) (key : Key) (value : Value) (e : Error) (n : ℕ),
    s.records[c]? = some record → record.op = .set key value →
      record.returned = some (.error e, n) → e.code = .versionMismatch →
        ∃ visit, s.attempts.countP (fun a => a.call == c && a.visit == visit) = 1

namespace Tallies
variable {s t : Sessions} {a : SessionAction}

theorem initial (configs : ℕ → Config) :
    Tallies { clients := fun k => { config := configs k } } :=
  ⟨Sessions.Sound.initial configs, by simp, by simp⟩

theorem step_current (inv : Tallies s) (move : SessionMoves s a t) {j : ℕ} {r : Running}
    {record : Record} (there : (t.clients j).running = some r)
    (found : t.records[r.call]? = some record) : r.Tallied t.attempts record.op := by
  have old : ∀ r', (s.clients j).running = some r' → r'.call = r.call →
      r'.Tallied s.attempts record.op := by
    intro r' before same
    obtain ⟨record', running⟩ := inv.running j r' before
    obtain ⟨record'', found', op⟩ := move.record_kept running.found
    rw [same] at found'
    cases found'.symm.trans found
    rw [op]
    exact inv.current j r' record' before running.found
  cases move with
  | call k op idle =>
    replace there := (s.setRunning_running j k _).symm.trans there
    split_ifs at there with here
    · cases there
      cases List.getElem?_concat_length.symm.trans found
      refine .start op _ fun a mem own => ?_
      obtain ⟨record, earlier, _⟩ := inv.attempt a mem
      rw [own, List.getElem?_eq_none le_rfl] at earlier
      cases earlier
    · exact old r there rfl
  | send k call address request next heard at_ =>
    replace there := (s.setRunning_running j k _).symm.trans there
    split_ifs at there with here
    · subst here
      cases there
      exact (old _ at_ rfl).send
    · exact (old r there rfl).other _ fun same => here (inv.apart j k r _ there at_ same.symm)
  | answer k status call address request next heard at_ told =>
    replace there := (s.setRunning_running j k _).symm.trans there
    split_ifs at there with here
    · subst here
      cases there
      exact (old _ at_ rfl).answer
    · exact old r there rfl
  | observe k n call e next heard x at_ decoded =>
    replace there := (s.setRunning_running j k _).symm.trans there
    split_ifs at there with here
    · subst here
      cases there
      exact (old _ at_ rfl).observe decoded
    · exact old r there rfl
  | apply => exact old r there rfl
  | finish k call result config heard sent at_ =>
    replace there := (s.setClient_running j k _).symm.trans there
    split_ifs at there
    exact old r there rfl

theorem step_lone (inv : Tallies s) (move : SessionMoves s a t) {c n : ℕ} {record : Record}
    {key : Key} {value : Value} {e : Error} (found : t.records[c]? = some record)
    (isSet : record.op = .set key value) (ended : record.returned = some (.error e, n))
    (code : e.code = .versionMismatch) :
    ∃ visit, t.attempts.countP (fun a => a.call == c && a.visit == visit) = 1 := by
  rcases move.record_cases found with before | ⟨_, _, _, _, rfl⟩ |
    ⟨k, _, _, heard, sent, record', rfl, at_, before, rfl⟩
  · obtain ⟨visit, one⟩ := inv.lone c record key value e n before isSet ended code
    refine ⟨visit, ?_⟩
    cases move with
    | send k call address request next heard at_ =>
      have apart : call ≠ c := by
        rintro rfl
        obtain ⟨record', running⟩ := inv.running k _ at_
        cases before.symm.trans running.found
        cases ended.symm.trans running.open_
      rw [List.countP_append, one, List.countP_singleton]
      simp [apart]
    | _ => exact one
  · cases ended
  · cases ended
    have tallied := inv.current k _ record' at_ before
    have one : heard.streak = 1 := tallied.lone key value isSet e rfl code
    have inside : sent = false := by
      by_contra sent'
      obtain ⟨_, _, _, task⟩ := tallied.out (by simpa using sent')
      cases task
    have count := tallied.tally
    dsimp only at count
    rw [inside, one] at count
    cases move
    exact ⟨heard.visits, count⟩

theorem step (inv : Tallies s) (move : SessionMoves s a t) : Tallies t :=
  ⟨inv.toSound.step move, fun _ _ _ => inv.step_current move,
    fun _ _ _ _ _ _ => inv.step_lone move⟩

end Tallies

def Applied.missing (a : Applied) : Bool :=
  match a.status with
  | .error failure => (toError failure).code == .keyNotFound
  | .ok _ => false

namespace Sessions

def sentBy (s : Sessions) (call : ℕ) : ℕ := s.attempts.countP fun a => a.call == call

def reachedBy (s : Sessions) (call : ℕ) : ℕ := s.applied.countP fun a => a.call == call

def hasReturned (s : Sessions) (call : ℕ) : Bool :=
  (s.records[call]?).any fun record => record.returned.isSome

def staysOn (s : Sessions) (call visit : ℕ) : Bool :=
  s.attempts.all fun a => a.call != call || a.visit == visit

end Sessions

/-- From the second request of a set on that reaches the store while the set is open,
all attempts of the set are of one visit, no more have reached the store than were
sent, and none has found the key missing. -/
def retriesNoticed (s : Sessions) : SessionAction → Bool
  | .send k => match (s.clients k).running with
      | some ⟨call, .ask (.rpc _ ⟨_, .set _ _⟩) _, heard, _⟩ =>
          s.reachedBy call ≤ 1 || s.staysOn call heard.visits
      | _ => true
  | .apply i => match s.attempts[i]? with
      | some ⟨call, ⟨_, .set key value⟩, visit⟩ =>
          s.hasReturned call || s.reachedBy call == 0 ||
            (s.staysOn call visit && s.reachedBy call < s.sentBy call &&
              s.applied.all (fun a => a.call != call || !a.missing) &&
              (value.version == 0 || (s.store.get key).isSome))
      | _ => true
  | _ => true

def Record.before (record : Record) (applied : List Applied) : List Applied :=
  match record.returned with
  | some (_, n) => applied.take n
  | none => applied

theorem toError_keyNotFound {e : Error}
    (missing : (toError (toGrpcStatus e)).code = .keyNotFound) : e.code = .keyNotFound := by
  rw [toError, parseDetails_toGrpcStatus] at missing
  split_ifs at missing
  · exact missing
  · revert missing
    cases code : e.code <;> simp [toGrpcStatus, toGrpcStatusCode, code]

theorem set_missing {store store' : InMemoryKVStore} {key : Key} {value : Value} {state : State}
    (applied : KVStateMachine.applyCommand store 0 (.set key value) = (store', some state))
    (there : value.version = 0 ∨ (store.get key).isSome = true) (call : ℕ) (changed : Bool) :
    Applied.missing ⟨call, .set key value, KVStoreServiceImpl.status (.set key value) state,
      changed⟩ = false := by
  simp only [KVStateMachine.applyCommand, KVStateMachine.set] at applied
  split at applied
  · cases applied
    rfl
  · rename_i e failed
    cases applied
    have code : e.code ≠ .keyNotFound := by
      rw [InMemoryKVStore.set] at failed
      split at failed
      · split_ifs at failed
        cases failed
        simp
      · rename_i absent
        split_ifs at failed with version
        rw [InMemoryKVStore.get, absent] at there
        simp [version] at there
    have kept := mt toError_keyNotFound code
    simpa [Applied.missing, KVStoreServiceImpl.status, KVStoreServiceImpl.setStatus] using kept

def Noticed (attempts : List Attempt) (c : ℕ) (before : List Applied) : Prop :=
  before.countP (fun a => a.call == c) ≤ 1 ∨
    (∃ visit, ∀ a ∈ attempts, a.call = c → a.visit = visit) ∧
      before.countP (fun a => a.call == c) ≤ attempts.countP (fun a => a.call == c) ∧
        ∀ a ∈ before, a.call = c → a.missing = false

namespace Noticed
variable {attempts : List Attempt} {c : ℕ} {before : List Applied}

theorem send (noticed : Noticed attempts c before) (a : Attempt)
    (ok : a.call = c → before.countP (fun a => a.call == c) ≤ 1 ∨
      ∀ b ∈ attempts, b.call = c → b.visit = a.visit) : Noticed (attempts ++ [a]) c before := by
  rcases noticed with few | ⟨⟨visit, same⟩, within, found⟩
  · exact Or.inl few
  have longer : before.countP (fun a => a.call == c) ≤
      (attempts ++ [a]).countP (fun a => a.call == c) := by
    rw [List.countP_append]
    omega
  by_cases own : a.call = c
  · rcases ok own with few | stays
    · exact Or.inl few
    refine Or.inr ⟨⟨a.visit, fun b mem ownB => ?_⟩, longer, found⟩
    rcases List.mem_append.mp mem with old | new
    · exact stays b old ownB
    · rw [List.mem_singleton.mp new]
  · refine Or.inr ⟨⟨visit, fun b mem ownB => ?_⟩, longer, found⟩
    rcases List.mem_append.mp mem with old | new
    · exact same b old ownB
    · rw [List.mem_singleton.mp new] at ownB
      exact absurd ownB own

theorem other (noticed : Noticed attempts c before) (x : Applied) (apart : x.call ≠ c) :
    Noticed attempts c (before ++ [x]) := by
  have count : (before ++ [x]).countP (fun a => a.call == c) =
      before.countP (fun a => a.call == c) := by
    rw [List.countP_append, List.countP_singleton]
    simp [apart]
  rw [Noticed, count]
  refine noticed.imp id fun ⟨stays, within, found⟩ => ⟨stays, within, fun a mem own => ?_⟩
  rcases List.mem_append.mp mem with old | new
  · exact found a old own
  · rw [List.mem_singleton.mp new] at own
    exact absurd own apart

end Noticed

structure Noticing (s : Sessions) : Prop extends Tallies s where
  noticed : ∀ (c : ℕ) (record : Record) (key : Key) (value : Value), s.records[c]? = some record →
    record.op = .set key value → Noticed s.attempts c (record.before s.applied)

namespace Noticing
variable {s t : Sessions} {a : SessionAction}

theorem initial (configs : ℕ → Config) :
    Noticing { clients := fun k => { config := configs k } } :=
  ⟨Tallies.initial configs, by simp⟩

theorem step_send (inv : Noticing s) {k call : ℕ} {address : String} {request : Command}
    {next : Status → Task (Except Error Reply × Config)} {heard : Heard}
    (at_ : (s.clients k).running = some ⟨call, .ask (.rpc address request) next, heard, false⟩)
    (ok : retriesNoticed s (.send k) = true) {c : ℕ} {record : Record} {key : Key} {value : Value}
    (there : s.records[c]? = some record) (isSet : record.op = .set key value) :
    Noticed (s.attempts ++ [⟨call, request, heard.visits⟩]) c (record.before s.applied) := by
  refine (inv.noticed c record key value there isSet).send _ ?_
  rintro rfl
  obtain ⟨record', running⟩ := inv.running k _ at_
  cases there.symm.trans running.found
  have payload : request.payload = .set key value := by
    rw [running.ensures.1, isSet]
    rfl
  obtain ⟨uuid, _⟩ := request
  cases payload
  simp only [retriesNoticed, at_, Bool.or_eq_true, decide_eq_true_eq] at ok
  rw [Record.before, running.open_]
  refine ok.imp id fun stays b mem own => ?_
  simpa [own] using List.all_eq_true.mp stays b mem

theorem step_apply (inv : Noticing s) {i call visit : ℕ} {uuid : UUIDV7} {payload : Payload}
    {store : InMemoryKVStore} {state : State}
    (found : s.attempts[i]? = some ⟨call, ⟨uuid, payload⟩, visit⟩)
    (applied : KVStateMachine.applyCommand s.store 0 payload = (store, some state))
    (ok : retriesNoticed s (.apply i) = true) {c : ℕ} {record : Record} {key : Key} {value : Value}
    (there : s.records[c]? = some record) (isSet : record.op = .set key value) :
    Noticed s.attempts c (record.before (s.applied ++
      [⟨call, payload, KVStoreServiceImpl.status payload state, changes payload state⟩])) := by
  have before := inv.noticed c record key value there isSet
  cases ended : record.returned with
  | some r =>
    have within := (inv.returned c record r.1 r.2 there ended).1
    simp only [Record.before, ended] at before ⊢
    rwa [List.take_append_of_le_length within]
  | none =>
    simp only [Record.before, ended] at before ⊢
    by_cases own : call = c
    · subst own
      obtain ⟨record', there', payload'⟩ := inv.attempt _ (List.mem_of_getElem? found)
      cases there.symm.trans there'
      rw [isSet] at payload'
      cases payload'
      simp only [retriesNoticed, found, Sessions.hasReturned, there, Option.any_some, ended,
        Option.isSome_none, Bool.false_or, Bool.or_eq_true, Bool.and_eq_true, beq_iff_eq,
        decide_eq_true_eq] at ok
      rw [Noticed, List.countP_append, List.countP_singleton]
      rcases ok with none | ⟨⟨⟨stays, fewer⟩, others⟩, present⟩
      · rw [Sessions.reachedBy] at none
        simp [none]
      refine Or.inr ⟨⟨visit, fun b mem own => ?_⟩, ?_, fun b mem own => ?_⟩
      · simpa [own] using List.all_eq_true.mp stays b mem
      · rw [Sessions.reachedBy, Sessions.sentBy] at fewer
        simp only [beq_self_eq_true, if_true]
        exact fewer
      · rcases List.mem_append.mp mem with old | new
        · simpa [own] using List.all_eq_true.mp others b old
        · rw [List.mem_singleton.mp new]
          exact set_missing applied present _ _
    · exact before.other _ own

theorem step (inv : Noticing s) (ok : retriesNoticed s a = true) (move : SessionMoves s a t) :
    Noticing t := by
  refine ⟨inv.toTallies.step move, fun c record key value there isSet => ?_⟩
  rcases move.record_cases there with before | ⟨k, op, rfl, rfl, rfl⟩ |
    ⟨k, _, _, _, _, record', rfl, at_, before, rfl⟩
  · have old := inv.noticed c record key value before isSet
    cases move with
    | send k call address request next heard at_ => exact inv.step_send at_ ok before isSet
    | apply i call uuid payload visit store state found applied =>
      exact inv.step_apply found applied ok before isSet
    | _ => exact old
  · -- Nothing has reached the store of a call that is new.
    have none : s.applied.countP (fun a => a.call == s.records.length) = 0 := by
      refine List.countP_eq_zero.mpr fun a mem own => ?_
      obtain ⟨record, found, _⟩ := inv.applied a mem
      rw [beq_iff_eq.mp own, List.getElem?_eq_none le_rfl] at found
      cases found
    cases move
    exact Or.inl (none.le.trans (Nat.zero_le 1))
  · obtain ⟨_, running⟩ := inv.running k _ at_
    cases before.symm.trans running.found
    have old := inv.noticed c record' key value before isSet
    simp only [Record.before, running.open_] at old
    cases move
    simp only [Record.before]
    rwa [← List.take_length (l := s.applied)] at old

end Noticing

theorem one_lt_countP {before : List Applied} {c : ℕ} {a x : Applied} (memA : a ∈ before)
    (memX : x ∈ before) (ownA : a.call = c) (ownX : x.call = c) (apart : a ≠ x) :
    1 < before.countP fun a => a.call == c := by
  obtain ⟨first, later, rfl⟩ := List.append_of_mem memA
  have other : x ∈ first ++ later := by
    simpa [Ne.symm apart] using memX
  have counted : 0 < (first ++ later).countP fun a => a.call == c :=
    List.countP_pos_iff.mpr ⟨x, other, by simpa using ownX⟩
  rw [List.countP_append] at counted
  rw [List.countP_append, List.countP_cons_of_pos (by simpa using ownA)]
  omega

theorem sent_once {attempts : List Attempt} {c visit : ℕ}
    (stays : ∀ a ∈ attempts, a.call = c → a.visit = visit)
    (lone : ∃ visit', attempts.countP (fun a => a.call == c && a.visit == visit') = 1) :
    attempts.countP (fun a => a.call == c) = 1 := by
  obtain ⟨visit', one⟩ := lone
  obtain ⟨b, memB, both⟩ := List.countP_pos_iff.mp (one.symm ▸ Nat.one_pos)
  simp only [Bool.and_eq_true, beq_iff_eq] at both
  rw [← one]
  refine List.countP_congr fun a mem => ?_
  simp only [Bool.and_eq_true, beq_iff_eq, iff_self_and]
  intro own
  rw [stays a mem own, ← stays b memB both.1, both.2]

/-- A set that returns an error of the store has not changed the store before it
returns, as long as no retry of it that reaches the store goes unnoticed. -/
theorem definite_error_unapplied {configs : ℕ → Config} {actions : List SessionAction}
    {s : Sessions}
    (good : Along Sessions.step (fun s a => retriesNoticed s a = true)
      { clients := fun k => { config := configs k } } actions)
    (run : Sessions.run configs actions = some s) {call n : ℕ} {key : Key} {value : Value}
    {e : Error} (ended : s.records[call]? = some ⟨.set key value, some (.error e, n)⟩)
    (definite : e.code = .versionMismatch ∨ e.code = .keyNotFound) :
    ∀ a ∈ s.applied.take n, a.call = call → a.changed = false := by
  have inv := exec_invariant Noticing
    (fun s a t inv ok step => inv.step ok (Sessions.moves step)) (Noticing.initial configs) good run
  have isDefinite : e.definite = true := by
    rcases definite with code | code <;> simp [Error.definite, code]
  have justified := (inv.returned call _ _ n ended rfl).2
  obtain ⟨x, mem, own, failure, failed, rfl⟩ := justified.error e rfl isDefinite
  intro a memA ownA
  by_cases same : a = x
  · subst same
    exact inv.unchanged a (List.mem_of_mem_take memA) failure failed
  exfalso
  have several := one_lt_countP memA mem ownA own same
  rcases inv.noticed call _ key value ended rfl with few | ⟨⟨visit, stays⟩, within, found⟩
  · exact absurd several (not_lt.mpr few)
  rcases definite with code | code
  · have total := sent_once stays (inv.lone call _ key value _ n ended rfl rfl code)
    exact absurd several (not_lt.mpr (within.trans total.le))
  · have missing := found x mem own
    simp [Applied.missing, failed, code] at missing

def hasty : RetryPolicy :=
  { patient with
    failureThreshold := 1
    servicesToTry := 2
    threshold := by decide }

def twoServers (_ : ℕ) : Config := ⟨hasty, [{ address := "s" }, { address := "t" }], 2, 2⟩

def mismatch : Error :=
  ⟨.versionMismatch, "Version mismatch: expected 1 but got 0", [107], [118], 1⟩

def refused (k : ℕ) : List SessionAction :=
  [.answer k (.error (toGrpcStatus mismatch)), .observe k 0, .finish k]

def setTaken : List SessionAction :=
  begins 0 (.set ⟨[107]⟩ ⟨[118], 0⟩) ++
    [.apply 0, .answer 0 (.ok .done), .observe 0 0, .finish 0] ++
    begins 1 (.set ⟨[107]⟩ ⟨[119], 0⟩) ++ [.apply 1] ++ refused 1

theorem definite_error_unapplied_taken : ∃ s,
    Along Sessions.step (fun s a => retriesNoticed s a = true)
      { clients := fun k => { config := twoServers k } } setTaken ∧
    Sessions.run twoServers setTaken = some s ∧
    s.records[1]? = some ⟨.set ⟨[107]⟩ ⟨[119], 0⟩, some (.error mismatch, 2)⟩ ∧
    ∀ a ∈ s.applied.take 2, a.call = 1 → a.changed = false := by
  have good : Along Sessions.step (fun s a => retriesNoticed s a = true)
      { clients := fun k => { config := twoServers k } } setTaken := by decide +kernel
  obtain ⟨s, run, ended⟩ : ∃ s, Sessions.run twoServers setTaken = some s ∧
      s.records[1]? = some ⟨.set ⟨[107]⟩ ⟨[119], 0⟩, some (.error mismatch, 2)⟩ := by
    refine ⟨_, (Option.some_get (by decide +kernel)).symm, by decide +kernel⟩
  exact ⟨s, good, run, ended, definite_error_unapplied good run ended (Or.inl rfl)⟩

/-- The reply of the first server is lost and its breaker opens; the second server is
asked for the same set. -/
def setMoved : List SessionAction :=
  begins 0 (.set ⟨[107]⟩ ⟨[118], 0⟩) ++
    [.apply 0, .answer 0 deadlineExceeded, .observe 0 0, .observe 0 5, .observe 0 6, .observe 0 1,
      .observe 0 1, .observe 0 0, .send 0, .apply 1] ++ refused 0

/-- The only client is told of a version mismatch, and its value is stored. -/
theorem definite_error_applied : ∃ s, Sessions.run twoServers setMoved = some s ∧
    s.records[0]? = some ⟨.set ⟨[107]⟩ ⟨[118], 0⟩, some (.error mismatch, 2)⟩ ∧
    (s.applied.take 2).map (fun a => (a.call, a.changed)) = [(0, true), (0, false)] := by
  refine ⟨_, (Option.some_get (by decide +kernel)).symm, by decide +kernel, by decide +kernel⟩

end Zdb.KV
