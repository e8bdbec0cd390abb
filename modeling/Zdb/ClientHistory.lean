import Zdb.ClientEffects
import Zdb.Linearizability
import Zdb.ReliableClient

/-! What clients see of the store. A call that returns an error which says nothing of
the store counts as one that has not returned, since its request may still be on the
way. Everything else a call returns is what the store says at some moment of the call;
and if no write reaches the store twice, the calls are linearizable. -/

namespace Zdb.KV
open Resumption LabelledRun Linearizability

def definiteResult : Except Error Reply → Bool
  | .ok _ => true
  | .error e => e.definite

abbrev Moment := Event ℕ (Except Error Reply) × ℕ

/-- The calls and returns so far, each with the number of requests that had reached the
store. -/
def noted (timeline : List Moment) (s : Sessions) (a : SessionAction) (_ : Sessions) :
    List Moment :=
  match a with
  | .call _ _ => timeline ++ [(.invoke s.records.length, s.applied.length)]
  | .finish k => match (s.clients k).running with
      | some ⟨call, .done (result, _), _, _⟩ =>
          if definiteResult result then timeline ++ [(.respond call result, s.applied.length)]
          else timeline
      | _ => timeline
  | _ => timeline

def Sessions.observedRun (configs : ℕ → Config) (actions : List SessionAction) :
    Option (Sessions × List Moment) :=
  exec (observed Sessions.step noted) ({ clients := fun k => { config := configs k } }, []) actions

def Op.apply (store : InMemoryKVStore) (op : Op) : InMemoryKVStore × Except Error Reply :=
  let (store', state) := match op with
    | .get key => KVStateMachine.get store key
    | .set key value => KVStateMachine.set store key value
    | .erase key => KVStateMachine.erase store key
    | .size => KVStateMachine.size store
  (store', KVStoreClient.result (KVStoreServiceImpl.status op.payload state))

def Op.reads : Op → Bool
  | .get _ => true
  | .size => true
  | _ => false

def Sessions.op (s : Sessions) (c : ℕ) : Op := (s.records[c]?.map Record.op).getD .size

def Sessions.log (s : Sessions) : List ℕ := s.applied.map Applied.call

def replay (applied : List Applied) : InMemoryKVStore :=
  applied.foldl (fun store a => (KVStateMachine.applyCommand store 0 a.payload).1) {}

theorem replay_concat (applied : List Applied) (a : Applied) :
    replay (applied ++ [a]) = (KVStateMachine.applyCommand (replay applied) 0 a.payload).1 := by
  simp [replay]

theorem Op.reads_apply {op : Op} (reads : op.reads = true) (store : InMemoryKVStore) :
    (op.apply store).1 = store := by
  cases op with
  | get key => rfl
  | size => rfl
  | set key value => cases reads
  | erase key => cases reads

theorem Op.apply_fst (op : Op) (store : InMemoryKVStore) :
    (Op.apply store op).1 = (KVStateMachine.applyCommand store 0 op.payload).1 := by
  cases op <;> rfl

theorem Op.apply_snd {op : Op} {store store' : InMemoryKVStore} {status : Status}
    (answers : Answers op.payload store status store') :
    (Op.apply store op).2 = KVStoreClient.result status := by
  obtain ⟨state, applied, rfl⟩ := answers
  cases op <;> cases applied <;> rfl

structure Replayed (s : Sessions) : Prop where
  store : s.store = replay s.applied
  answers : ∀ i a, s.applied[i]? = some a →
    Answers a.payload (replay (s.applied.take i)) a.status (replay (s.applied.take (i + 1)))

structure Timed (s : Sessions) (timeline : List Moment) : Prop where
  sorted : timeline.Pairwise fun x y => x.2 ≤ y.2
  bounded : ∀ x ∈ timeline, x.2 ≤ s.applied.length
  invoked : ∀ c n, (.invoke c, n) ∈ timeline → c < s.records.length ∧
    ∀ i a, s.applied[i]? = some a → a.call = c → n ≤ i
  responded : ∀ c r n, (.respond c r, n) ∈ timeline → definiteResult r = true ∧
    ∃ record, s.records[c]? = some record ∧ record.returned = some (r, n)

def Called (s : Sessions) (timeline : List Moment) : Prop :=
  ∀ c < s.records.length, ∃ n, (.invoke c, n) ∈ timeline

section Steps
variable {s t : Sessions} {a : SessionAction} {timeline : List Moment}

theorem Replayed.step (inv : Replayed s) (move : SessionMoves s a t) : Replayed t := by
  cases move with
  | apply i call uuid payload visit store state found applied =>
    have made : (KVStateMachine.applyCommand (replay s.applied) 0 payload).1 = store := by
      rw [← inv.store, applied]
    refine ⟨by rw [replay_concat, made], fun j x at_ => ?_⟩
    dsimp only at at_ ⊢
    rcases Nat.lt_trichotomy j s.applied.length with old | rfl | beyond
    · rw [List.getElem?_append_left old] at at_
      rw [List.take_append_of_le_length old.le, List.take_append_of_le_length old]
      exact inv.answers j x at_
    · rw [List.getElem?_concat_length] at at_
      cases at_
      rw [List.take_left, List.take_of_length_le (by simp), replay_concat, made, ← inv.store]
      exact ⟨state, applied, rfl⟩
    · rw [List.getElem?_eq_none (by rw [List.length_append]; exact beyond)] at at_
      cases at_
  | _ => exact ⟨inv.store, inv.answers⟩

theorem returned_kept (sound : s.Sound) (move : SessionMoves s a t) {c n : ℕ} {record : Record}
    {r : Except Error Reply} (found : s.records[c]? = some record)
    (ended : record.returned = some (r, n)) : t.records[c]? = some record := by
  cases move with
  | call k op idle =>
    rw [List.getElem?_append_left (List.getElem?_eq_some_iff.mp found).1]
    exact found
  | finish k call result config heard sent at_ =>
    obtain ⟨open_, running⟩ := sound.running k _ at_
    have apart : call ≠ c := by
      rintro rfl
      cases running.found.symm.trans found
      exact nomatch running.open_.symm.trans ended
    rw [List.getElem?_modify, found]
    simp [apart]
  | _ => exact found

theorem records_length_le (move : SessionMoves s a t) : s.records.length ≤ t.records.length := by
  cases move with
  | call k op idle => simp
  | finish k call result config heard sent at_ => simp
  | _ => exact le_rfl

theorem Timed.kept (sound : s.Sound) (timed : Timed s timeline) (move : SessionMoves s a t) :
    Timed t timeline := by
  obtain ⟨more, applied⟩ := move.applied_append
  refine ⟨timed.sorted, fun x mem => ?_, fun c n mem => ⟨?_, fun i x at_ own => ?_⟩,
    fun c r n mem => ?_⟩
  · rw [applied, List.length_append]
    exact (timed.bounded x mem).trans (Nat.le_add_right _ _)
  · exact (timed.invoked c n mem).1.trans_le (records_length_le move)
  · rw [applied] at at_
    rcases Nat.lt_or_ge i s.applied.length with old | new
    · rw [List.getElem?_append_left old] at at_
      exact (timed.invoked c n mem).2 i x at_ own
    · exact (timed.bounded _ mem).trans new
  · obtain ⟨definite, record, found, ended⟩ := timed.responded c r n mem
    exact ⟨definite, record, returned_kept sound move found ended, ended⟩

theorem Timed.concat (timed : Timed t timeline) (e : Event ℕ (Except Error Reply))
    (invoked : ∀ c, e = .invoke c → c < t.records.length ∧ ∀ x ∈ t.applied, x.call ≠ c)
    (responded : ∀ c r, e = .respond c r → definiteResult r = true ∧
      ∃ record, t.records[c]? = some record ∧ record.returned = some (r, t.applied.length)) :
    Timed t (timeline ++ [(e, t.applied.length)]) := by
  refine ⟨?_, fun x mem => ?_, fun c n mem => ?_, fun c r n mem => ?_⟩
  · refine List.pairwise_append.mpr ⟨timed.sorted, List.pairwise_singleton _ _, ?_⟩
    intro x old y new
    rw [List.mem_singleton.mp new]
    exact timed.bounded x old
  · rcases List.mem_append.mp mem with old | new
    · exact timed.bounded x old
    · rw [List.mem_singleton.mp new]
  · rcases List.mem_append.mp mem with old | new
    · exact timed.invoked c n old
    · cases List.mem_singleton.mp new
      obtain ⟨within, fresh⟩ := invoked c rfl
      exact ⟨within, fun i x at_ own => absurd own (fresh x (List.mem_of_getElem? at_))⟩
  · rcases List.mem_append.mp mem with old | new
    · exact timed.responded c r n old
    · cases List.mem_singleton.mp new
      exact responded c r rfl

theorem Timed.step (sound : s.Sound) (timed : Timed s timeline) (move : SessionMoves s a t) :
    Timed t (noted timeline s a t) := by
  have kept := timed.kept sound move
  cases move with
  | call k op idle =>
    refine kept.concat (.invoke s.records.length) ?_ nofun
    rintro c ⟨⟩
    refine ⟨by simp, fun x mem own => ?_⟩
    obtain ⟨record, found, -⟩ := sound.applied x mem
    have old := (List.getElem?_eq_some_iff.mp found).1
    omega
  | finish k call result config heard sent at_ =>
    obtain ⟨record, running⟩ := sound.running k _ at_
    rw [noted, at_]
    dsimp only
    split_ifs with definite
    · refine kept.concat (.respond call result) nofun ?_
      rintro c r ⟨⟩
      refine ⟨definite, { record with returned := some (result, s.applied.length) }, ?_, rfl⟩
      rw [List.getElem?_modify, running.found]
      simp
    · exact kept
  | _ => exact kept

theorem Called.step (called : Called s timeline) (move : SessionMoves s a t) :
    Called t (noted timeline s a t) := by
  intro c within
  have kept : c < s.records.length → ∃ n, (.invoke c, n) ∈ noted timeline s a t := by
    intro old
    obtain ⟨n, mem⟩ := called c old
    refine ⟨n, ?_⟩
    cases a with
    | call k op => exact List.mem_append_left _ mem
    | finish k =>
      rw [noted]
      split
      · split_ifs
        · exact List.mem_append_left _ mem
        · exact mem
      · exact mem
    | _ => exact mem
  cases move with
  | call k op idle =>
    rcases Nat.lt_or_ge c s.records.length with old | new
    · exact kept old
    · obtain rfl : c = s.records.length := by
        rw [List.length_append, List.length_singleton] at within
        omega
      exact ⟨_, List.mem_append_right _ (List.mem_singleton.mpr rfl)⟩
  | finish k call result config heard sent at_ => exact kept (by simpa using within)
  | _ => exact kept within

end Steps

/-- Of each write at most one request gets through to the store. -/
def writesOnce (s : Sessions) : SessionAction → Bool
  | .apply i => match s.attempts[i]? with
      | some x => (s.op x.call).reads || s.applied.all fun a => a.call != x.call
      | none => true
  | _ => true

def WrittenOnce (s : Sessions) : Prop :=
  s.applied.Pairwise fun a b => a.call = b.call → (s.op a.call).reads = true

section Writes
variable {s t : Sessions} {a : SessionAction}

theorem op_eq {c : ℕ} {record : Record} (found : s.records[c]? = some record) :
    s.op c = record.op := by
  rw [Sessions.op, found, Option.map_some, Option.getD_some]

theorem op_kept (move : SessionMoves s a t) {c : ℕ} (old : c < s.records.length) :
    t.op c = s.op c := by
  have found : s.records[c]? = some s.records[c] := List.getElem?_eq_getElem old
  obtain ⟨record, found', same⟩ := move.record_kept found
  rw [op_eq found, op_eq found', same]

theorem applied_old (sound : s.Sound) {x : Applied} (mem : x ∈ s.applied) :
    x.call < s.records.length ∧ (s.op x.call).payload = x.payload := by
  obtain ⟨record, found, own⟩ := sound.applied x mem
  exact ⟨(List.getElem?_eq_some_iff.mp found).1, by rw [op_eq found, own]⟩

theorem WrittenOnce.step (sound : s.Sound) (once : WrittenOnce s)
    (ok : writesOnce s a = true) (move : SessionMoves s a t) : WrittenOnce t := by
  have kept : s.applied.Pairwise fun a b => a.call = b.call → (t.op a.call).reads = true := by
    refine List.Pairwise.imp_of_mem (fun {x y} memX _ reads same => ?_) once
    rw [op_kept move (applied_old sound memX).1]
    exact reads same
  cases move with
  | apply i call uuid payload visit store state found applied =>
    refine List.pairwise_append.mpr ⟨kept, List.pairwise_singleton _ _, fun x old y new => ?_⟩
    rw [List.mem_singleton.mp new]
    rintro rfl
    simp only [writesOnce, found, Bool.or_eq_true, List.all_eq_true, bne_iff_ne] at ok
    rcases ok with reads | fresh
    · exact reads
    · exact absurd rfl (fresh x old)
  | _ => exact kept

theorem WrittenOnce.unique (once : WrittenOnce s) {i j : ℕ} {x y : Applied}
    (atI : s.applied[i]? = some x) (atJ : s.applied[j]? = some y) (same : x.call = y.call)
    (writes : (s.op x.call).reads = false) : i = j := by
  obtain ⟨hi, rfl⟩ := List.getElem?_eq_some_iff.mp atI
  obtain ⟨hj, rfl⟩ := List.getElem?_eq_some_iff.mp atJ
  have pair := List.pairwise_iff_getElem.mp once
  rcases Nat.lt_trichotomy i j with below | here | above
  · simp [pair i j hi hj below same] at writes
  · exact here
  · have reads := pair j i hj hi above same.symm
    rw [← same, writes] at reads
    cases reads

end Writes

section Answers
variable {s : Sessions}

theorem after_eq_replay (sound : s.Sound) (n : ℕ) :
    after Op.apply {} ((s.log.take n).map s.op) = replay (s.applied.take n) := by
  have each : ∀ (applied : List Applied) (store : InMemoryKVStore), (∀ x ∈ applied, x ∈ s.applied) →
      after Op.apply store ((applied.map Applied.call).map s.op) =
        applied.foldl (fun store a => (KVStateMachine.applyCommand store 0 a.payload).1) store := by
    intro applied
    induction applied with
    | nil => exact fun _ _ => rfl
    | cons x rest ih =>
      intro store within
      have first : (Op.apply store (s.op x.call)).1 =
          (KVStateMachine.applyCommand store 0 x.payload).1 := by
        rw [Op.apply_fst, (applied_old sound (within x List.mem_cons_self)).2]
      have others := ih (Op.apply store (s.op x.call)).1 fun y mem =>
        within y (List.mem_cons_of_mem x mem)
      rw [List.foldl_cons, ← first]
      exact others
  rw [Sessions.log, ← List.map_take]
  exact each _ _ fun x mem => List.mem_of_mem_take mem

theorem answer_eq (sound : s.Sound) (replayed : Replayed s) {i : ℕ} {a : Applied}
    (found : s.applied[i]? = some a) :
    answer Op.apply {} ((s.log.take i).map s.op) (s.op a.call) = KVStoreClient.result a.status := by
  have served : Answers (s.op a.call).payload (replay (s.applied.take i)) a.status
      (replay (s.applied.take (i + 1))) := by
    rw [(applied_old sound (List.mem_of_getElem? found)).2]
    exact replayed.answers i a found
  rw [answer, after_eq_replay sound, Op.apply_snd served]

theorem respond_source (sound : s.Sound) {timeline : List Moment} (timed : Timed s timeline)
    {c n : ℕ} {r : Except Error Reply} (mem : (.respond c r, n) ∈ timeline) : ∃ i a, i < n ∧
      s.applied[i]? = some a ∧ a.call = c ∧ KVStoreClient.result a.status = r := by
  obtain ⟨definite, record, found, ended⟩ := timed.responded c r n mem
  obtain ⟨-, reply, error⟩ := sound.returned c record r n found ended
  have place : ∀ a ∈ s.applied.take n, ∃ i, i < n ∧ s.applied[i]? = some a := by
    intro a mem
    obtain ⟨i, at_⟩ := List.mem_iff_getElem?.mp mem
    rw [List.getElem?_take] at at_
    split_ifs at at_ with below
    exact ⟨i, below, at_⟩
  cases r with
  | ok value =>
    obtain ⟨a, mem, own, status⟩ := reply value rfl
    obtain ⟨i, below, at_⟩ := place a mem
    exact ⟨i, a, below, at_, own, by rw [status]; rfl⟩
  | error e =>
    obtain ⟨a, mem, own, failure, status, same⟩ := error e rfl definite
    obtain ⟨i, below, at_⟩ := place a mem
    exact ⟨i, a, below, at_, own, by rw [status, KVStoreClient.result, same]⟩

end Answers

structure Watched (s : Sessions) (timeline : List Moment) : Prop where
  sound : s.Sound
  replayed : Replayed s
  timed : Timed s timeline
  called : Called s timeline

section Runs
variable {configs : ℕ → Config} {actions : List SessionAction} {s : Sessions}
  {timeline : List Moment}

theorem Watched.initial (configs : ℕ → Config) :
    Watched { clients := fun k => { config := configs k } } [] where
  sound := .initial configs
  replayed := ⟨rfl, fun _ _ found => by cases found⟩
  timed :=
    { sorted := .nil
      bounded := fun _ mem => by cases mem
      invoked := fun _ _ mem => by cases mem
      responded := fun _ _ _ mem => by cases mem }
  called := fun c old => absurd old (Nat.not_lt_zero c)

theorem Watched.step {t : Sessions} {a : SessionAction} (watched : Watched s timeline)
    (move : SessionMoves s a t) : Watched t (noted timeline s a t) :=
  ⟨watched.sound.step move, watched.replayed.step move, watched.timed.step watched.sound move,
    watched.called.step move⟩

theorem watched_run (run : Sessions.observedRun configs actions = some (s, timeline)) :
    Watched s timeline :=
  exec_invariant_always (fun w : Sessions × List Moment => Watched w.1 w.2)
    (fun _ _ u watched goes => by
      obtain ⟨t, moments⟩ := u
      obtain ⟨stepped, rfl⟩ := observed_eq_some.mp goes
      exact watched.step (Sessions.moves stepped))
    (Watched.initial configs) run

/-- Whatever the network does and however often a client tries, a definite result is what
the store answers to the call at some moment between the call and its return. -/
theorem definite_results_current
    (run : Sessions.observedRun configs actions = some (s, timeline)) {c n : ℕ}
    {r : Except Error Reply} (returned : (.respond c r, n) ∈ timeline) :
    ∃ m i, (.invoke c, m) ∈ timeline ∧ m ≤ i ∧ i < n ∧
      answer Op.apply {} ((s.log.take i).map s.op) (s.op c) = r := by
  obtain ⟨sound, replayed, timed, called⟩ := watched_run run
  obtain ⟨i, a, below, at_, rfl, result⟩ := respond_source sound timed returned
  obtain ⟨m, invoked⟩ := called a.call (applied_old sound (List.mem_of_getElem? at_)).1
  exact ⟨m, i, invoked, (timed.invoked _ m invoked).2 i a at_ rfl, below,
    by rw [answer_eq sound replayed at_, result]⟩

def setGetTwice : List SessionAction :=
  begins 0 (.set ⟨[107]⟩ ⟨[118], 0⟩) ++
    [.apply 0, .answer 0 (.ok .done), .observe 0 0, .finish 0] ++
  begins 1 (.get ⟨[107]⟩) ++ sendsAgain 1 ++
    [.apply 1, .apply 2, .answer 1 (.ok (.value ⟨[118], 1⟩)), .observe 1 0, .finish 1]

def setGetTimeline : List Moment :=
  [(.invoke 0, 0), (.respond 0 (.ok .done), 1), (.invoke 1, 1),
    (.respond 1 (.ok (.value ⟨[118], 1⟩)), 3)]

theorem setGetTwice_run : ∃ s,
    Sessions.observedRun oneServer setGetTwice = some (s, setGetTimeline) := by
  have noted : (Sessions.observedRun oneServer setGetTwice).map Prod.snd = some setGetTimeline := by
    decide +kernel
  obtain ⟨⟨s, _⟩, run, rfl⟩ := Option.map_eq_some_iff.mp noted
  exact ⟨s, run⟩

theorem definite_results_current_get : ∃ s,
    Sessions.observedRun oneServer setGetTwice = some (s, setGetTimeline) ∧
    ∃ m i, (.invoke 1, m) ∈ setGetTimeline ∧ m ≤ i ∧ i < 3 ∧
      answer Op.apply {} ((s.log.take i).map s.op) (s.op 1) = .ok (.value ⟨[118], 1⟩) := by
  obtain ⟨s, run⟩ := setGetTwice_run
  exact ⟨s, run, definite_results_current run (by decide)⟩

theorem written_once
    (good : Along Sessions.step (fun s a => writesOnce s a = true)
      { clients := fun k => { config := configs k } } actions)
    (run : Sessions.run configs actions = some s) : WrittenOnce s := by
  have none : WrittenOnce { clients := fun k => { config := configs k } } := List.Pairwise.nil
  exact (exec_invariant (fun s => s.Sound ∧ WrittenOnce s)
    (fun _ _ _ both ok goes =>
      have move := Sessions.moves goes
      ⟨both.1.step move, both.2.step both.1 ok move⟩)
    ⟨.initial configs, none⟩ good run).2

structure Point (s : Sessions) (timeline : List Moment) (c : ℕ) (p : Option ℕ) : Prop where
  located : ∀ i, p = some i → ∃ a, s.applied[i]? = some a ∧ a.call = c
  skipped : ∀ i a, s.applied[i]? = some a → a.call = c → p ≠ some i → (s.op c).reads = true
  returned : ∀ r n, (.respond c r, n) ∈ timeline → ∃ i a, p = some i ∧ i < n ∧
    s.applied[i]? = some a ∧ KVStoreClient.result a.status = r

/-- A call that has returned takes effect at the request whose status it returns, a write
that has not returned at its only request. -/
theorem exists_point (watched : Watched s timeline) (once : WrittenOnce s) (c : ℕ) :
    ∃ p, Point s timeline c p := by
  have only : ∀ {i j : ℕ} {x y : Applied}, s.applied[i]? = some x → x.call = c →
      s.applied[j]? = some y → y.call = c → some i ≠ some j → (s.op c).reads = true := by
    intro i j x y atI ownI atJ ownJ apart
    by_contra writes
    refine apart (congrArg some (once.unique atI atJ (ownI.trans ownJ.symm) ?_))
    rw [ownI]
    exact Bool.eq_false_iff.mpr writes
  by_cases ended : ∃ r n, (.respond c r, n) ∈ timeline
  · obtain ⟨r, n, mem⟩ := ended
    obtain ⟨i, a, below, at_, own, result⟩ := respond_source watched.sound watched.timed mem
    refine ⟨some i, ?_, fun j x atJ ownJ apart => only at_ own atJ ownJ apart, ?_⟩
    · rintro _ ⟨⟩
      exact ⟨a, at_, own⟩
    · intro r' n' mem'
      obtain ⟨-, record, found, first⟩ := watched.timed.responded c r n mem
      obtain ⟨-, record', found', second⟩ := watched.timed.responded c r' n' mem'
      cases found.symm.trans found'
      cases first.symm.trans second
      exact ⟨i, a, rfl, below, at_, result⟩
  · by_cases reached : ∃ (i : ℕ) (a : Applied), s.applied[i]? = some a ∧ a.call = c
    · obtain ⟨i, a, at_, own⟩ := reached
      refine ⟨some i, ?_, fun j x atJ ownJ apart => only at_ own atJ ownJ apart, ?_⟩
      · rintro _ ⟨⟩
        exact ⟨a, at_, own⟩
      · exact fun r n mem => absurd ⟨r, n, mem⟩ ended
    · refine ⟨none, nofun, fun i a at_ own _ => absurd ⟨i, a, at_, own⟩ reached, ?_⟩
      exact fun r n mem => absurd ⟨r, n, mem⟩ ended

theorem log_eq_some {i c : ℕ} :
    s.log[i]? = some c ↔ ∃ a, s.applied[i]? = some a ∧ a.call = c := by
  rw [Sessions.log, List.getElem?_map, Option.map_eq_some_iff]

theorem exists_moment {e : Event ℕ (Except Error Reply)} (mem : e ∈ timeline.map Prod.fst) :
    ∃ n, (e, n) ∈ timeline := by
  obtain ⟨x, there, rfl⟩ := List.mem_map.mp mem
  exact ⟨x.2, there⟩

theorem Timed.precedes (timed : Timed s timeline) {c d : ℕ}
    (before : Precedes (timeline.map Prod.fst) c d) : ∃ r n m,
      (.respond c r, n) ∈ timeline ∧ (.invoke d, m) ∈ timeline ∧ n ≤ m := by
  obtain ⟨r, order⟩ := before
  obtain ⟨pair, within, same⟩ := List.sublist_map_iff.mp order
  match pair, same with
  | [(_, n), (_, m)], same =>
    simp only [List.map_cons, List.map_nil, List.cons.injEq, and_true] at same
    obtain ⟨rfl, rfl⟩ := same
    refine ⟨r, n, m, within.subset (by simp), within.subset (by simp), ?_⟩
    simpa using timed.sorted.sublist within

/-- If no write reaches the store twice, the calls of all clients are linearizable. -/
theorem client_calls_linearizable
    (good : Along Sessions.step (fun s a => writesOnce s a = true)
      { clients := fun k => { config := configs k } } actions)
    (run : Sessions.observedRun configs actions = some (s, timeline)) :
    ∃ order, Linearizes Op.apply {} s.op (fun _ => False) (timeline.map Prod.fst) order := by
  have watched := watched_run run
  have once := written_once good (exec_of_observed run)
  choose point points using exists_point watched once
  obtain ⟨sound, replayed, timed, called⟩ := watched
  refine ⟨picked s.log point s.log.length, Linearizes.of_points ?_ ?_ ?_ ?_ ?_⟩
  · exact fun c i at_ => log_eq_some.mpr ((points c).located i at_)
  · intro i c found apart
    obtain ⟨a, at_, own⟩ := log_eq_some.mp found
    exact Op.reads_apply ((points c).skipped i a at_ own apart) _
  · intro c i at_
    obtain ⟨a, found, rfl⟩ := (points c).located i at_
    obtain ⟨n, mem⟩ := called a.call (applied_old sound (List.mem_of_getElem? found)).1
    exact List.mem_map.mpr ⟨_, mem, rfl⟩
  · intro c r mem _
    obtain ⟨n, mem⟩ := exists_moment mem
    obtain ⟨i, a, at_, -, found, result⟩ := (points c).returned r n mem
    obtain ⟨a', found', rfl⟩ := (points c).located i at_
    cases found.symm.trans found'
    exact ⟨i, at_, by rw [answer_eq sound replayed found, result]⟩
  · intro c d i j atI atJ before
    obtain ⟨r, n, m, returned, invoked, inOrder⟩ := timed.precedes before
    obtain ⟨i', a, atI', below, -, -⟩ := (points c).returned r n returned
    obtain ⟨b, found, own⟩ := (points d).located j atJ
    have late := (timed.invoked d m invoked).2 j b found own
    cases atI.symm.trans atI'
    omega

theorem client_calls_linearizable_get : ∃ s,
    Along Sessions.step (fun s a => writesOnce s a = true)
      { clients := fun k => { config := oneServer k } } setGetTwice ∧
    Sessions.observedRun oneServer setGetTwice = some (s, setGetTimeline) ∧
    ∃ order, Linearizes Op.apply {} s.op (fun _ => False) (setGetTimeline.map Prod.fst) order := by
  have good : Along Sessions.step (fun s a => writesOnce s a = true)
      { clients := fun k => { config := oneServer k } } setGetTwice := by decide +kernel
  obtain ⟨s, run⟩ := setGetTwice_run
  exact ⟨s, good, run, client_calls_linearizable good run⟩

end Runs

end Zdb.KV
