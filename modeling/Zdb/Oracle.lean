import Zdb.LabelledRun
import Zdb.ReliableClient
import Zdb.ServiceSelection
import Zdb.StoreHistory

/-! The linearizability oracle of the tests: what `KVTestFramework` records of a client's
calls, the file between the test and the checker, and `KvModel`. The file holds text and
the checker reads the versions as `int64`. On a sequence of calls made one after another
the checker has only one order to try. -/

namespace Zdb.KV
open Resumption LabelledRun

def ErrorCode.value : ErrorCode → ℕ
  | .ok => 0
  | .invalidArg => 1
  | .serviceTemporarilyUnavailable => 2
  | .allServicesUnavailable => 3
  | .versionMismatch => 4
  | .maybe => 5
  | .keyNotFound => 6
  | .timeout => 7
  | .notLeader => 8
  | .internal => 9
  | .cancelled => 10
  | .unknown => 128

namespace Porcupine

def setOp : ℕ := 1

def getOp : ℕ := 2

structure Input where
  op : ℕ
  key : Bytes
  value : Bytes
  version : ℕ
  deriving DecidableEq, Repr

structure Output where
  value : Bytes
  version : ℕ
  error : ErrorCode
  deriving DecidableEq, Repr

structure Operation where
  input : Input
  output : Output
  deriving DecidableEq, Repr

end Porcupine

namespace KvModel

structure Input where
  op : ℕ
  key : Bytes
  value : Bytes
  version : ℤ
  deriving DecidableEq, Repr

structure Output where
  value : Bytes
  version : ℤ
  error : ℕ
  deriving DecidableEq, Repr

structure State where
  value : Bytes
  version : ℤ
  deriving DecidableEq, Repr

def ok : ℕ := 0

def versionMismatch : ℕ := 4

def maybe : ℕ := 5

def init : State := ⟨[], 0⟩

/-- `Step`. The state after an operation that is neither a get nor a set is of no
interest, since that is refused. -/
def step (st : State) (inp : Input) (out : Output) : Bool × State :=
  if inp.op = 2 then (out.value == st.value, st)
  else if inp.op = 1 then
    if st.version = inp.version then
      (out.error == ok || out.error == maybe, ⟨inp.value, (st.version + 1).bmod (2 ^ 64)⟩)
    else (out.error == versionMismatch || out.error == maybe, st)
  else (false, st)

def accepts : State → List (Input × Output) → Bool
  | _, [] => true
  | st, (inp, out) :: rest => (step st inp out).1 && accepts (step st inp out).2 rest

/-- The operations on one key, as `Partition` groups them. -/
def onKey (key : Bytes) (history : List (Input × Output)) : List (Input × Output) :=
  history.filter fun x => x.1.key = key

def check (history : List (Input × Output)) : Bool :=
  history.all fun x => accepts init (onKey x.1.key history)

end KvModel

namespace Porcupine

/-- What the checker reads back. Writing the file fails on a string that is not UTF-8,
and reading it fails on a version that is no `int64`. -/
def unmarshal (op : Operation) : Option (KvModel.Input × KvModel.Output) :=
  let ⟨input, output⟩ := op
  if validUtf8 input.key && validUtf8 input.value && validUtf8 output.value &&
      decide (input.version < 2 ^ 63) && decide (output.version < 2 ^ 63) then
    some (⟨input.op, input.key, input.value, input.version⟩,
      ⟨output.value, output.version, output.error.value⟩)
  else none

def check (operations : List Operation) : Bool :=
  match operations.mapM unmarshal with
  | some history => KvModel.check history
  | none => false

end Porcupine

def recordedCode : Except Error Reply → ErrorCode
  | .ok _ => .ok
  | .error e => e.code

def recordedValue : Except Error Reply → Value
  | .ok (.value v) => v
  | _ => ⟨[], 0⟩

structure KVTestFramework where
  config : Config
  store : InMemoryKVStore := {}
  operations : List Porcupine.Operation := []

namespace KVTestFramework

def recording (uuid : UUIDV7) (t : KVTestFramework) (program : Task (Except Error Reply × Config))
    (recorded : Except Error Reply → Porcupine.Operation) : Option KVTestFramework :=
  (program.serve (reliable uuid) t.store).map fun ((result, config), store) =>
    { config, store, operations := t.operations ++ [recorded result] }

def setOperation (key : Key) (value : Value) (result : Except Error Reply) :
    Porcupine.Operation :=
  ⟨⟨Porcupine.setOp, key.data, value.data, value.version⟩,
    ⟨value.data, value.version, recordedCode result⟩⟩

def getOperation (key : Key) (result : Except Error Reply) : Porcupine.Operation :=
  ⟨⟨Porcupine.getOp, key.data, [], 0⟩,
    ⟨(recordedValue result).data, (recordedValue result).version, recordedCode result⟩⟩

def setJson (uuid : UUIDV7) (t : KVTestFramework) (key : Key) (value : Value) :
    Option KVTestFramework :=
  t.recording uuid (KVStoreClient.set key value t.config) (setOperation key value)

def getJson (uuid : UUIDV7) (t : KVTestFramework) (key : Key) : Option KVTestFramework :=
  t.recording uuid (KVStoreClient.get key t.config) (getOperation key)

inductive Call where
  | set (uuid : UUIDV7) (key : Key) (value : Value)
  | get (uuid : UUIDV7) (key : Key)
  deriving DecidableEq, Repr

def step (t : KVTestFramework) : Call → Option KVTestFramework
  | .set uuid key value => t.setJson uuid key value
  | .get uuid key => t.getJson uuid key

/-- The oracle and the store agree on the call: it can be written down, and a set of a
key that is not there names version 0. -/
def Suits (t : KVTestFramework) : Call → Prop
  | .set _ key value =>
      validUtf8 key.data = true ∧ validUtf8 value.data = true ∧ value.version < 2 ^ 63 ∧
        (t.store.get key = none → value.version = 0)
  | .get _ key => validUtf8 key.data = true ∧ t.store.version key < 2 ^ 63

end KVTestFramework

namespace KvModel
variable {key : Bytes} {st : State} {history : List (Input × Output)} {x : Input × Output}
  {states : Bytes → State}

def after : State → List (Input × Output) → State
  | st, [] => st
  | st, (inp, out) :: rest => after (step st inp out).2 rest

def advance (states : Bytes → State) (x : Input × Output) : Option (Bytes → State) :=
  let (accepted, st) := step (states x.1.key) x.1 x.2
  if accepted then some fun key => if key = x.1.key then st else states key else none

def verdict (history : List (Input × Output)) : Option (Bytes → State) :=
  history.foldlM advance fun _ => init

theorem accepts_concat (st : State) (history : List (Input × Output)) (x : Input × Output) :
    accepts st (history ++ [x]) =
      (accepts st history && (step (after st history) x.1 x.2).1) := by
  induction history generalizing st with
  | nil => simp [accepts, after]
  | cons y rest ih => simp only [List.cons_append, accepts, after, ih, Bool.and_assoc]

theorem after_concat (st : State) (history : List (Input × Output)) (x : Input × Output) :
    after st (history ++ [x]) = (step (after st history) x.1 x.2).2 := by
  induction history generalizing st with
  | nil => rfl
  | cons y rest ih => exact ih _

theorem onKey_concat (key : Bytes) (history : List (Input × Output)) (x : Input × Output) :
    onKey key (history ++ [x]) = onKey key history ++ if x.1.key = key then [x] else [] := by
  simp only [onKey, List.filter_append]
  split_ifs with same <;> simp [same]

theorem verdict_concat (history : List (Input × Output)) (x : Input × Output) :
    verdict (history ++ [x]) = (verdict history).bind fun states => advance states x := by
  simp [verdict, List.foldlM_append]

theorem verdict_spec (history : List (Input × Output)) : match verdict history with
    | some states => ∀ key, accepts init (onKey key history) = true ∧
        states key = after init (onKey key history)
    | none => ∃ key, accepts init (onKey key history) = false := by
  induction history using List.reverseRecOn with
  | nil => exact fun _ => ⟨rfl, rfl⟩
  | append_singleton history x ih =>
    rw [verdict_concat]
    cases before : verdict history with
    | none =>
      rw [before] at ih
      obtain ⟨key, refused⟩ := ih
      refine ⟨key, ?_⟩
      rw [onKey_concat]
      split_ifs
      · rw [accepts_concat, refused, Bool.false_and]
      · rwa [List.append_nil]
    | some states =>
      rw [before] at ih
      rw [Option.bind_some, advance]
      dsimp only
      split_ifs with accepted
      · intro key
        dsimp only
        rw [onKey_concat]
        by_cases same : x.1.key = key
        · subst same
          rw [if_pos rfl, if_pos rfl, accepts_concat, after_concat, ← (ih _).2, (ih _).1, accepted]
          exact ⟨rfl, rfl⟩
        · rw [if_neg same, if_neg (Ne.symm same), List.append_nil]
          exact ih key
      · refine ⟨x.1.key, ?_⟩
        rw [onKey_concat, if_pos rfl, accepts_concat, ← (ih _).2]
        simpa using fun _ => accepted

theorem check_iff : check history = true ↔ ∃ states, verdict history = some states := by
  have every : check history = true ↔ ∀ key, accepts init (onKey key history) = true := by
    rw [check, List.all_eq_true]
    refine ⟨fun all key => ?_, fun all x _ => all _⟩
    by_cases met : ∃ x ∈ history, x.1.key = key
    · obtain ⟨x, mem, rfl⟩ := met
      exact all x mem
    · have none : onKey key history = [] := by
        refine List.filter_eq_nil_iff.mpr fun x mem => ?_
        simpa using fun same => met ⟨x, mem, same⟩
      rw [none]
      rfl
  rw [every]
  have spec := verdict_spec history
  cases result : verdict history with
  | none =>
    rw [result] at spec
    obtain ⟨key, refused⟩ := spec
    refine iff_of_false (fun all => ?_) (by simp)
    rw [all key] at refused
    cases refused
  | some states =>
    rw [result] at spec
    exact iff_of_true (fun key => (spec key).1) ⟨states, rfl⟩

end KvModel

namespace Porcupine
open KvModel (advance)

def verdict (operations : List Operation) : Option (Bytes → KvModel.State) :=
  operations.foldlM (fun states op => (unmarshal op).bind (advance states)) fun _ => KvModel.init

theorem verdict_concat (operations : List Operation) (op : Operation) :
    verdict (operations ++ [op]) =
      (verdict operations).bind fun states => (unmarshal op).bind (advance states) := by
  simp [verdict, List.foldlM_append]

theorem foldlM_unmarshal (operations : List Operation) (states : Bytes → KvModel.State) :
    operations.foldlM (fun states op => (unmarshal op).bind (advance states)) states =
      (operations.mapM unmarshal).bind fun history => history.foldlM advance states := by
  induction operations generalizing states with
  | nil => rfl
  | cons op rest ih =>
    rw [List.foldlM_cons, List.mapM_cons]
    cases unmarshal op with
    | none => rfl
    | some x =>
      cases later : rest.mapM unmarshal with
      | none =>
        simp only [later, Option.bind_none] at ih
        cases advanced : advance states x with
        | none => simp [advanced]
        | some states' => simp [advanced, ih]
      | some history =>
        simp only [later, Option.bind_some] at ih
        cases advanced : advance states x with
        | none => simp [advanced]
        | some states' => simp [advanced, ih]

theorem check_iff {operations : List Operation} :
    check operations = true ↔ ∃ states, verdict operations = some states := by
  rw [verdict, foldlM_unmarshal, check]
  cases operations.mapM unmarshal with
  | none => simp
  | some history => exact KvModel.check_iff

end Porcupine

/-- What the model holds of a key is what the store holds of it, the version read as an
`int64`. A key that is not there is as at the start. -/
inductive Mirrored : Option Value → KvModel.State → Prop
  | absent : Mirrored none KvModel.init
  | present (v : Value) (text : validUtf8 v.data = true) (positive : 0 < v.version)
      (bound : v.version ≤ 2 ^ 63) :
      Mirrored (some v) ⟨v.data, (v.version : ℤ).bmod (2 ^ 64)⟩

def Mirrors (store : InMemoryKVStore) (states : Bytes → KvModel.State) : Prop :=
  ∀ key : Key, Mirrored (store.get key) (states key.data)

def Judged (states : Bytes → KvModel.State) (op : Porcupine.Operation)
    (store : InMemoryKVStore) (suits : Prop) : Prop :=
  match (Porcupine.unmarshal op).bind (KvModel.advance states) with
  | some states' => suits ∧ Mirrors store states'
  | none => ¬ suits

section
open KVTestFramework Porcupine
variable {store store' : InMemoryKVStore} {states : Bytes → KvModel.State} {key : Key}
  {value : Value} {result : Except Error Reply} {st : KvModel.State}

theorem bmod_eq_iff {v n : ℕ} (bound : v ≤ 2 ^ 63) (small : n < 2 ^ 63) :
    (v : ℤ).bmod (2 ^ 64) = n ↔ v = n := by
  rw [Int.bmod_def]
  split_ifs <;> omega

theorem Mirrored.version_eq_iff {n : ℕ} (mirrored : Mirrored (store.get key) st)
    (small : n < 2 ^ 63) : st.version = n ↔ store.version key = n := by
  rw [InMemoryKVStore.version]
  generalize store.get key = stored at mirrored
  cases mirrored with
  | absent =>
    rw [KvModel.init, Option.map_none, Option.getD_none]
    dsimp only
    omega
  | present v _ _ bound =>
    rw [Option.map_some, Option.getD_some]
    dsimp only
    exact bmod_eq_iff bound small

theorem Mirrored.text {v : Value} (mirrored : Mirrored (some v) st) : validUtf8 v.data = true := by
  cases mirrored with
  | present _ text _ _ => exact text

theorem Mirrors.update (mirrors : Mirrors store states)
    (others : ∀ k, key ≠ k → store'.get k = store.get k) (here : Mirrored (store'.get key) st) :
    Mirrors store' fun k => if k = key.data then st else states k := by
  intro k
  dsimp only
  by_cases same : k = key
  · subst same
    rwa [if_pos rfl]
  · have differ : k.data ≠ key.data := fun data => same (by cases k; cases key; cases data; rfl)
    rw [if_neg differ, others k (Ne.symm same)]
    exact mirrors k

theorem unmarshal_set : unmarshal (setOperation key value result) =
    if validUtf8 key.data = true ∧ validUtf8 value.data = true ∧ value.version < 2 ^ 63 then
      some (⟨setOp, key.data, value.data, value.version⟩,
        ⟨value.data, value.version, (recordedCode result).value⟩)
    else none := by
  unfold unmarshal setOperation
  split_ifs <;> simp_all

theorem unmarshal_get (text : validUtf8 (recordedValue result).data = true) :
    unmarshal (getOperation key result) =
      if validUtf8 key.data = true ∧ (recordedValue result).version < 2 ^ 63 then
        some (⟨getOp, key.data, [], 0⟩, ⟨(recordedValue result).data,
          (recordedValue result).version, (recordedCode result).value⟩)
      else none := by
  unfold unmarshal getOperation
  split_ifs <;> simp_all [validUtf8]

theorem judged_some {op : Porcupine.Operation} {inp : KvModel.Input} {out : KvModel.Output}
    {suits : Prop} (mirrors : Mirrors store states) (read : unmarshal op = some (inp, out))
    (named : inp.key = key.data) (accepted : KvModel.step (states key.data) inp out = (true, st))
    (suit : suits) (others : ∀ k, key ≠ k → store'.get k = store.get k)
    (here : Mirrored (store'.get key) st) : Judged states op store' suits := by
  have advanced : KvModel.advance states (inp, out) =
      some fun k => if k = key.data then st else states k := by
    rw [KvModel.advance, named, accepted]
    rfl
  rw [Judged, read, Option.bind_some, advanced]
  exact ⟨suit, mirrors.update others here⟩

theorem judged_none {op : Porcupine.Operation} {suits : Prop}
    (refused : (unmarshal op).bind (KvModel.advance states) = none) (unsuited : ¬ suits) :
    Judged states op store' suits := by
  rw [Judged, refused]
  exact unsuited

theorem judged_get (mirrors : Mirrors store states)
    (found : recordedValue result = (store.get key).getD ⟨[], 0⟩) :
    Judged states (getOperation key result) store
      (validUtf8 key.data = true ∧ store.version key < 2 ^ 63) := by
  have here := mirrors key
  have same : (recordedValue result).data = (states key.data).value ∧
      validUtf8 (recordedValue result).data = true ∧
      (recordedValue result).version = store.version key := by
    rw [found, InMemoryKVStore.version]
    generalize store.get key = stored, states key.data = st at here
    cases here with
    | absent => exact ⟨rfl, rfl, rfl⟩
    | present v text _ _ => exact ⟨rfl, text, rfl⟩
  obtain ⟨data, text, version⟩ := same
  have read : unmarshal (getOperation key result) = _ := unmarshal_get text
  rw [version] at read
  by_cases suits : validUtf8 key.data = true ∧ store.version key < 2 ^ 63
  · rw [if_pos suits] at read
    have accepted : KvModel.step (states key.data) ⟨getOp, key.data, [], 0⟩
        ⟨(recordedValue result).data, store.version key, (recordedCode result).value⟩ =
          (true, states key.data) := by simp [KvModel.step, getOp, data]
    exact judged_some mirrors read rfl accepted suits (fun _ _ => rfl) here
  · rw [if_neg suits] at read
    exact judged_none (by rw [read, Option.bind_none]) suits

def setInput (key : Key) (value : Value) : KvModel.Input :=
  ⟨setOp, key.data, value.data, value.version⟩

theorem step_set (mirrored : Mirrored (store.get key) st) (small : value.version < 2 ^ 63)
    (out : KvModel.Output) :
    KvModel.step st (setInput key value) out =
      if store.version key = value.version then
        (out.error == KvModel.ok || out.error == KvModel.maybe,
          ⟨value.data, ((value.version + 1 : ℕ) : ℤ).bmod (2 ^ 64)⟩)
      else (out.error == KvModel.versionMismatch || out.error == KvModel.maybe, st) := by
  have same := mirrored.version_eq_iff small
  have isSet : (setInput key value).op = 1 := rfl
  have version : (setInput key value).version = value.version := rfl
  rw [KvModel.step, isSet, if_neg (by decide), if_pos rfl, version]
  by_cases current : store.version key = value.version
  · rw [if_pos (same.mpr current), if_pos current, same.mpr current]
    push_cast
    rfl
  · rw [if_neg (current ∘ same.mp), if_neg current]

theorem judged_of_written {fresh : Prop}
    (judged : validUtf8 key.data = true → validUtf8 value.data = true → value.version < 2 ^ 63 →
      unmarshal (setOperation key value result) =
        some (setInput key value, ⟨value.data, value.version, (recordedCode result).value⟩) →
      Judged states (setOperation key value result) store'
        (validUtf8 key.data = true ∧ validUtf8 value.data = true ∧ value.version < 2 ^ 63 ∧
          fresh)) :
    Judged states (setOperation key value result) store'
      (validUtf8 key.data = true ∧ validUtf8 value.data = true ∧ value.version < 2 ^ 63 ∧
        fresh) := by
  have read : unmarshal (setOperation key value result) = _ := unmarshal_set
  by_cases written : validUtf8 key.data = true ∧ validUtf8 value.data = true ∧
      value.version < 2 ^ 63
  · rw [if_pos written] at read
    exact judged written.1 written.2.1 written.2.2 read
  · rw [if_neg written] at read
    exact judged_none (by rw [read, Option.bind_none]) (by tauto)

theorem judged_set_ok (mirrors : Mirrors store states) (done : store.set key value = .ok store')
    (recorded : recordedCode result = .ok) :
    Judged states (setOperation key value result) store'
      (validUtf8 key.data = true ∧ validUtf8 value.data = true ∧ value.version < 2 ^ 63 ∧
        (store.get key = none → value.version = 0)) := by
  refine judged_of_written fun keyText text small read => ?_
  obtain ⟨current, stored⟩ := InMemoryKVStore.set_ok done
  rw [recorded] at read
  have accepted := step_set (mirrors key) small ⟨value.data, value.version, ErrorCode.ok.value⟩
  rw [if_pos current.symm] at accepted
  have fresh (absent : store.get key = none) : value.version = 0 := by
    rw [current, InMemoryKVStore.version, absent]
    rfl
  refine judged_some mirrors read rfl accepted ⟨keyText, text, small, fresh⟩
    (fun k other => InMemoryKVStore.set_ok_other done other) ?_
  rw [stored, ← current, Nat.mod_eq_of_lt (by omega)]
  exact .present ⟨value.data, value.version + 1⟩ text (by simp) (by dsimp only; omega)

theorem judged_set_mismatch (mirrors : Mirrors store states) {stored : Value}
    (there : store.get key = some stored) (other : value.version ≠ stored.version)
    (recorded : validUtf8 key.data = true → validUtf8 stored.data = true →
      recordedCode result = .versionMismatch) :
    Judged states (setOperation key value result) store
      (validUtf8 key.data = true ∧ validUtf8 value.data = true ∧ value.version < 2 ^ 63 ∧
        (store.get key = none → value.version = 0)) := by
  refine judged_of_written fun keyText text small read => ?_
  have here := mirrors key
  have storedText := (there ▸ here).text
  rw [recorded keyText storedText] at read
  have stale : store.version key ≠ value.version := by
    rw [InMemoryKVStore.version, there]
    exact Ne.symm other
  have accepted := step_set here small
    ⟨value.data, value.version, ErrorCode.versionMismatch.value⟩
  rw [if_neg stale] at accepted
  have fresh (absent : store.get key = none) : value.version = 0 := by simp [there] at absent
  exact judged_some mirrors read rfl accepted ⟨keyText, text, small, fresh⟩ (fun _ _ => rfl) here

theorem judged_set_absent (mirrors : Mirrors store states) (absent : store.get key = none)
    (later : value.version ≠ 0) (recorded : recordedCode result = .keyNotFound) :
    Judged states (setOperation key value result) store
      (validUtf8 key.data = true ∧ validUtf8 value.data = true ∧ value.version < 2 ^ 63 ∧
        (store.get key = none → value.version = 0)) := by
  refine judged_of_written fun _ _ small read => ?_
  refine judged_none ?_ fun suits => later (suits.2.2.2 absent)
  have stale : store.version key ≠ value.version := by
    rw [InMemoryKVStore.version, absent]
    exact Ne.symm later
  have refused := step_set (mirrors key) small
    ⟨value.data, value.version, ErrorCode.keyNotFound.value⟩
  rw [if_neg stale] at refused
  have named : (setInput key value).key = key.data := rfl
  rw [read, recorded, Option.bind_some, KvModel.advance, named, refused]
  rfl

end

namespace KVTestFramework
open Porcupine
variable {t t' : KVTestFramework}

structure Tracks (t : KVTestFramework) : Prop where
  ready : t.config.Ready
  mirrors : ∀ states, verdict t.operations = some states → Mirrors t.store states

theorem Tracks.record (tracks : Tracks t) {config : Config} (ready : config.Ready)
    {store : InMemoryKVStore} {op : Porcupine.Operation} {suits : Prop}
    (judged : ∀ states, Mirrors t.store states → Judged states op store suits) :
    Tracks ⟨config, store, t.operations ++ [op]⟩ ∧
      (check (t.operations ++ [op]) = true ↔ check t.operations = true ∧ suits) := by
  rw [check_iff, check_iff]
  have split := verdict_concat t.operations op
  cases before : verdict t.operations with
  | none =>
    rw [before, Option.bind_none] at split
    exact ⟨⟨ready, fun states found => by simp [split] at found⟩, by simp [split]⟩
  | some states =>
    have judgement := judged states (tracks.mirrors states before)
    rw [before, Option.bind_some] at split
    rw [Judged, ← split] at judgement
    cases now : verdict (t.operations ++ [op]) with
    | none =>
      rw [now] at judgement
      refine ⟨⟨ready, fun states found => ?_⟩, by simpa using judgement⟩
      rw [now] at found
      cases found
    | some states' =>
      rw [now] at judgement
      refine ⟨⟨ready, fun states found => ?_⟩, by simpa using judgement.1⟩
      rw [now] at found
      cases found
      exact judgement.2

theorem recording_eq {uuid : UUIDV7} {program : Task (Except Error Reply × Config)}
    {result : Except Error Reply} {config : Config} {store : InMemoryKVStore}
    (served : program.serve (reliable uuid) t.store = some ((result, config), store))
    (recorded : Except Error Reply → Porcupine.Operation) :
    t.recording uuid program recorded =
      some ⟨config, store, t.operations ++ [recorded result]⟩ := by
  rw [recording, served]
  rfl

theorem step_get (tracks : Tracks t) (uuid : UUIDV7) (key : Key) :
    ∃ t', t.step (.get uuid key) = some t' ∧ Tracks t' ∧
      (check t'.operations = true ↔ check t.operations = true ∧ t.Suits (.get uuid key)) := by
  have answers : Answers (.get key) t.store
      (KVStoreServiceImpl.valueStatus ⟨some key, .value (t.store.get key)⟩) t.store :=
    ⟨_, rfl, rfl⟩
  generalize answered : KVStoreServiceImpl.valueStatus _ = status at answers
  have facts : Settles .get status ∧
      recordedValue (KVStoreClient.result status) = (t.store.get key).getD ⟨[], 0⟩ := by
    subst answered
    cases t.store.get key with
    | none => exact ⟨⟨rfl, by decide⟩, rfl⟩
    | some v => exact ⟨trivial, rfl⟩
  obtain ⟨config, ready, served⟩ := KVStoreClient.get_reliable uuid tracks.ready answers facts.1
  exact ⟨_, recording_eq served (getOperation key),
    tracks.record ready fun states mirrors => judged_get mirrors facts.2⟩

inductive SetFailed (store : InMemoryKVStore) (key : Key) (value : Value) (e : Error) : Prop
  | mismatch (stored : Value) (there : store.get key = some stored)
      (other : value.version ≠ stored.version)
      (text : validUtf8 key.data = true → validUtf8 stored.data = true →
        (toError (toGrpcStatus e)).code = .versionMismatch)
      (code : (toError (toGrpcStatus e)).code = .versionMismatch ∨
        (toError (toGrpcStatus e)).code = .invalidArg)
  | absent (missing : store.get key = none) (later : value.version ≠ 0)
      (code : (toError (toGrpcStatus e)).code = .keyNotFound)

theorem setFailed {store : InMemoryKVStore} {key : Key} {value : Value} {e : Error}
    (failed : store.set key value = .error e) : SetFailed store key value e := by
  have details := parseDetails_toGrpcStatus e
  unfold InMemoryKVStore.set at failed
  cases found : store.store.lookup key with
  | none =>
    simp only [found] at failed
    split_ifs at failed with later
    cases failed
    refine .absent found later ?_
    rw [toError, details]
    split_ifs <;> rfl
  | some stored =>
    simp only [found] at failed
    split_ifs at failed with other
    cases failed
    refine .mismatch stored found other (fun keyText text => ?_) ?_
    · rw [toError, details, if_pos (by simp [keyText, text])]
    · rw [toError, details]
      split_ifs
      · exact Or.inl rfl
      · exact Or.inr rfl

theorem SetFailed.settles {store : InMemoryKVStore} {key : Key} {value : Value} {e : Error}
    (failed : SetFailed store key value e) : Settles .set (.error (toGrpcStatus e)) := by
  rw [Settles]
  cases failed with
  | mismatch _ _ _ _ code => rcases code with code | code <;> rw [code] <;> decide
  | absent _ _ code => rw [code]; decide

theorem step_set (tracks : Tracks t) (uuid : UUIDV7) (key : Key) (value : Value) :
    ∃ t', t.step (.set uuid key value) = some t' ∧ Tracks t' ∧
      (check t'.operations = true ↔ check t.operations = true ∧ t.Suits (.set uuid key value)) := by
  cases outcome : t.store.set key value with
  | ok store =>
    have answers : Answers (.set key value) t.store (.ok .done) store :=
      ⟨⟨some key, .monostate⟩, by simp [KVStateMachine.applyCommand, KVStateMachine.set, outcome],
        rfl⟩
    obtain ⟨config, ready, served⟩ := KVStoreClient.set_reliable uuid tracks.ready answers trivial
    exact ⟨_, recording_eq served (setOperation key value),
      tracks.record ready fun states mirrors => judged_set_ok mirrors outcome rfl⟩
  | error e =>
    have answers : Answers (.set key value) t.store (.error (toGrpcStatus e)) t.store :=
      ⟨⟨some key, .error e⟩, by simp [KVStateMachine.applyCommand, KVStateMachine.set, outcome],
        rfl⟩
    obtain ⟨config, ready, served⟩ :=
      KVStoreClient.set_reliable uuid tracks.ready answers (setFailed outcome).settles
    refine ⟨_, recording_eq served (setOperation key value),
      tracks.record ready fun states mirrors => ?_⟩
    cases setFailed outcome with
    | mismatch stored there other text _ => exact judged_set_mismatch mirrors there other text
    | absent missing later code => exact judged_set_absent mirrors missing later code

theorem step_tracks (tracks : Tracks t) (call : Call) :
    ∃ t', t.step call = some t' ∧ Tracks t' ∧
      (check t'.operations = true ↔ check t.operations = true ∧ t.Suits call) := by
  cases call with
  | set uuid key value => exact step_set tracks uuid key value
  | get uuid key => exact step_get tracks uuid key

theorem exec_tracks (tracks : Tracks t) (calls : List Call) :
    ∃ t', exec step t calls = some t' ∧
      (check t'.operations = true ↔ check t.operations = true ∧ Along step Suits t calls) := by
  induction calls generalizing t with
  | nil => exact ⟨t, rfl, by simp [Along]⟩
  | cons call rest ih =>
    obtain ⟨t₁, moved, tracks₁, first⟩ := step_tracks tracks call
    obtain ⟨t', run, later⟩ := ih tracks₁
    refine ⟨t', by rw [exec, moved]; exact run, ?_⟩
    rw [later, first, Along, moved]
    simp [and_assoc]

theorem make_ready {policy : RetryPolicy} {walk : List String → List String}
    (permutes : ∀ names, (walk names).Perm names) {addresses : List String} {config : Config}
    (made : Config.make policy walk addresses = some config) (tries : 0 < policy.servicesToTry) :
    config.Ready := by
  rw [Config.make] at made
  split_ifs at made with empty
  cases made
  refine ⟨tries, fun none => empty ?_, fun s mem => ?_⟩
  · rw [List.map_eq_nil_iff] at none
    rw [← List.dedup_eq_nil, ← List.nil_perm, ← none]
    exact permutes _
  · obtain ⟨address, -, rfl⟩ := List.mem_map.mp mem
    rfl

instance (t : KVTestFramework) (call : Call) : Decidable (t.Suits call) := by
  cases call <;> unfold Suits <;> infer_instance

/-- The record of a test is accepted just when each of its calls suits the oracle. -/
theorem oracle_accepts_iff (config : Config) (ready : config.Ready) (calls : List Call) :
    ∃ t, exec step ⟨config, {}, []⟩ calls = some t ∧
      (check t.operations = true ↔ Along step Suits ⟨config, {}, []⟩ calls) := by
  have start : Tracks ⟨config, {}, []⟩ := by
    refine ⟨ready, fun states found key => ?_⟩
    cases found
    exact .absent
  obtain ⟨t, run, accepted⟩ := exec_tracks start calls
  refine ⟨t, run, accepted.trans ?_⟩
  simp [check, KvModel.check]

def tester : Config := ⟨ExponentialBackoff.patientPolicy, [{ address := "a" }], 1, 1⟩

theorem tester_ready : tester.Ready := by
  have made : Config.make ExponentialBackoff.patientPolicy id ["a"] = some tester := rfl
  exact make_ready (fun names => List.Perm.refl names) made (by decide)

def fourCalls : List Call :=
  let uuid := Vector.replicate 16 0
  [.set uuid ⟨[107]⟩ ⟨[118], 0⟩, .get uuid ⟨[107]⟩, .set uuid ⟨[107]⟩ ⟨[119], 1⟩,
    .set uuid ⟨[107]⟩ ⟨[120], 0⟩]

theorem oracle_accepts_four :
    ∃ t, exec step ⟨tester, {}, []⟩ fourCalls = some t ∧ check t.operations = true := by
  obtain ⟨t, run, accepted⟩ := oracle_accepts_iff tester tester_ready fourCalls
  exact ⟨t, run, accepted.mpr (by decide +kernel)⟩

/-- The first call of a test sets a key to version 1: the store says that there is no
such key, and the oracle wants to hear of the version. -/
theorem oracle_refuses_absent :
    (exec step ⟨tester, {}, []⟩ [.set (Vector.replicate 16 0) ⟨[107]⟩ ⟨[118], 1⟩]).map
        (fun t => (t.operations.map fun op => op.output.error, check t.operations)) =
      some ([.keyNotFound], false) := by
  decide +kernel

end KVTestFramework

end Zdb.KV
