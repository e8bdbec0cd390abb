import Zdb.GoChannel

/-! What a request of a Go state machine is on its way through the replicated state
machine and back: the command of `Submit`, the channel, `DoOp` and the reply, with the
buffers in between. -/

namespace Zdb.Proto
open Protobuf KV

inductive Result where
  | value (v : Value)
  | size (n : ℕ)
  | error (e : Error)
  deriving DecidableEq, Repr

structure State where
  key : Option Key := none
  result : Option Result := none
  deriving DecidableEq, Repr

def errorNumber : ErrorCode → ℕ
  | .ok => 0
  | .invalidArg => 1
  | .serviceTemporarilyUnavailable => 2
  | .allServicesUnavailable => 3
  | .versionMismatch => 4
  | .maybe => 5
  | .keyNotFound => 6
  | .timeout => 7
  | .notLeader => 8
  | .internal => 9
  | .cancelled => 10
  | .unknown => 128

def errorOfNumber (n : ℕ) : ErrorCode :=
  ([.ok, .invalidArg, .serviceTemporarilyUnavailable, .allServicesUnavailable, .versionMismatch,
    .maybe, .keyNotFound, .timeout, .notLeader, .internal, .cancelled][n]?).getD .unknown

def errorDetailsMessage : Message Error where
  fields e := uintField 1 (errorNumber e.code) ++ (bytesField 2 (ofString e.what) ++
    (bytesField 3 e.key ++ (bytesField 4 e.value ++ uintField 5 e.version)))
  ofFields r := do
    let what ← toString? (r.bytes 2)
    if validUtf8 (r.bytes 3) && validUtf8 (r.bytes 4) then
      return ⟨errorOfNumber (r.uint 1), what, r.bytes 3, r.bytes 4, r.uint 5⟩
    else none

/-- The fields of `result` in the order they are read: a field of another kind replaces
what is there, one of the same kind is merged into it. -/
def readResult : Protobuf.Record → Option Result → Option (Option Result)
  | [], result => some result
  | (2, .len data) :: rest, result => do
      let before := match result with
        | some (.value v) => valueMessage.serialize v
        | _ => []
      let v ← valueMessage.parse (before ++ data)
      readResult rest (some (.value v))
  | (3, .varint n) :: rest, _ => readResult rest (some (.size n))
  | (4, .len data) :: rest, result => do
      let before := match result with
        | some (.error e) => errorDetailsMessage.serialize e
        | _ => []
      let e ← errorDetailsMessage.parse (before ++ data)
      readResult rest (some (.error e))
  | _ :: rest, result => readResult rest result

def Result.fields : Result → Protobuf.Record
  | .value v => [(2, .len (valueMessage.serialize v))]
  | .size n => [(3, .varint n)]
  | .error e => [(4, .len (errorDetailsMessage.serialize e))]

def stateMessage : Message State where
  fields s := optionalField 1 (s.key.map keyMessage.serialize) ++
    (s.result.elim [] Result.fields)
  ofFields r := do
    let key ← keyMessage.parseOptional (r.message 1)
    let result ← readResult r none
    return ⟨key, result⟩

def Result.utf8 : Result → Bool
  | .error e => validUtf8 e.key && validUtf8 e.value
  | _ => true

theorem errorOfNumber_errorNumber (code : ErrorCode) :
    errorOfNumber (errorNumber code) = code := by
  cases code <;> rfl

theorem errorDetailsMessage_checks :
    errorDetailsMessage.Checks fun e => validUtf8 e.key && validUtf8 e.value := by
  intro e
  simp [errorDetailsMessage, Record.bytes, Record.optional, Record.uint,
    errorOfNumber_errorNumber]

theorem readResult_fields (result : Result) :
    readResult result.fields none = if result.utf8 then some (some result) else none := by
  cases result with
  | value v => simp [Result.fields, readResult, valueMessage_checks.parse, Result.utf8]
  | size n => simp [Result.fields, readResult, Result.utf8]
  | error e =>
    simp only [Result.fields, readResult, List.nil_append, errorDetailsMessage_checks.parse,
      Result.utf8]
    by_cases valid : (validUtf8 e.key && validUtf8 e.value) = true <;> simp [valid]

theorem readResult_key (key : Option Bytes) (rest : Protobuf.Record) :
    readResult (optionalField 1 key ++ rest) none = readResult rest none := by
  cases key with
  | none => rfl
  | some data => simp [optionalField, readResult]

theorem Result.fields_key (result : Option Result) :
    Record.blobs (result.elim [] Result.fields) 1 = [] := by
  rcases result with _ | _ | _ | _ <;> simp [Result.fields, Record.blobs]

theorem stateMessage_checks :
    stateMessage.Checks fun s =>
      (s.key.all fun k => validUtf8 k.data) && s.result.all Result.utf8 := by
  intro s
  have key : Record.message (stateMessage.fields s) 1 = s.key.map keyMessage.serialize := by
    cases found : s.key <;>
      simp [stateMessage, found, Record.message, Result.fields_key]
  have result : readResult (stateMessage.fields s) none =
      if s.result.all Result.utf8 then some s.result else none := by
    rw [stateMessage, readResult_key]
    cases s.result with
    | none => rfl
    | some result => exact readResult_fields result
  simp only [stateMessage] at key result ⊢
  rw [key, keyMessage_checks.parseOptional, result]
  by_cases keyValid : (s.key.all fun k => validUtf8 k.data) = true
  · by_cases resultValid : s.result.all Result.utf8 = true <;> simp [keyValid, resultValid]
  · simp [keyValid]

end Zdb.Proto

namespace Zdb.KV
open Protobuf

def State.toProto (s : State) : Proto.State where
  key := s.key
  result := match s.u with
    | .error e => some (.error e)
    | .value v => v.map .value
    | .monostate => none
    | .size n => some (.size n)

/-- A null pointer is `none`. -/
def State.fromString (s : Bytes) : Option State :=
  (Proto.stateMessage.parse s).bind fun state => match state.result with
    | some (.error e) => some ⟨none, .error e⟩
    | some (.size n) => some ⟨none, .size n⟩
    | some (.value v) => some ⟨none, .value (some ⟨v.data, 0⟩)⟩
    | none => none

def State.serialize (s : State) : Bytes := Proto.stateMessage.serialize s.toProto

def State.portable (s : State) : Bool :=
  s.key.isNone && match s.u with
    | .error e => validUtf8 e.key && validUtf8 e.value
    | .value (some v) => v.version == 0
    | .value none => false
    | .monostate => false
    | .size _ => true

def State.remnant (s : State) : Option State :=
  match s.u with
  | .error e => some ⟨none, .error e⟩
  | .value (some v) => some ⟨none, .value (some ⟨v.data, 0⟩)⟩
  | .value none => none
  | .monostate => none
  | .size n => some ⟨none, .size n⟩

def State.utf8 (s : State) : Bool :=
  (s.key.all fun k => validUtf8 k.data) && match s.u with
    | .error e => validUtf8 e.key && validUtf8 e.value
    | _ => true

theorem State.fromString_serialize (s : State) :
    State.fromString s.serialize = if s.utf8 then s.remnant else none := by
  rw [State.fromString, State.serialize, Proto.stateMessage_checks.parse]
  obtain ⟨key, u⟩ := s
  by_cases named : (key.all fun k => validUtf8 k.data) = true
  · rcases u with e | (_ | v) | _ | n
    case error =>
      by_cases valid : (validUtf8 e.key && validUtf8 e.value) = true <;>
        simp [State.toProto, Proto.Result.utf8, State.utf8, State.remnant, named, valid]
    all_goals simp [State.toProto, Proto.Result.utf8, State.utf8, State.remnant, named]
  · simp [State.toProto, State.utf8, named]

theorem State.remnant_eq_iff (s : State) :
    s.utf8 = true ∧ s.remnant = some s ↔ s.portable = true := by
  obtain ⟨_ | key, e | (_ | ⟨data, version⟩) | _ | n⟩ := s
  case none.value.some => simp [State.remnant, State.portable, State.utf8, eq_comm (a := 0)]
  all_goals simp [State.remnant, State.portable, State.utf8]

/-- A state comes back from its message if it has no key, no version, and is not the
state after a `set` or the `erase` of a key that was not there; an error has to be made of
UTF-8 texts. The exceptions are read as a null pointer, and a key or a version is never
read. -/
theorem state_round_trip_iff (s : State) :
    (State.fromString s.serialize = some s ↔ s.portable = true) ∧
    (s.u = .monostate ∨ s.u = .value none → State.fromString s.serialize = none) ∧
    ∀ r, State.fromString s.serialize = some r →
      r.key = none ∧ ∀ v, s.u = .value (some v) → r.u = .value (some ⟨v.data, 0⟩) := by
  rw [State.fromString_serialize, ← State.remnant_eq_iff]
  refine ⟨by simp, fun empty => ?_, fun r read => ?_⟩
  · rcases empty with empty | empty <;> simp [State.remnant, empty]
  · obtain ⟨-, read⟩ := (Option.ite_none_right_eq_some ..).mp read
    obtain ⟨key, e | (_ | v) | _ | n⟩ := s <;> cases read
    case value.some.refl => exact ⟨rfl, fun v found => by cases found; rfl⟩
    all_goals exact ⟨rfl, fun v found => by cases found⟩

end Zdb.KV

namespace Zdb.Go
open Protobuf Object GoChannel

inductive Err where
  | ok
  | errWrongLeader
  deriving DecidableEq, Repr

/-- `none` is the value nil. -/
structure Op (α : Type) where
  req : Option α := none
  rep : Option α := none

/-- What is used of `labgob`: values whose types are registered can be read back. -/
structure Labgob (α : Type) where
  encode : Op α → Bytes
  decode : Bytes → Option (Op α)
  encode_ne_nil : ∀ op, encode op ≠ []
  decode_encode : ∀ op, decode (encode op) = some op

variable {α σ : Type} (gob : Labgob α) (doOp : σ → Option α → σ × Option α)

def replyMessage (rep : Option α) : Bytes :=
  Proto.stateMessage.serialize { result := some (.value ⟨gob.encode { rep }, 0⟩) }

def requested (command : Bytes) : Option (Option α) := do
  let c ← Proto.commandMessage.parse command
  let value ← c.value
  if value.data = [] then none
  else
    let x ← gob.decode value.data
    return x.req

/-- The bytes that are copied to `out`; `none` is the result -1. -/
def stateMachineGoApplyCommand (machine : σ) (command : Bytes) : σ × Option Bytes :=
  match requested gob command with
  | none => (machine, none)
  | some req => ((doOp machine req).1, some (replyMessage gob (doOp machine req).2))

namespace GoStateMachine

def maxSize : ℕ := 4096

def applyCommand (machine : σ) (command : Object.Command) : Outcome (σ × Option KV.State) :=
  match stateMachineGoApplyCommand gob doOp machine command.serialize with
  | (machine', none) => .ok (machine', some ⟨none, .error ⟨.unknown, "Unknown", [], [], 0⟩⟩)
  | (machine', some out) =>
    if maxSize < out.length then .overflow else .ok (machine', KV.State.fromString out)

end GoStateMachine

/-- Raft gives `c` to the channel, and `consumeChannel` takes it, applies it and comes to
`complete`, with this UUID and state. -/
def deliver (machine : σ) (c : Object.Command) :
    Outcome (σ × Option (UUIDV7 × Option KV.State)) :=
  (sendUntil .taken c).bind fun msg => (receiveUntil (.message msg)).bind fun
    | .ok (some received) =>
      (GoStateMachine.applyCommand gob doOp machine received).bind fun (machine', s) =>
        .ok (machine', some (received.uuid, s))
    | _ => .ok (machine, none)

def notLeaderState : KV.State := ⟨none, .error ⟨.notLeader, "not the leader", [], [], 0⟩⟩

def submitMessage (uuid : UUIDV7) (req : Option α) : Proto.Command where
  op := "r"
  value := some ⟨gob.encode { req }, 0⟩
  requestID := some ⟨uuidV7ToString uuid⟩

def replySize : ℕ := 64 * 1024

/-- The end of `rsm_submit`: a null pointer is used as if it were a state. -/
def rsmSubmitReply : Option KV.State → Outcome Bytes
  | none => .panic
  | some s => if replySize < s.serialize.length then .overflow else .ok s.serialize

def submitResult (state : Option KV.State) : Outcome (Err × Option α) :=
  (rsmSubmitReply state).bind fun reply => match Proto.stateMessage.parse reply with
    | some { result := some (.value v), .. } => match gob.decode v.data with
        | none => .ok (.errWrongLeader, none)
        | some y => .ok (.ok, y.rep)
    | _ => .ok (.errWrongLeader, none)

section Reply

def submitted (uuid : UUIDV7) (req : Option α) (index : ℕ) : Object.Command :=
  ⟨⟨uuid, .rmsCommand (gob.encode { req })⟩, index⟩

def replyState (rep : Option α) : KV.State := ⟨none, .value (some ⟨gob.encode { rep }, 0⟩)⟩

theorem replyState_serialize (rep : Option α) :
    (replyState gob rep).serialize = replyMessage gob rep := rfl

theorem parse_replyMessage (rep : Option α) :
    Proto.stateMessage.parse (replyMessage gob rep) =
      some { result := some (.value ⟨gob.encode { rep }, 0⟩) } := by
  rw [replyMessage, Proto.stateMessage_checks.parse]
  rfl

theorem fromString_replyMessage (rep : Option α) :
    KV.State.fromString (replyMessage gob rep) = some (replyState gob rep) := by
  rw [KV.State.fromString, parse_replyMessage]
  rfl

theorem commandFactory_submitMessage (uuid : UUIDV7) (req : Option α) :
    commandFactory (Proto.commandMessage.serialize (submitMessage gob uuid req)) =
      some (submitted gob uuid req 0) :=
  commandFactory_rms (c := submitted gob uuid req 0) rfl

theorem requested_submitted (uuid : UUIDV7) (req : Option α) (index : ℕ) :
    requested gob (submitted gob uuid req index).serialize = some req := by
  have parsed : Proto.commandMessage.parse (submitted gob uuid req index).serialize =
      some (submitted gob uuid req index).message :=
    Proto.commandMessage_checks.parse _
  have value : (submitted gob uuid req index).message.value = some ⟨gob.encode { req }, 0⟩ := rfl
  simp [requested, parsed, value, gob.encode_ne_nil, gob.decode_encode]

theorem deliver_submitted (machine : σ) (uuid : UUIDV7) (req : Option α) (index : ℕ) :
    deliver gob doOp machine (submitted gob uuid req index) =
      if bufferSize < (submitted gob uuid req index).serialize.length ∨
          GoStateMachine.maxSize < (replyMessage gob (doOp machine req).2).length then .overflow
      else .ok ((doOp machine req).1, some (uuid, some (replyState gob (doOp machine req).2))) := by
  have returned := rms_returned (c := submitted gob uuid req index) rfl
  rw [deliver, ← Outcome.bind_assoc, returned]
  by_cases long : bufferSize < (submitted gob uuid req index).serialize.length
  · simp only [long, true_or, if_true, Outcome.bind]
  · simp only [long, false_or, if_false, Outcome.bind, GoStateMachine.applyCommand,
      stateMachineGoApplyCommand, requested_submitted, fromString_replyMessage]
    by_cases large : GoStateMachine.maxSize < (replyMessage gob (doOp machine req).2).length
    · simp only [large, if_true]
    · simp only [large, if_false]
      rfl

theorem deliver_uuid {machine machine' : σ} {c : Object.Command}
    {done : Option (UUIDV7 × Option KV.State)} (rms : c.payload.kind = .rmsCommand)
    (delivered : deliver gob doOp machine c = .ok (machine', done)) :
    ∃ state, done = some (c.uuid, state) := by
  rw [deliver, ← Outcome.bind_assoc, rms_returned rms] at delivered
  split at delivered
  · cases delivered
  · cases applied : GoStateMachine.applyCommand gob doOp machine c with
    | ok result =>
      simp only [Outcome.bind, applied, Outcome.ok.injEq, Prod.mk.injEq] at delivered
      exact ⟨result.2, delivered.2.symm⟩
    | _ => simp [Outcome.bind, applied] at delivered

theorem serialize_error (e : KV.Error) : KV.State.serialize ⟨none, .error e⟩ =
    writeField (4, .len (Proto.errorDetailsMessage.serialize e)) := by
  show Protobuf.serialize [(4, .len (Proto.errorDetailsMessage.serialize e))] = _
  rw [Protobuf.serialize, List.flatMap_singleton]

theorem notLeaderState_length : notLeaderState.serialize.length ≤ replySize := by
  have text : (ofString "not the leader").length = 14 := by decide
  have fields : Proto.errorDetailsMessage.fields ⟨.notLeader, "not the leader", [], [], 0⟩ =
      [(1, .varint 8), (2, .len (ofString "not the leader"))] := by decide
  have details : (Proto.errorDetailsMessage.serialize
      ⟨.notLeader, "not the leader", [], [], 0⟩).length = 18 := by
    rw [Message.serialize, fields, Protobuf.serialize, List.flatMap_cons, List.flatMap_singleton,
      List.length_append, writeField_varint_length (by decide), writeField_len_length (by decide),
      text, varint_length_one (by decide), varint_length_one (by decide)]
  rw [notLeaderState, serialize_error, writeField_len_length (by decide), details,
    varint_length_one (by decide)]
  decide

theorem submitResult_notLeader :
    submitResult gob (some notLeaderState) = .ok (.errWrongLeader, none) := by
  have parsed : Proto.stateMessage.parse notLeaderState.serialize =
      some notLeaderState.toProto := by
    rw [KV.State.serialize, Proto.stateMessage_checks.parse]
    rfl
  have room := Nat.not_lt.mpr notLeaderState_length
  simp only [submitResult, rsmSubmitReply, room, if_false, Outcome.bind, parsed]
  rfl

theorem submitResult_reply {rep : Option α}
    (fits : (replyMessage gob rep).length ≤ GoStateMachine.maxSize) :
    submitResult gob (some (replyState gob rep)) = .ok (.ok, rep) := by
  have room : ¬replySize < (replyMessage gob rep).length := by
    rw [GoStateMachine.maxSize] at fits
    rw [replySize]
    omega
  simp only [submitResult, rsmSubmitReply, replyState_serialize, room, if_false, Outcome.bind,
    parse_replyMessage, gob.decode_encode]

end Reply

end Zdb.Go
