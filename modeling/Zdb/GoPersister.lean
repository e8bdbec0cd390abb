import Zdb.WireFormat

/-! `GoPersister`: a persisted state goes to the Go side as a protobuf message, is
copied there into a struct of its own, and comes back through a buffer of fixed size.
The encoder of the tester and its `Persister` keep what they are given. -/

namespace Zdb.Proto
open Protobuf KV

structure PersistentState where
  currentTerm : ℕ := 0
  votedFor : Option Bytes := none
  log : List LogEntry := []
  snapshot : Bytes := []
  lastIncludedIndex : ℕ := 0
  lastIncludedTerm : ℕ := 0
  deriving DecidableEq, Repr

def persistentStateMessage : Message PersistentState where
  fields p := uintField 1 p.currentTerm ++ (optionalField 2 p.votedFor ++
    (repeatedField 3 (p.log.map logEntryMessage.serialize) ++ (bytesField 4 p.snapshot ++
      (uintField 5 p.lastIncludedIndex ++ uintField 6 p.lastIncludedTerm))))
  ofFields r :=
    if (r.optional 2).all validUtf8 then
      (logEntryMessage.parseAll (r.blobs 3)).map fun log =>
        ⟨r.uint 1, r.optional 2, log, r.bytes 4, r.uint 5, r.uint 6⟩
    else none

theorem persistentStateMessage_checks :
    persistentStateMessage.Checks fun p => p.votedFor.all validUtf8 := by
  intro p
  obtain ⟨currentTerm, votedFor, log, snapshot, lastIncludedIndex, lastIncludedTerm⟩ := p
  cases votedFor <;>
    simp [persistentStateMessage, Record.bytes, Record.optional, Record.uint,
      logEntryMessage_checks.parseAll]

theorem persistentState_parse_valid {bytes : Bytes} {p : PersistentState}
    (read : persistentStateMessage.parse bytes = some p) : p.votedFor.all validUtf8 = true := by
  obtain ⟨r, -, made⟩ := Option.bind_eq_some_iff.mp read
  simp only [persistentStateMessage, Option.ite_none_right_eq_some, Option.map_eq_some_iff] at made
  obtain ⟨valid, log, -, rfl⟩ := made
  exact valid

theorem persistentState_nonempty {p : PersistentState} (voted : p.votedFor.any validUtf8 = true) :
    persistentStateMessage.serialize p ≠ [] := by
  obtain ⟨name, vote, valid⟩ := (Option.any_eq_true ..).mp voted
  intro empty
  have fields := persistentStateMessage_checks.parse p
  rw [empty, vote, Option.all_some, if_pos valid] at fields
  have read : persistentStateMessage.parse [] = some {} := rfl
  rw [read, Option.some.injEq] at fields
  rw [← fields] at vote
  cases vote

end Zdb.Proto

namespace Zdb.Object
open Protobuf KV

/-- `raft::PersistentState`, with entries of either kind: command objects, or what the
cluster sees of them. -/
structure PersistentState (ε : Type) where
  currentTerm : ℕ := 0
  votedFor : Option Bytes := none
  log : List ε := []
  snapshotData : Bytes := []
  lastIncludedIndex : ℕ := 0
  lastIncludedTerm : ℕ := 0
  deriving DecidableEq, Repr

namespace PersistentState

def mapLog {ε δ : Type} (f : ε → δ) (s : PersistentState ε) : PersistentState δ :=
  ⟨s.currentTerm, s.votedFor, s.log.map f, s.snapshotData, s.lastIncludedIndex,
    s.lastIncludedTerm⟩

def state (s : PersistentState LogEntry) : PersistentState Raft.LogEntry :=
  s.mapLog LogEntry.entry

def message (s : PersistentState LogEntry) : Proto.PersistentState :=
  ⟨s.currentTerm, s.votedFor, s.log.map LogEntry.message, s.snapshotData, s.lastIncludedIndex,
    s.lastIncludedTerm⟩

def received (s : PersistentState LogEntry) : PersistentState LogEntry :=
  s.mapLog LogEntry.received

@[simp] theorem received_state (s : PersistentState LogEntry) : s.received.state = s.state := by
  simp [state, received, mapLog, Function.comp_def]

def encoded (s : PersistentState LogEntry) : Bytes :=
  Proto.persistentStateMessage.serialize s.message

end PersistentState

end Zdb.Object

namespace Zdb.GoPersister
open Object KV

structure RaftState where
  currentTerm : ℕ
  votedFor : Bytes
  log : List Proto.LogEntry
  lastIncludedIndex : ℕ
  lastIncludedTerm : ℕ
  deriving DecidableEq, Repr

structure Persister where
  raftstate : Option RaftState := none
  snapshot : Bytes := []
  deriving DecidableEq, Repr

/-- The persister afterwards, and whether the callback has returned 0. -/
def persisterGoInvokeCallback (p : Persister) (data : Bytes) : Persister × Bool :=
  match Proto.persistentStateMessage.parse data with
  | none => (p, false)
  | some protoState =>
      (⟨some ⟨protoState.currentTerm, protoState.votedFor.getD [], protoState.log,
        protoState.lastIncludedIndex, protoState.lastIncludedTerm⟩, protoState.snapshot⟩, true)

/-- What the callback writes into a buffer of `outLen` bytes; `none` is −1. Go does not
marshal a string that is not UTF-8. -/
def persisterGoReadCallback (p : Persister) (outLen : ℕ) : Option Bytes :=
  match p.raftstate with
  | none => none
  | some state =>
      let stateBytes := Proto.persistentStateMessage.serialize ⟨state.currentTerm,
        some state.votedFor, state.log, p.snapshot, state.lastIncludedIndex, state.lastIncludedTerm⟩
      if validUtf8 state.votedFor = false ∨ outLen < stateBytes.length then none
      else some stateBytes

def bufferSize : ℕ := 8 * 1024 * 1024

def loadBuffer (p : Persister) : Bytes := (persisterGoReadCallback p bufferSize).getD []

/-- `none`: `commandFactory` has thrown. -/
def load (p : Persister) : Option (PersistentState LogEntry) :=
  let buffer := loadBuffer p
  if buffer.isEmpty then some {}
  else match Proto.persistentStateMessage.parse buffer with
    | none => some {}
    | some q => (q.log.mapM LogEntry.ofMessage).map fun log =>
        ⟨q.currentTerm, q.votedFor, log, q.snapshot, q.lastIncludedIndex, q.lastIncludedTerm⟩

def save (p : Persister) (s : PersistentState LogEntry) : Persister :=
  (persisterGoInvokeCallback p s.encoded).1

section RoundTrip
variable {s : PersistentState LogEntry}

theorem read_encoded (s : PersistentState LogEntry) :
    Proto.persistentStateMessage.parse s.encoded =
      if s.votedFor.all validUtf8 then some s.message else none :=
  Proto.persistentStateMessage_checks.parse s.message

theorem load_valid {p : Persister} (loaded : load p = some s) :
    s.votedFor.all validUtf8 = true := by
  simp only [load] at loaded
  split_ifs at loaded
  · cases loaded
    rfl
  · split at loaded
    · cases loaded
      rfl
    · rename_i q read
      obtain ⟨log, -, rfl⟩ := Option.map_eq_some_iff.mp loaded
      exact Proto.persistentState_parse_valid read

theorem save_refused (p : Persister) (invalid : ¬ s.votedFor.all validUtf8 = true) :
    save p s = p := by
  rw [save, persisterGoInvokeCallback, read_encoded, if_neg invalid]

def voted (s : PersistentState LogEntry) : PersistentState LogEntry :=
  { s with votedFor := some (s.votedFor.getD []) }

theorem voted_eq_self (vote : s.votedFor.any validUtf8 = true) : voted s = s := by
  obtain ⟨currentTerm, votedFor, log, snapshotData, lastIncludedIndex, lastIncludedTerm⟩ := s
  cases votedFor with
  | none => cases vote
  | some name => rfl

theorem voted_valid (valid : s.votedFor.all validUtf8 = true) :
    validUtf8 (s.votedFor.getD []) = true := by
  cases vote : s.votedFor with
  | none => rfl
  | some name =>
    rw [vote] at valid
    exact valid

theorem save_eq (p : Persister) (valid : s.votedFor.all validUtf8 = true) :
    save p s = ⟨some ⟨s.currentTerm, s.votedFor.getD [], s.log.map LogEntry.message,
      s.lastIncludedIndex, s.lastIncludedTerm⟩, s.snapshotData⟩ := by
  rw [save, persisterGoInvokeCallback, read_encoded, if_pos valid]
  rfl

theorem read_save (p : Persister) (valid : s.votedFor.all validUtf8 = true) (outLen : ℕ) :
    persisterGoReadCallback (save p s) outLen =
      if outLen < (voted s).encoded.length then none else some (voted s).encoded := by
  rw [save_eq p valid]
  simp only [persisterGoReadCallback, voted_valid valid, Bool.true_eq_false, false_or]
  rfl

theorem load_save_of_fits (p : Persister) (valid : s.votedFor.all validUtf8 = true)
    (fits : (voted s).encoded.length ≤ bufferSize) :
    load (save p s) = if s.log.all fun e => e.command.payload.keyUtf8 then
      some (voted s).received else none := by
  have buffer : loadBuffer (save p s) = (voted s).encoded := by
    rw [loadBuffer, read_save p valid, if_neg (Nat.not_lt.mpr fits), Option.getD_some]
  have nonempty : (voted s).encoded.isEmpty = false := by
    rw [List.isEmpty_eq_false_iff]
    exact Proto.persistentState_nonempty (voted_valid valid)
  have read : Proto.persistentStateMessage.parse (voted s).encoded = some (voted s).message := by
    rw [read_encoded]
    exact if_pos (voted_valid valid)
  have entries : (voted s).message.log.mapM LogEntry.ofMessage =
      if s.log.all fun e => e.command.payload.keyUtf8 then some (s.log.map LogEntry.received)
      else none :=
    Protobuf.mapM_map_check LogEntry.ofMessage_message s.log
  simp only [load, buffer, nonempty, read, entries, Bool.false_eq_true, if_false]
  split <;> rfl

theorem load_save_of_large (p : Persister) (valid : s.votedFor.all validUtf8 = true)
    (large : bufferSize < (voted s).encoded.length) : load (save p s) = some {} := by
  have buffer : loadBuffer (save p s) = [] := by
    rw [loadBuffer, read_save p valid, if_pos large, Option.getD_none]
  rw [load, buffer]
  rfl

theorem eq_empty_of_state (same : ({} : PersistentState LogEntry).state = s.state) : s = {} := by
  obtain ⟨currentTerm, votedFor, log, snapshotData, lastIncludedIndex, lastIncludedTerm⟩ := s
  simp only [PersistentState.state, PersistentState.mapLog, PersistentState.mk.injEq,
    List.map_nil] at same
  obtain ⟨rfl, rfl, entries, rfl, rfl, rfl⟩ := same
  have none_left : log = [] := List.map_eq_nil_iff.mp entries.symm
  rw [none_left]

theorem empty_fits : (voted {}).encoded.length ≤ bufferSize := by decide +kernel

end RoundTrip

/-- A state comes back as it was exactly when it has a vote that is UTF-8, fits into the
buffer and its commands can be decoded. -/
theorem load_save_iff (p : Persister) (s : PersistentState LogEntry) :
    (load (save p s)).map PersistentState.state = some s.state ↔
      s.votedFor.any validUtf8 = true ∧ s.encoded.length ≤ bufferSize ∧
        ∀ e ∈ s.log, e.command.payload.keyUtf8 = true := by
  by_cases valid : s.votedFor.all validUtf8 = true
  swap
  · rw [save_refused p valid]
    constructor
    · intro same
      obtain ⟨q, loaded, same⟩ := Option.map_eq_some_iff.mp same
      have vote : q.votedFor = s.votedFor := congrArg (·.votedFor) same
      exact absurd (vote ▸ load_valid loaded) valid
    · rintro ⟨vote, _⟩
      obtain ⟨name, voted, utf8⟩ := (Option.any_eq_true ..).mp vote
      simp [voted, utf8] at valid
  rcases Nat.lt_or_ge bufferSize (voted s).encoded.length with large | fits
  · rw [load_save_of_large p valid large]
    constructor
    · intro same
      have fresh := eq_empty_of_state (Option.some.inj same)
      rw [fresh] at large
      exact absurd empty_fits (Nat.not_le.mpr large)
    · rintro ⟨vote, small, _⟩
      rw [voted_eq_self vote] at large
      exact absurd small (Nat.not_le.mpr large)
  · rw [load_save_of_fits p valid fits, ← List.all_eq_true]
    by_cases utf8 : (s.log.all fun e => e.command.payload.keyUtf8) = true
    · rw [if_pos utf8, Option.map_some, Option.some.injEq,
        PersistentState.received_state]
      constructor
      · intro same
        have vote : s.votedFor.any validUtf8 = true := by
          rw [← show (voted s).votedFor = s.votedFor from congrArg (·.votedFor) same]
          exact voted_valid valid
        exact ⟨vote, by rwa [voted_eq_self vote] at fits, utf8⟩
      · rintro ⟨vote, _, _⟩
        rw [voted_eq_self vote]
    · rw [if_neg utf8]
      exact ⟨fun same => (by cases same), fun h => absurd h.2.2 utf8⟩

/-- A node that has heard of term 1 and voted for nobody, saved and loaded. -/
theorem load_save_noVote :
    load (save {} { currentTerm := 1 }) = some { currentTerm := 1, votedFor := some [] } ∧
      (load (save {} { currentTerm := 1 })).map PersistentState.state ≠
        some ({ currentTerm := 1 } : PersistentState LogEntry).state := by
  decide +kernel

end Zdb.GoPersister
