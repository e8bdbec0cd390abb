import Zdb.ErrorConverter
import Zdb.Protobuf
import Zdb.Rsm

/-! What `raft.proto` and `types.proto` say, and the conversions between their
messages and the objects of the store. Command objects carry the index that the
conversions read and write; a log entry of the cluster does not need it. A peer id is
a string and so always UTF-8; keys are bytes that parsing checks. -/

namespace Zdb.Proto
open Protobuf KV

structure RequestID where
  uuid : Bytes := []
  deriving DecidableEq, Repr

structure Command where
  op : String := ""
  key : Option Key := none
  value : Option Value := none
  requestID : Option RequestID := none
  index : ℕ := 0
  deriving DecidableEq, Repr

structure LogEntry where
  index : ℕ
  term : ℕ
  command : Bytes
  deriving DecidableEq, Repr

structure AppendEntriesArg where
  leaderId : String
  term : ℕ
  prevLogIndex : ℕ
  prevLogTerm : ℕ
  leaderCommit : ℕ
  entries : List LogEntry
  deriving DecidableEq, Repr

def keyMessage : Message Key where
  fields k := bytesField 1 k.data
  ofFields r := if validUtf8 (r.bytes 1) then some ⟨r.bytes 1⟩ else none

def valueMessage : Message Value where
  fields v := bytesField 1 v.data ++ uintField 2 v.version
  ofFields r := some ⟨r.bytes 1, r.uint 2⟩

def requestIDMessage : Message RequestID where
  fields i := bytesField 1 i.uuid
  ofFields r := some ⟨r.bytes 1⟩

def commandMessage : Message Command where
  fields c := bytesField 1 (ofString c.op) ++ (optionalField 2 (c.key.map keyMessage.serialize) ++
    (optionalField 3 (c.value.map valueMessage.serialize) ++
      (optionalField 4 (c.requestID.map requestIDMessage.serialize) ++ uintField 5 c.index)))
  ofFields r := do
    let op ← toString? (r.bytes 1)
    let key ← keyMessage.parseOptional (r.message 2)
    let value ← valueMessage.parseOptional (r.message 3)
    let requestID ← requestIDMessage.parseOptional (r.message 4)
    return ⟨op, key, value, requestID, r.uint 5⟩

def logEntryMessage : Message LogEntry where
  fields e := uintField 1 e.index ++ (uintField 2 e.term ++ bytesField 3 e.command)
  ofFields r := some ⟨r.uint 1, r.uint 2, r.bytes 3⟩

def appendEntriesArgMessage : Message AppendEntriesArg where
  fields a := bytesField 1 (ofString a.leaderId) ++ (uintField 2 a.term ++
    (uintField 3 a.prevLogIndex ++ (uintField 4 a.prevLogTerm ++ (uintField 5 a.leaderCommit ++
      repeatedField 6 (a.entries.map logEntryMessage.serialize)))))
  ofFields r := do
    let leaderId ← toString? (r.bytes 1)
    let entries ← logEntryMessage.parseAll (r.blobs 6)
    return ⟨leaderId, r.uint 2, r.uint 3, r.uint 4, r.uint 5, entries⟩

theorem keyMessage_checks : keyMessage.Checks fun k => validUtf8 k.data := by
  intro k
  simp [keyMessage, Record.bytes, Record.optional]

theorem valueMessage_checks : valueMessage.Checks fun _ => true := by
  intro v
  simp [valueMessage, Record.bytes, Record.optional, Record.uint]

theorem requestIDMessage_checks : requestIDMessage.Checks fun _ => true := by
  intro i
  simp [requestIDMessage, Record.bytes, Record.optional]

theorem commandMessage_checks :
    commandMessage.Checks fun c => c.key.all fun k => validUtf8 k.data := by
  intro c
  simp [commandMessage, Record.bytes, Record.optional, Record.message, Record.uint,
    keyMessage_checks.parseOptional, valueMessage_checks.parseOptional,
    requestIDMessage_checks.parseOptional]
  split <;> rfl

theorem logEntryMessage_checks : logEntryMessage.Checks fun _ => true := by
  intro e
  simp [logEntryMessage, Record.bytes, Record.optional, Record.uint]

theorem appendEntriesArgMessage_checks : appendEntriesArgMessage.Checks fun _ => true := by
  intro a
  simp [appendEntriesArgMessage, Record.bytes, Record.optional, Record.uint,
    logEntryMessage_checks.parseAll]

end Zdb.Proto

namespace Zdb

def Payload.keyUtf8 : Payload → Bool
  | .get key => KV.validUtf8 key.data
  | .set key _ => KV.validUtf8 key.data
  | .erase key => KV.validUtf8 key.data
  | .testCommand data => KV.validUtf8 data
  | _ => true

inductive Kind where
  | get
  | set
  | erase
  | size
  | testCommand
  | rmsCommand
  | noOp
  | installSnapshotCommand
  deriving DecidableEq, Repr

def Payload.kind : Payload → Kind
  | .get _ => .get
  | .set _ _ => .set
  | .erase _ => .erase
  | .size => .size
  | .testCommand _ => .testCommand
  | .rmsCommand _ => .rmsCommand
  | .noOp => .noOp
  | .installSnapshotCommand _ _ _ => .installSnapshotCommand

namespace Object
open Protobuf Rsm

/-- A command object with the index it keeps. -/
structure Command extends Zdb.Command where
  index : ℕ := 0
  deriving DecidableEq, Repr

structure LogEntry where
  index : ℕ
  term : ℕ
  command : Command
  deriving DecidableEq, Repr

structure AppendEntriesArg where
  leaderId : Raft.PeerId
  term : ℕ
  prevLogIndex : ℕ
  prevLogTerm : ℕ
  leaderCommit : ℕ
  entries : List LogEntry
  deriving DecidableEq, Repr

def LogEntry.entry (e : LogEntry) : Raft.LogEntry := ⟨e.index, e.term, e.command.toCommand⟩

def AppendEntriesArg.arg (a : AppendEntriesArg) : Raft.AppendEntriesArg :=
  ⟨a.leaderId, a.term, a.prevLogIndex, a.prevLogTerm, a.leaderCommit,
    .ofEntries (a.entries.map LogEntry.entry)⟩

def uuidV7ToString (uuid : UUIDV7) : Bytes := uuid.toList

namespace Command

def message (c : Command) : Proto.Command :=
  let requestID : Option Proto.RequestID := some ⟨uuidV7ToString c.uuid⟩
  match c.payload with
  | .get key => { op := "g", key := some key, requestID, index := c.index }
  | .set key value =>
      { op := "s", key := some key, value := some value, requestID, index := c.index }
  | .erase key => { op := "e", key := some key, requestID, index := c.index }
  | .size => { op := "z", requestID, index := c.index }
  | .testCommand data => { op := "t", key := some ⟨data⟩, index := c.index, requestID }
  | .rmsCommand data => { op := "r", value := some ⟨data, 0⟩, index := c.index, requestID }
  | .noOp => { op := "n", index := c.index, requestID }
  | .installSnapshotCommand lastIncludedIndex lastIncludedTerm data =>
      { op := "i", index := lastIncludedIndex, value := some ⟨data, lastIncludedTerm⟩, requestID }

def serialize (c : Command) : Bytes := Proto.commandMessage.serialize c.message

/-- The constructors from a message; a field that is missing reads as its default. -/
def ofMessage (cmd : Proto.Command) (payload : Payload) : Command where
  uuid := stringToUuidV7 (cmd.requestID.getD {}).uuid
  payload := payload
  index := cmd.index

end Command

/-- The exceptions `commandFactory` throws are `none`. -/
def commandFactory (s : Bytes) : Option Command :=
  (Proto.commandMessage.parse s).bind fun cmd =>
    let key := cmd.key.getD ⟨[]⟩
    let value := cmd.value.getD ⟨[], 0⟩
    if cmd.op == "g" then some (.ofMessage cmd (.get key))
    else if cmd.op == "s" then some (.ofMessage cmd (.set key value))
    else if cmd.op == "e" then some (.ofMessage cmd (.erase key))
    else if cmd.op == "z" then some (.ofMessage cmd .size)
    else if cmd.op == "t" then some (.ofMessage cmd (.testCommand key.data))
    else if cmd.op == "n" then some (.ofMessage cmd .noOp)
    else if cmd.op == "i" then
      some (.ofMessage cmd (.installSnapshotCommand cmd.index value.version value.data))
    else if cmd.op == "r" then some (.ofMessage cmd (.rmsCommand value.data))
    else none

/-- What comes out of `commandFactory`: a snapshot command has lost its index. -/
def Command.received (c : Command) : Command :=
  match c.payload with
  | .installSnapshotCommand lastIncludedIndex _ _ => { c with index := lastIncludedIndex }
  | _ => c

@[simp] theorem stringToUuidV7_toString (uuid : UUIDV7) :
    stringToUuidV7 (uuidV7ToString uuid) = uuid := by
  simp [stringToUuidV7, uuidV7ToString, Vector.toList]

theorem Command.message_key (c : Command) :
    (c.message.key.all fun k => KV.validUtf8 k.data) = c.payload.keyUtf8 := by
  obtain ⟨⟨uuid, payload⟩, index⟩ := c
  cases payload <;> rfl

theorem commandFactory_serialize (c : Command) :
    commandFactory c.serialize = if c.payload.keyUtf8 then some c.received else none := by
  rw [commandFactory, Command.serialize, Proto.commandMessage_checks.parse, Command.message_key]
  split
  · obtain ⟨⟨uuid, payload⟩, index⟩ := c
    cases payload <;> simp [Command.message, Command.received, Command.ofMessage]
  · rfl

def LogEntry.message (e : LogEntry) : Proto.LogEntry := ⟨e.index, e.term, e.command.serialize⟩

def LogEntry.ofMessage (entry : Proto.LogEntry) : Option LogEntry :=
  (commandFactory entry.command).map fun command => ⟨entry.index, entry.term, command⟩

def LogEntry.received (e : LogEntry) : LogEntry := { e with command := e.command.received }

theorem LogEntry.ofMessage_message (e : LogEntry) :
    LogEntry.ofMessage e.message =
      if e.command.payload.keyUtf8 then some e.received else none := by
  simp only [LogEntry.ofMessage, LogEntry.message, commandFactory_serialize]
  split <;> rfl

namespace AppendEntriesArg

def message (a : AppendEntriesArg) : Proto.AppendEntriesArg :=
  ⟨a.leaderId, a.term, a.prevLogIndex, a.prevLogTerm, a.leaderCommit,
    a.entries.map LogEntry.message⟩

def ofMessage (arg : Proto.AppendEntriesArg) : Option AppendEntriesArg :=
  (arg.entries.mapM LogEntry.ofMessage).map fun entries =>
    ⟨arg.leaderId, arg.term, arg.prevLogIndex, arg.prevLogTerm, arg.leaderCommit, entries⟩

theorem ofMessage_message (a : AppendEntriesArg) :
    ofMessage a.message = if a.entries.all fun e => e.command.payload.keyUtf8 then
      some { a with entries := a.entries.map LogEntry.received } else none := by
  simp only [ofMessage, message, mapM_map_check LogEntry.ofMessage_message]
  split <;> rfl

end AppendEntriesArg

structure SameEntry (e f : LogEntry) : Prop where
  index : f.index = e.index
  term : f.term = e.term
  kind : f.command.payload.kind = e.command.payload.kind
  equal : e.command.equal f.command.toCommand = true
  equal_symm : f.command.equal e.command.toCommand = true
  uuid : f.command.uuid = e.command.uuid
  command_index : e.command.payload.kind ≠ .installSnapshotCommand →
    f.command.index = e.command.index

@[simp] theorem Command.received_toCommand (c : Command) :
    c.received.toCommand = c.toCommand := by
  obtain ⟨⟨uuid, payload⟩, index⟩ := c
  cases payload <;> rfl

theorem Command.received_index {c : Command} (other : c.payload.kind ≠ .installSnapshotCommand) :
    c.received.index = c.index := by
  obtain ⟨⟨uuid, payload⟩, index⟩ := c
  cases payload with
  | installSnapshotCommand => exact absurd rfl other
  | _ => rfl

theorem LogEntry.received_same (e : LogEntry) : SameEntry e e.received where
  index := rfl
  term := rfl
  kind := by rw [LogEntry.received, Command.received_toCommand]
  equal := by rw [LogEntry.received, Command.received_toCommand, Zdb.Command.equal_self]
  equal_symm := by rw [LogEntry.received, Command.received_toCommand, Zdb.Command.equal_self]
  uuid := by rw [LogEntry.received, Command.received_toCommand]
  command_index := Command.received_index

@[simp] theorem LogEntry.received_entry (e : LogEntry) : e.received.entry = e.entry := by
  rw [LogEntry.entry, LogEntry.received, Command.received_toCommand, LogEntry.entry]

/-- An argument survives the conversion to its message and back, with the message
serialized and parsed in between or not. -/
theorem appendEntriesArg_round_trip (a : AppendEntriesArg)
    (utf8 : ∀ e ∈ a.entries, e.command.payload.keyUtf8 = true) :
    ∃ b, AppendEntriesArg.ofMessage a.message = some b ∧
      (Proto.appendEntriesArgMessage.parse (Proto.appendEntriesArgMessage.serialize
        a.message)).bind AppendEntriesArg.ofMessage = some b ∧
      b.leaderId = a.leaderId ∧ b.term = a.term ∧ b.prevLogIndex = a.prevLogIndex ∧
      b.prevLogTerm = a.prevLogTerm ∧ b.leaderCommit = a.leaderCommit ∧
      List.Forall₂ SameEntry a.entries b.entries ∧ b.arg = a.arg := by
  have all : (a.entries.all fun e => e.command.payload.keyUtf8) = true :=
    List.all_eq_true.mpr utf8
  have back := a.ofMessage_message
  rw [if_pos all] at back
  have read := Proto.appendEntriesArgMessage_checks.parse a.message
  rw [if_pos rfl] at read
  refine ⟨_, back, by rw [read, Option.bind_some, back], rfl, rfl, rfl, rfl, rfl, ?_, ?_⟩
  · rw [List.forall₂_map_right_iff, List.forall₂_same]
    exact fun e _ => e.received_same
  · simp [AppendEntriesArg.arg, Function.comp_def]

def everyKind : AppendEntriesArg where
  leaderId := "a"
  term := 2
  prevLogIndex := 0
  prevLogTerm := 0
  leaderCommit := 300
  entries := [Payload.get ⟨[107]⟩, .set ⟨[107]⟩ ⟨[0, 255], 3⟩, .erase ⟨[0xC3, 0xA9]⟩, .size,
    .testCommand [116], .noOp, .installSnapshotCommand 7 1 [255], .rmsCommand [254]].map
      fun payload => ⟨1, 2, ⟨⟨Vector.replicate 16 1, payload⟩, 1⟩⟩

theorem appendEntriesArg_round_trip_everyKind :
    (∀ e ∈ everyKind.entries, e.command.payload.keyUtf8 = true) ∧
      ∃ b, AppendEntriesArg.ofMessage everyKind.message = some b ∧
        List.Forall₂ SameEntry everyKind.entries b.entries := by
  have utf8 : ∀ e ∈ everyKind.entries, e.command.payload.keyUtf8 = true := by decide
  obtain ⟨b, back, _, _, _, _, _, _, same, _⟩ := appendEntriesArg_round_trip everyKind utf8
  exact ⟨utf8, b, back, same⟩

end Object

end Zdb
