import Mathlib.Algebra.Group.Int.Defs
import Zdb.SyncChannel
import Zdb.WireFormat

/-! The channel to Go. A command goes over as a protobuf message and becomes an
`ApplyMsg`, which the tester reads as it is, or which C++ takes back into a buffer of
fixed size. Text that looks like a number becomes one on the way. -/

namespace Zdb.Go
open Protobuf Object

/-- What a call into Go or out of it comes to. `overflow` is a write behind the end of a
buffer, `throws` an exception that nobody catches. -/
inductive Outcome (α : Type) where
  | ok (result : α)
  | failed
  | panic
  | overflow
  | throws
  deriving DecidableEq, Repr

def Outcome.bind {α β : Type} (o : Outcome α) (f : α → Outcome β) : Outcome β :=
  match o with
  | .ok a => f a
  | .failed => .failed
  | .panic => .panic
  | .overflow => .overflow
  | .throws => .throws

theorem Outcome.bind_ok {α : Type} (o : Outcome α) : o.bind .ok = o := by
  cases o <;> rfl

theorem Outcome.bind_assoc {α β γ : Type} (o : Outcome α) (f : α → Outcome β)
    (g : β → Outcome γ) : (o.bind f).bind g = o.bind fun a => (f a).bind g := by
  cases o <;> rfl

/-! `strconv.Itoa` and `strconv.Atoi`, with an `int` of 64 bits. -/

def digit (d : ℕ) : UInt8 := UInt8.ofNat (d + 48)

def decimal (n : ℕ) : Bytes :=
  if n < 10 then [digit n] else decimal (n / 10) ++ [digit (n % 10)]
termination_by n

def itoa (n : ℤ) : Bytes := if n < 0 then 45 :: decimal n.natAbs else decimal n.natAbs

def isDigit (b : UInt8) : Bool := 48 ≤ b && b ≤ 57

def readDecimal (digits : Bytes) : Option ℕ :=
  if digits ≠ [] ∧ digits.all isDigit = true then
    some (digits.foldl (fun n b => 10 * n + (b.toNat - 48)) 0)
  else none

def inInt (n : ℤ) : Bool := -2 ^ 63 ≤ n && n < 2 ^ 63

def atoi (text : Bytes) : Option ℤ :=
  let read : Option ℤ := match text with
    | 45 :: digits => (readDecimal digits).map fun n : ℕ => -(n : ℤ)
    | 43 :: digits => (readDecimal digits).map fun n : ℕ => (n : ℤ)
    | digits => (readDecimal digits).map fun n : ℕ => (n : ℤ)
  read.filter inInt

inductive Any where
  | int (n : ℤ)
  | string (text : Bytes)
  | bytes (data : Bytes)
  deriving DecidableEq, Repr

structure ApplyMsg where
  commandValid : Bool := false
  command : Option Any := none
  commandIndex : ℤ := 0
  snapshotValid : Bool := false
  snapshot : Bytes := []
  snapshotTerm : ℤ := 0
  snapshotIndex : ℤ := 0
  deriving DecidableEq, Repr

def signed (w : ℕ) (n : ℤ) : ℤ := Int.bmod n (2 ^ w)

/-- What a sender finds behind the handle: a channel from which somebody takes the
message before the deadline, or nobody does, or a channel that is closed. -/
inductive Sink where
  | unknown
  | idle
  | taken
  | closed
  deriving DecidableEq, Repr

def applied (text : Bytes) : Any :=
  match atoi text with
  | none => .string text
  | some x => .int x

def applyMsg (s : Bytes) (index : ℤ) (c : Proto.Command) : Outcome ApplyMsg :=
  if c.op = "i" then match c.value with
    | none => .panic
    | some value => .ok {
        snapshotValid := true
        snapshot := value.data
        snapshotIndex := signed 64 c.index
        snapshotTerm := signed 64 value.version }
  else if c.op = "r" then
    .ok { commandValid := true, command := some (.bytes s), commandIndex := index }
  else match c.key with
    | none => .panic
    | some key =>
        .ok { commandValid := true, command := some (applied key.data), commandIndex := index }

/-- `failed` is the result 1. -/
def sendToApplyCh (sink : Sink) (s : Bytes) (index : ℤ) : Outcome ApplyMsg :=
  if s = [] ∨ sink = .unknown then .failed
  else match Proto.commandMessage.parse s with
    | none => .failed
    | some c => (applyMsg s index c).bind fun msg => match sink with
        | .taken => .ok msg
        | .closed => .panic
        | _ => .failed

inductive Source where
  | unknown
  | idle
  | closed
  | message (msg : ApplyMsg)
  deriving DecidableEq, Repr

def marshalSnapshot (msg : ApplyMsg) : Bytes :=
  Proto.commandMessage.serialize
    { op := ""
      value := some ⟨msg.snapshot, (msg.snapshotTerm % 2 ^ 64).toNat⟩
      index := (msg.snapshotIndex % 2 ^ 64).toNat }

def ApplyMsg.contents (msg : ApplyMsg) : Option Bytes :=
  if msg.commandValid then msg.command.map fun
    | .string text => text
    | .int n => itoa n
    | .bytes data => data
  else if msg.snapshotValid then some (marshalSnapshot msg)
  else none

/-- The result and the bytes copied to the caller's buffer. An empty slice has no first
byte whose address could be taken. -/
def receiveFromApplyCh : Source → Outcome (ℤ × Bytes)
  | .unknown => .ok (1, [])
  | .idle => .ok (-1, [])
  | .closed => .ok (-2, [])
  | .message msg => match msg.contents with
      | none => .ok (-1, [])
      | some b => if b = [] then .panic else .ok (b.length, b)

namespace GoChannel
open SyncChannel (ChannelError)

def sendUntil (sink : Sink) (command : Object.Command) : Outcome ApplyMsg :=
  sendToApplyCh sink command.serialize (signed 32 command.index)

def bufferSize : ℕ := 1024

def receiveUntil (source : Source) : Outcome (Except ChannelError (Option Object.Command)) :=
  (receiveFromApplyCh source).bind fun (size, written) =>
    if bufferSize < written.length then .overflow
    else if size = -2 then .ok (.error .closed)
    else if size < 0 then .ok (.ok none)
    else
      -- a bad handle is told by the size 1 and leaves a zero in the buffer
      let buffer := written ++ List.replicate (size.toNat - written.length) 0
      match commandFactory buffer with
      | none => .throws
      | some c => .ok (.ok (some c))

end GoChannel

section Numbers

theorem digit_toNat {d : ℕ} (small : d < 10) : (digit d).toNat = d + 48 := by
  rw [digit, UInt8.toNat_ofNat']
  omega

theorem isDigit_digit {d : ℕ} (small : d < 10) : isDigit (digit d) = true := by
  have value := digit_toNat small
  simp only [isDigit, Bool.and_eq_true, decide_eq_true_eq, UInt8.le_iff_toNat_le, value]
  constructor
  · exact Nat.le_add_left 48 d
  · show d + 48 ≤ 57
    omega

theorem decimal_spec (n : ℕ) : (decimal n).all isDigit = true ∧ decimal n ≠ [] ∧
    (decimal n).foldl (fun n b => 10 * n + (b.toNat - 48)) 0 = n := by
  induction n using Nat.strongRecOn with
  | ind n ih =>
    rw [decimal]
    by_cases small : n < 10
    · simp [small, isDigit_digit, digit_toNat]
    · have last : n % 10 < 10 := by omega
      obtain ⟨digits, -, value⟩ := ih (n / 10) (by omega)
      simp only [if_neg small, List.all_append, digits, List.all_cons, isDigit_digit last,
        List.all_nil, Bool.and_self, List.foldl_append, value, List.foldl_cons, List.foldl_nil,
        digit_toNat last, ne_eq, List.append_eq_nil_iff, List.cons_ne_self, and_false,
        not_false_eq_true, true_and]
      omega

theorem readDecimal_decimal (n : ℕ) : readDecimal (decimal n) = some n := by
  obtain ⟨digits, some, value⟩ := decimal_spec n
  rw [readDecimal, if_pos ⟨some, digits⟩, value]

theorem atoi_of_digits {text : Bytes} (digits : text.all isDigit = true) :
    atoi text = ((readDecimal text).map fun n : ℕ => (n : ℤ)).filter inInt := by
  cases text with
  | nil => rfl
  | cons b rest =>
    have first : isDigit b = true := by
      rw [List.all_cons, Bool.and_eq_true] at digits
      exact digits.1
    have notMinus : b ≠ 45 := by
      rintro rfl
      exact absurd first (by decide)
    have notPlus : b ≠ 43 := by
      rintro rfl
      exact absurd first (by decide)
    simp [atoi, notMinus, notPlus]

theorem atoi_itoa {n : ℤ} (range : inInt n = true) : atoi (itoa n) = some n := by
  have read := readDecimal_decimal n.natAbs
  by_cases negative : n < 0
  · have value : -(n.natAbs : ℤ) = n := by omega
    simp only [itoa, if_pos negative, atoi, read, Option.map_some, value, Option.filter_some,
      range, if_true]
  · have value : (n.natAbs : ℤ) = n := by omega
    rw [itoa, if_neg negative, atoi_of_digits (decimal_spec n.natAbs).1, read, Option.map_some,
      value, Option.filter_some, if_pos range]

theorem decimal_length_le {n length : ℕ} (some : 0 < length) (small : n < 10 ^ length) :
    (decimal n).length ≤ length := by
  induction length generalizing n with
  | zero => cases some
  | succ k ih =>
    rw [decimal]
    by_cases one : n < 10
    · simp [one]
    · have rest : n / 10 < 10 ^ k := Nat.div_lt_of_lt_mul (by rwa [Nat.pow_succ'] at small)
      have more : 0 < k := by
        rcases Nat.eq_zero_or_pos k with rfl | more
        · omega
        · exact more
      have shorter := ih more rest
      simp only [if_neg one, List.length_append, List.length_singleton]
      omega

theorem foldl_digits_lt {digits : Bytes} (valid : digits.all isDigit = true) (start : ℕ) :
    digits.foldl (fun n b => 10 * n + (b.toNat - 48)) start < (start + 1) * 10 ^ digits.length := by
  induction digits generalizing start with
  | nil => simp
  | cons b rest ih =>
    rw [List.all_cons, Bool.and_eq_true] at valid
    have top : b.toNat ≤ 57 := by
      have first := valid.1
      simp only [isDigit, Bool.and_eq_true, decide_eq_true_eq, UInt8.le_iff_toNat_le] at first
      exact first.2
    calc rest.foldl (fun n b => 10 * n + (b.toNat - 48)) (10 * start + (b.toNat - 48))
        < (10 * start + (b.toNat - 48) + 1) * 10 ^ rest.length := ih valid.2 _
      _ ≤ ((start + 1) * 10) * 10 ^ rest.length := Nat.mul_le_mul_right _ (by omega)
      _ = (start + 1) * 10 ^ (rest.length + 1) := by rw [Nat.mul_assoc, Nat.pow_succ']

theorem readDecimal_length {digits : Bytes} {n : ℕ} (read : readDecimal digits = some n) :
    (decimal n).length ≤ digits.length := by
  rw [readDecimal] at read
  split at read
  case isFalse => cases read
  case isTrue valid =>
    cases read
    refine decimal_length_le (List.length_pos_of_ne_nil valid.1) ?_
    simpa using foldl_digits_lt valid.2 0

theorem itoa_atoi_length {text : Bytes} {n : ℤ} (read : atoi text = some n) :
    (itoa n).length ≤ text.length := by
  have bound : (decimal n.natAbs).length + (if n < 0 then 1 else 0) ≤ text.length := by
    simp only [atoi, Option.filter_eq_some_iff] at read
    obtain ⟨read, -⟩ := read
    split at read
    all_goals
      obtain ⟨m, digits, rfl⟩ := Option.map_eq_some_iff.mp read
      have short := readDecimal_length digits
      simp only [Int.natAbs_neg, Int.natAbs_natCast, List.length_cons]
      split <;> omega
  rw [itoa]
  split <;> simp_all

theorem validUtf8_of_ascii {text : Bytes} (ascii : ∀ b ∈ text, b < 0x80) :
    KV.validUtf8 text = true := by
  induction text with
  | nil => rfl
  | cons b rest ih =>
    rw [KV.validUtf8.eq_def]
    simp only [ascii b List.mem_cons_self, if_true]
    exact ih fun c inRest => ascii c (List.mem_cons_of_mem b inRest)

theorem itoa_validUtf8 (n : ℤ) : KV.validUtf8 (itoa n) = true := by
  have digits : ∀ b ∈ decimal n.natAbs, b < 0x80 := by
    intro b inDecimal
    have valid := List.all_eq_true.mp (decimal_spec n.natAbs).1 b inDecimal
    simp only [isDigit, Bool.and_eq_true, decide_eq_true_eq] at valid
    exact UInt8.lt_of_le_of_lt valid.2 (by decide)
  refine validUtf8_of_ascii ?_
  rw [itoa]
  split
  · rintro b (_ | ⟨_, inDecimal⟩)
    · decide
    · exact digits b inDecimal
  · exact digits

end Numbers

section Keys

theorem parse_key_length {b : Bytes} {cmd : Proto.Command}
    (parsed : Proto.commandMessage.parse b = some cmd) (more : b ≠ []) :
    (cmd.key.getD ⟨[]⟩).data.length < b.length := by
  obtain ⟨r, fields, read⟩ := Option.bind_eq_some_iff.mp parsed
  obtain ⟨op, -, read⟩ := Option.bind_eq_some_iff.mp read
  obtain ⟨key, readKey, read⟩ := Option.bind_eq_some_iff.mp read
  obtain ⟨value, -, read⟩ := Option.bind_eq_some_iff.mp read
  obtain ⟨requestID, -, read⟩ := Option.bind_eq_some_iff.mp read
  cases read
  cases found : r.message 2 with
  | none =>
    rw [found] at readKey
    cases readKey
    exact List.length_pos_iff.mpr more
  | some data =>
    rw [found] at readKey
    obtain ⟨k, parsedKey, rfl⟩ := Option.map_eq_some_iff.mp readKey
    obtain ⟨inner, innerFields, readInner⟩ := Option.bind_eq_some_iff.mp parsedKey
    have outer := parse_message_length fields found
    have within := parse_bytes_length innerFields 1
    dsimp only [Proto.keyMessage] at readInner
    split at readInner
    · cases readInner
      exact Nat.lt_of_le_of_lt within outer
    · cases readInner

theorem commandFactory_key_length {b : Bytes} {c : Object.Command} {key : Key}
    (made : commandFactory b = some c) (more : b ≠ []) (keyed : c.message.key = some key) :
    key.data.length < b.length := by
  obtain ⟨cmd, parsed, made⟩ := Option.bind_eq_some_iff.mp made
  have short := parse_key_length parsed more
  dsimp only at made
  split_ifs at made
  all_goals cases made
  all_goals cases keyed
  all_goals exact short

end Keys

section Delivery
open GoChannel

theorem serialize_ne_nil (c : Object.Command) : c.serialize ≠ [] := by
  have filled : ofString c.message.op ≠ [] := by
    obtain ⟨⟨uuid, payload⟩, index⟩ := c
    cases payload <;> simp only [Object.Command.message] <;> decide
  have first := writeField_length_pos (1, .len (ofString c.message.op))
  intro empty
  simp only [Object.Command.serialize, Message.serialize, Proto.commandMessage, bytesField,
    if_neg filled, Protobuf.serialize, List.cons_append, List.flatMap_cons,
    List.append_eq_nil_iff] at empty
  rw [empty.1] at first
  cases first

theorem sendUntil_taken (c : Object.Command) :
    sendUntil .taken c =
      if c.payload.keyUtf8 then applyMsg c.serialize (signed 32 c.index) c.message
      else .failed := by
  have parsed : Proto.commandMessage.parse c.serialize =
      if c.payload.keyUtf8 then some c.message else none := by
    rw [Object.Command.serialize, Proto.commandMessage_checks.parse, Object.Command.message_key]
  rw [sendUntil, sendToApplyCh, if_neg (by simp [serialize_ne_nil]), parsed]
  cases c.payload.keyUtf8
  · rfl
  · exact Outcome.bind_ok _

theorem sendUntil_keyed {c : Object.Command} {key : Key} (keyed : c.message.key = some key) :
    sendUntil .taken c =
      if KV.validUtf8 key.data then
        .ok { commandValid := true, command := some (applied key.data),
              commandIndex := signed 32 c.index }
      else .failed := by
  have valid : c.payload.keyUtf8 = KV.validUtf8 key.data := by
    rw [← Object.Command.message_key, keyed, Option.all_some]
  have made : applyMsg c.serialize (signed 32 c.index) c.message =
      .ok { commandValid := true, command := some (applied key.data),
            commandIndex := signed 32 c.index } := by
    obtain ⟨⟨uuid, payload⟩, index⟩ := c
    cases payload <;> cases keyed <;> rfl
  rw [sendUntil_taken, valid, made]

theorem sendUntil_rms {c : Object.Command} (rms : c.payload.kind = .rmsCommand) :
    sendUntil .taken c =
      .ok { commandValid := true, command := some (.bytes c.serialize),
            commandIndex := signed 32 c.index } := by
  rw [sendUntil_taken]
  obtain ⟨⟨uuid, payload⟩, index⟩ := c
  cases payload <;> cases rms
  rfl

theorem receiveUntil_message {msg : ApplyMsg} {b : Bytes} (contents : msg.contents = some b)
    (more : b ≠ []) :
    receiveUntil (.message msg) =
      if bufferSize < b.length then .overflow
      else match commandFactory b with
        | none => .throws
        | some c => .ok (.ok (some c)) := by
  have positive := List.length_pos_iff.mpr more
  have notClosed : (b.length : ℤ) ≠ -2 := by omega
  have notNegative : ¬(b.length : ℤ) < 0 := by omega
  simp only [receiveUntil, receiveFromApplyCh, contents, if_neg more, Outcome.bind,
    if_neg notClosed, if_neg notNegative, Int.toNat_natCast, Nat.sub_self, List.replicate_zero,
    List.append_nil]

theorem contents_applied (msg : ApplyMsg) {text : Bytes} (valid : msg.commandValid = true)
    (command : msg.command = some (applied text)) :
    ∃ b, msg.contents = some b ∧ b.length ≤ text.length := by
  rw [ApplyMsg.contents, valid, if_pos rfl, command, applied]
  cases read : atoi text with
  | none => exact ⟨text, rfl, Nat.le_refl _⟩
  | some n => exact ⟨itoa n, rfl, itoa_atoi_length read⟩

theorem commandFactory_marshalSnapshot (msg : ApplyMsg) :
    commandFactory (marshalSnapshot msg) = none := by
  rw [commandFactory, marshalSnapshot, Proto.commandMessage_checks.parse]
  simp

theorem keyed_not_returned {c : Object.Command} {key : Key} (keyed : c.message.key = some key) :
    ((sendUntil .taken c).bind fun msg => receiveUntil (.message msg)) ≠ .ok (.ok (some c)) := by
  rw [sendUntil_keyed keyed]
  split
  case isFalse => exact nofun
  case isTrue =>
    rw [Outcome.bind]
    obtain ⟨b, contents, short⟩ := contents_applied
      { commandValid := true, command := some (applied key.data),
        commandIndex := signed 32 c.index } rfl rfl
    by_cases more : b = []
    · simp [receiveUntil, receiveFromApplyCh, contents, more, Outcome.bind]
    · rw [receiveUntil_message contents more]
      split
      · exact nofun
      · intro returned
        cases made : commandFactory b with
        | none => simp [made] at returned
        | some d =>
          have same : d = c := by simpa [made] using returned
          have longer := commandFactory_key_length (same ▸ made) more keyed
          omega

theorem commandFactory_rms {c : Object.Command} (rms : c.payload.kind = .rmsCommand) :
    commandFactory c.serialize = some c := by
  rw [commandFactory_serialize]
  obtain ⟨⟨uuid, payload⟩, index⟩ := c
  cases payload <;> cases rms
  rfl

theorem rms_returned {c : Object.Command} (rms : c.payload.kind = .rmsCommand) :
    ((sendUntil .taken c).bind fun msg => receiveUntil (.message msg)) =
      if bufferSize < c.serialize.length then .overflow else .ok (.ok (some c)) := by
  have contents : ApplyMsg.contents
      { commandValid := true, command := some (.bytes c.serialize),
        commandIndex := signed 32 c.index } = some c.serialize := rfl
  rw [sendUntil_rms rms, Outcome.bind, receiveUntil_message contents (serialize_ne_nil c),
    commandFactory_rms rms]

theorem snapshot_not_returned {msg : ApplyMsg} (snapshot : msg.commandValid = false)
    (c : Object.Command) : receiveUntil (.message msg) ≠ .ok (.ok (some c)) := by
  intro returned
  have contents : msg.contents =
      if msg.snapshotValid then some (marshalSnapshot msg) else none := by
    rw [ApplyMsg.contents, snapshot]
    rfl
  cases valid : msg.snapshotValid with
  | false => simp [receiveUntil, receiveFromApplyCh, contents, valid, Outcome.bind] at returned
  | true =>
    by_cases more : marshalSnapshot msg = []
    · simp [receiveUntil, receiveFromApplyCh, contents, valid, more, Outcome.bind] at returned
    · rw [receiveUntil_message (by rw [contents, valid]; rfl) more,
        commandFactory_marshalSnapshot] at returned
      split at returned <;> cases returned

/-- Only a command of the replicated state machine survives the way through the
channel, and only if its encoding fits into the receiver's buffer. -/
theorem channel_returns_command_iff (c : Object.Command) :
    ((sendUntil .taken c).bind fun msg => receiveUntil (.message msg)) = .ok (.ok (some c)) ↔
      c.payload.kind = .rmsCommand ∧ c.serialize.length ≤ bufferSize := by
  by_cases rms : c.payload.kind = .rmsCommand
  · rw [rms_returned rms]
    split <;> simp_all
  · refine iff_of_false ?_ fun both => rms both.1
    obtain ⟨⟨uuid, payload⟩, index⟩ := c
    cases payload
    case rmsCommand => exact absurd rfl rms
    case size => exact sendUntil_taken _ ▸ nofun
    case noOp => exact sendUntil_taken _ ▸ nofun
    case installSnapshotCommand =>
      rw [sendUntil_taken]
      exact snapshot_not_returned rfl _
    all_goals exact keyed_not_returned rfl

inductive Started where
  | int (n : ℤ) (range : inInt n = true)
  | string (text : Bytes)

def Started.value : Started → Any
  | .int n _ => .int n
  | .string text => .string text

def Started.text : Started → Bytes
  | .int n _ => itoa n
  | .string text => text

def Started.command (s : Started) (uuid : UUIDV7) (index : ℕ) : Object.Command :=
  ⟨⟨uuid, .testCommand s.text⟩, index⟩

theorem applied_itoa {n : ℤ} (range : inInt n = true) : applied (itoa n) = .int n := by
  rw [applied, atoi_itoa range]

theorem applied_eq_string_iff (text : Bytes) : applied text = .string text ↔ atoi text = none := by
  rw [applied]
  cases atoi text <;> simp

/-- The tester gets from the channel what was started, at the index that `Start` told
it, unless this was a string that is not UTF-8 or that reads as a number. -/
theorem started_command_applied_iff (s : Started) (uuid : UUIDV7) (index : ℕ)
    (small : index < 2 ^ 31) :
    sendUntil .taken (s.command uuid index) =
        .ok { commandValid := true, command := some s.value, commandIndex := index } ↔
      ∀ text, s = .string text → KV.validUtf8 text = true ∧ atoi text = none := by
  have same : signed 32 (index : ℤ) = index := by
    rw [signed, Int.bmod_eq_of_le] <;> omega
  have keyed : (s.command uuid index).message.key = some ⟨s.text⟩ := rfl
  rw [sendUntil_keyed keyed]
  cases s with
  | int n range =>
    simp [Started.text, itoa_validUtf8, applied_itoa range, Started.command, same, Started.value]
  | string text =>
    simp only [Started.text, Started.command, same, Started.value, Started.string.injEq,
      forall_eq']
    by_cases valid : KV.validUtf8 text = true
    · simp [valid, applied_eq_string_iff]
    · simp [valid]

theorem started_command_applied_text :
    1 < 2 ^ 31 ∧ sendUntil .taken (Started.command (.string [52, 50]) (Vector.replicate 16 0) 1) ≠
      .ok { commandValid := true, command := some (.string [52, 50]), commandIndex := 1 } := by
  have number : atoi [52, 50] = some 42 := by decide
  refine ⟨by decide, fun arrives => ?_⟩
  have text := (started_command_applied_iff (.string [52, 50]) (Vector.replicate 16 0) 1
    (by decide)).mp arrives _ rfl
  rw [number] at text
  exact nomatch text.2

end Delivery

end Zdb.Go
