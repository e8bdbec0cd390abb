import Zdb.KVStore

/-! Errors on the wire: `toGrpcStatus` on the server, `toError` on the client, and
which errors a client tries again after. A status that is OK carries the reply the
call has filled; one that is not carries `ErrorDetails`, if they are there at all. -/

namespace Zdb.KV

inductive StatusCode where
  | cancelled
  | unknown
  | invalidArgument
  | deadlineExceeded
  | notFound
  | alreadyExists
  | permissionDenied
  | resourceExhausted
  | failedPrecondition
  | aborted
  | outOfRange
  | unimplemented
  | internal
  | unavailable
  | dataLoss
  | unauthenticated
  deriving DecidableEq, Repr

/-- A `grpc::Status` that is not OK; `details` are what its serialized
`ErrorDetails` say. -/
structure Failure where
  code : StatusCode
  message : String
  details : Option Error := none
  deriving DecidableEq, Repr

inductive Reply where
  | value (v : Value)
  | done
  | size (n : ℕ)
  deriving DecidableEq, Repr

abbrev Status := Except Failure Reply

def ErrorCode.toString : ErrorCode → String
  | .ok => "OK"
  | .timeout => "Timeout"
  | .unknown => "Unknown"
  | .invalidArg => "InvalidArgument"
  | .serviceTemporarilyUnavailable => "ServiceTemporarilyUnavailable"
  | .allServicesUnavailable => "AllServicesUnavailable"
  | .versionMismatch => "VersionMismatch"
  | .maybe => "Maybe"
  | .keyNotFound => "KeyNotFound"
  | .notLeader => "NotLeader"
  | .internal => "Internal"
  | .cancelled => "Cancelled"

def toGrpcStatusCode : ErrorCode → StatusCode
  | .keyNotFound => .notFound
  | .invalidArg => .invalidArgument
  | .versionMismatch => .invalidArgument
  | .serviceTemporarilyUnavailable => .unavailable
  | .allServicesUnavailable => .unavailable
  | .timeout => .deadlineExceeded
  | .notLeader => .failedPrecondition
  | .cancelled => .cancelled
  | _ => .unknown

def toGrpcStatus (error : Error) : Failure :=
  ⟨toGrpcStatusCode error.code, error.code.toString, some error⟩

def isContinuation (b : UInt8) : Bool := 0x80 ≤ b && b ≤ 0xBF

def isSecond (first second : UInt8) : Bool :=
  isContinuation second &&
    (first != 0xE0 || 0xA0 ≤ second) && (first != 0xED || second ≤ 0x9F) &&
    (first != 0xF0 || 0x90 ≤ second) && (first != 0xF4 || second ≤ 0x8F)

def validUtf8 : Bytes → Bool
  | [] => true
  | a :: rest =>
      if a < 0x80 then validUtf8 rest
      else match rest with
        | [] => false
        | b :: rest =>
            if 0xC2 ≤ a && a ≤ 0xDF then isContinuation b && validUtf8 rest
            else match rest with
              | [] => false
              | c :: rest =>
                  if 0xE0 ≤ a && a ≤ 0xEF then
                    isSecond a b && isContinuation c && validUtf8 rest
                  else match rest with
                    | [] => false
                    | d :: rest =>
                        if 0xF0 ≤ a && a ≤ 0xF4 then
                          isSecond a b && isContinuation c && isContinuation d && validUtf8 rest
                        else false

/-- Parsing fails on a `string` field that is not UTF-8. -/
def parseDetails (details : Option Error) : Option Error :=
  details.filter fun e => validUtf8 e.key && validUtf8 e.value

def toError (status : Failure) : Error :=
  match parseDetails status.details with
  | some details => details
  | none =>
      let code := match status.code with
        | .notFound => ErrorCode.keyNotFound
        | .invalidArgument => .invalidArg
        | .unavailable => .serviceTemporarilyUnavailable
        | .deadlineExceeded => .timeout
        | .failedPrecondition => .notLeader
        | .cancelled => .cancelled
        | _ => .unknown
      { code, what := status.message }

theorem parseDetails_toGrpcStatus (e : Error) : parseDetails (toGrpcStatus e).details =
    if (validUtf8 e.key && validUtf8 e.value) = true then some e else none := by
  split_ifs with text
  · exact Option.filter_eq_some_iff.mpr ⟨rfl, text⟩
  · exact Option.filter_eq_none_iff.mpr fun _ found => (Option.some.inj found) ▸ text

theorem toError_toGrpcStatus_iff (e : Error) :
    toError (toGrpcStatus e) = e ↔ validUtf8 e.key = true ∧ validUtf8 e.value = true := by
  rw [← Bool.and_eq_true]
  have details := parseDetails_toGrpcStatus e
  by_cases parses : (validUtf8 e.key && validUtf8 e.value) = true
  · rw [if_pos parses] at details
    exact iff_of_true (by rw [toError, details]) parses
  · rw [if_neg parses] at details
    refine iff_of_false (fun same => parses ?_) parses
    rw [toError, details] at same
    rw [← same]
    rfl

theorem InMemoryKVStore.set_error {s : InMemoryKVStore} {key : Key} {value : Value} {e : Error}
    (failed : s.set key value = .error e) :
    e.key = key.data ∧ e.value = ((s.get key).getD value).data := by
  unfold InMemoryKVStore.set at failed
  unfold InMemoryKVStore.get
  split at failed <;> rename_i found <;> split_ifs at failed <;> cases failed <;>
    simp [found]

/-- An error about `key` and the value it carries. Those of the service and of `handle`
have a code and a text only. -/
inductive Raised (key : Key) : Error → Bytes → Prop
  | set (s : InMemoryKVStore) (value : Value) (e : Error) (failed : s.set key value = .error e) :
      Raised key e ((s.get key).getD value).data
  | plain (code : ErrorCode) (what : String) : Raised key { code, what } []

/-- An error survives the wire exactly when the value it carries is text. -/
theorem errors_survive_iff (key : Key) (e : Error) (carried : Bytes)
    (text : validUtf8 key.data = true) (raised : Raised key e carried) :
    toError (toGrpcStatus e) = e ↔ validUtf8 carried = true := by
  rw [toError_toGrpcStatus_iff]
  cases raised with
  | set s value e failed =>
    obtain ⟨named, value_eq⟩ := InMemoryKVStore.set_error failed
    rw [named, value_eq]
    exact and_iff_right text
  | plain code what => exact and_iff_right rfl

theorem errors_survive_iff_letter :
    let e : Error := ⟨.versionMismatch, "Version mismatch: expected 1 but got 2", [107], [97], 1⟩
    (⟨AList.singleton ⟨[107]⟩ ⟨[97], 1⟩⟩ : InMemoryKVStore).set ⟨[107]⟩ ⟨[], 2⟩ = .error e ∧
      toError (toGrpcStatus e) = e :=
  ⟨rfl, (errors_survive_iff ⟨[107]⟩ _ _ (by decide)
    (.set ⟨AList.singleton ⟨[107]⟩ ⟨[97], 1⟩⟩ ⟨[], 2⟩ _ rfl)).mpr (by decide)⟩

/-- The stored byte is not text, and the client hears of a wrong argument instead of
the version it has missed. -/
theorem versionMismatch_lost :
    let s : InMemoryKVStore := ⟨AList.singleton ⟨[107]⟩ ⟨[0xFF], 1⟩⟩
    ∃ e, s.set ⟨[107]⟩ ⟨[], 2⟩ = .error e ∧ e.code = .versionMismatch ∧
      toError (toGrpcStatus e) = { code := .invalidArg, what := "VersionMismatch" } :=
  ⟨_, rfl, rfl, rfl⟩

inductive Operation where
  | get
  | set
  | erase
  | size
  | requestVote
  | appendEntries
  | installSnapshot
  deriving DecidableEq, Repr

def retriableErrorCodes : Operation → List ErrorCode
  | .erase => [.serviceTemporarilyUnavailable, .allServicesUnavailable]
  | .requestVote => [.timeout]
  | .appendEntries => [.timeout]
  | _ => [.unknown, .serviceTemporarilyUnavailable, .allServicesUnavailable, .timeout]

def isRetriable (op : Operation) (code : ErrorCode) : Bool := code ∈ retriableErrorCodes op

namespace KVStoreServiceImpl

/-- `std::get` on another alternative throws out of the handler. -/
def thrown : Failure := ⟨.unknown, "Unexpected error in RPC handling", none⟩

def valueStatus (state : State) : Status :=
  match state.u with
  | .error e => .error (toGrpcStatus e)
  | .value (some v) => .ok (.value v)
  | .value none => .error (toGrpcStatus { code := .keyNotFound, what := "key not found" })
  | _ => .error thrown

def setStatus (state : State) : Status :=
  match state.u with
  | .error e => .error (toGrpcStatus e)
  | _ => .ok .done

def sizeStatus (state : State) : Status :=
  match state.u with
  | .error e => .error (toGrpcStatus e)
  | .size n => .ok (.size n)
  | _ => .error thrown

def status : Payload → State → Status
  | .get _ => valueStatus
  | .erase _ => valueStatus
  | .set _ _ => setStatus
  | _ => sizeStatus

end KVStoreServiceImpl

end Zdb.KV
