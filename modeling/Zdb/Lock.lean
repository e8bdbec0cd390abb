import Zdb.Sessions

/-! `Lock`, and clients that take turns acquiring and releasing the lock of one key. A
`Line` is the call of `KVStoreClient` a client is in, in `acquire` or `release`, with
the token of its last `acquire`; `next` says where its answer leads, through the loops
of `waitSet`, `waitGet` and `waitNotFound`. -/

namespace Zdb.KV
open LabelledRun

inductive Line where
  /-- Neither in `acquire`, nor between it and `release`, nor in `release`. -/
  | outside
  /-- `acquire`: the `set` of `waitSet(lockKey, {c, 0})`. -/
  | creating (token : Bytes)
  /-- `acquire`: the `get` of `waitSet(lockKey, {c, 0})`. -/
  | created (token : Bytes)
  /-- `acquire` has returned. -/
  | holding (token : Bytes)
  /-- `release`: `waitGet(lockKey, 1)`. -/
  | reading (token : Bytes)
  /-- `release`: the `set` of `waitSet(lockKey, v)`. -/
  | bumping (token : Bytes)
  /-- `release`: the `get` of `waitSet(lockKey, v)`. -/
  | bumped (token : Bytes)
  /-- `release`: `erase(lockKey)`. -/
  | erasing (token : Bytes)
  /-- `release`: `waitNotFound(lockKey)`. -/
  | missing (token : Bytes)
  /-- `release`: `waitGet(lockKey, {v.data, 2})`. -/
  | kept (token : Bytes)
  deriving DecidableEq, Repr

namespace Line

def op (key : Key) : Line → Option Op
  | .outside => none
  | .creating c => some (.set key ⟨c, 0⟩)
  | .created _ => some (.get key)
  | .holding _ => none
  | .reading _ => some (.get key)
  | .bumping c => some (.set key ⟨c, 1⟩)
  | .bumped _ => some (.get key)
  | .erasing _ => some (.erase key)
  | .missing _ => some (.get key)
  | .kept _ => some (.get key)

def acquires : Line → Option Bytes
  | .creating c => some c
  | .created c => some c
  | .holding c => some c
  | _ => none

def releases : Line → Option Bytes
  | .reading c => some c
  | .bumping c => some c
  | .bumped c => some c
  | .erasing c => some c
  | .missing c => some c
  | .kept c => some c
  | _ => none

def next (line : Line) (result : Except Error Reply) : Line :=
  match line with
  | .outside => .outside
  | .creating c => if result.isOk then .holding c else .created c
  | .created c => match KVStoreClient.waitGet ⟨c, 1⟩ result with
      | some true => .holding c
      | some false => .creating c
      | none => .created c
  | .holding c => .holding c
  | .reading c => match KVStoreClient.waitGetVersion 1 result with
      | some v => if v = ⟨c, 1⟩ then .bumping c else .outside
      | none => .reading c
  | .bumping c => if result.isOk then .erasing c else .bumped c
  | .bumped c => match KVStoreClient.waitGet ⟨c, 2⟩ result with
      | some true => .erasing c
      | some false => .bumping c
      | none => .bumped c
  | .erasing c => if result.isOk then .outside else .missing c
  | .missing c => match KVStoreClient.waitNotFound result with
      | some true => .outside
      | some false => .kept c
      | none => .missing c
  | .kept c => match KVStoreClient.waitGet ⟨c, 2⟩ result with
      | some true => .erasing c
      | some false => .outside
      | none => .kept c

end Line

/-- `purposes` are the lines of the calls that have been made, in their order. -/
structure Locks where
  sessions : Sessions
  lines : ℕ → Line := fun _ => .outside
  purposes : List Line := []

inductive LockAction where
  | acquire (k : ℕ) (token : Bytes)
  | release (k : ℕ)
  | session (a : SessionAction)
  | proceed (k : ℕ)
  deriving DecidableEq

def SessionAction.isInner : SessionAction → Bool
  | .call _ _ => false
  | .finish _ => false
  | _ => true

namespace Locks

def enter (key : Key) (s : Locks) (k : ℕ) (line : Line) : Option Locks :=
  let lines := Function.update s.lines k line
  match line.op key with
  | none => some { s with lines }
  | some op => (s.sessions.call k op).map fun sessions =>
      ⟨sessions, lines, s.purposes ++ [line]⟩

def proceed (key : Key) (s : Locks) (k : ℕ) : Option Locks :=
  match (s.sessions.clients k).running with
  | some ⟨_, .done (result, _), _, _⟩ => (s.sessions.finish k).bind fun sessions =>
      { s with sessions }.enter key k ((s.lines k).next result)
  | _ => none

def step (key : Key) (s : Locks) : LockAction → Option Locks
  | .acquire k token => if s.lines k = .outside then s.enter key k (.creating token) else none
  | .release k => match s.lines k with
      | .holding token => s.enter key k (.reading token)
      | _ => none
  | .session a => if a.isInner then (s.sessions.step a).map fun sessions => { s with sessions }
      else none
  | .proceed k => s.proceed key k

def initial (configs : ℕ → Config) : Locks :=
  { sessions := { clients := fun k => { config := configs k } } }

def run (key : Key) (configs : ℕ → Config) (actions : List LockAction) : Option Locks :=
  exec (step key) (initial configs) actions

/-- Client `k` is between the return of its `acquire` and its `release`. -/
def Holds (s : Locks) (k : ℕ) : Prop := ∃ token, s.lines k = .holding token

end Locks

end Zdb.KV
