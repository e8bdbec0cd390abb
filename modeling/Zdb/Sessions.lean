import Zdb.ClientReplies
import Zdb.LabelledRun

/-! Many clients of one store. The servers and the network between are what they may
be at their worst: an attempt that has been sent reaches the store at any later time,
any number of times or never, in one atomic step; its client is told the status of an
attempt of the same call that has reached the store, or any error that says nothing
of the store. A client makes one call at a time. -/

namespace Zdb.KV
open Resumption LabelledRun

inductive Op where
  | get (key : Key)
  | set (key : Key) (value : Value)
  | erase (key : Key)
  | size
  deriving DecidableEq, Repr

namespace Op

def payload : Op → Payload
  | .get key => .get key
  | .set key value => .set key value
  | .erase key => .erase key
  | .size => .size

def run (c : Config) : Op → Task (Except Error Reply × Config)
  | .get key => KVStoreClient.get key c
  | .set key value => KVStoreClient.set key value c
  | .erase key => KVStoreClient.erase key c
  | .size => KVStoreClient.size c

theorem run_ensures (op : Op) (c : Config) (heard : Heard) :
    Ensures (Ask.Sends op.payload) (fun heard r => Heard.Explains heard r.1) heard
      (op.run c) := by
  cases op with
  | get key => exact KVStoreClient.get_ensures key c
  | set key value => exact KVStoreClient.set_ensures key value c
  | erase key => exact KVStoreClient.erase_ensures key c
  | size => exact KVStoreClient.size_ensures c

end Op

/-- How often a client has looked whether a service is connected. It does so before
each visit to a service and not during one. -/
def Heard.visits (heard : Heard) : ℕ :=
  heard.countP fun x => match x.1 with
    | .connected _ => true
    | _ => false

/-- A request on its way, of call number `call`; the attempts of one visit to a
service have the same `visit`. -/
structure Attempt where
  call : ℕ
  request : Command
  visit : ℕ
  deriving DecidableEq, Repr

structure Applied where
  call : ℕ
  payload : Payload
  status : Status
  changed : Bool
  deriving DecidableEq

/-- The call a client is in; `sent`: its next question is a request, and it is out. -/
structure Running where
  call : ℕ
  task : Task (Except Error Reply × Config)
  heard : Heard := []
  sent : Bool := false

structure Client where
  config : Config
  running : Option Running := none

/-- A call, and what it has returned after how many requests had reached the store. -/
structure Record where
  op : Op
  returned : Option (Except Error Reply × ℕ) := none
  deriving DecidableEq

structure Sessions where
  store : InMemoryKVStore := {}
  attempts : List Attempt := []
  applied : List Applied := []
  records : List Record := []
  clients : ℕ → Client

inductive SessionAction where
  | call (k : ℕ) (op : Op)
  | send (k : ℕ)
  | answer (k : ℕ) (status : Status)
  | observe (k n : ℕ)
  | apply (i : ℕ)
  | finish (k : ℕ)
  deriving DecidableEq

def Ask.decode : (e : Ask) → ℕ → Option e.Answer
  | .rpc _ _, _ => none
  | .now, n => some n
  | .stopped, n => some (n != 0)
  | .connected _, n => some (n != 0)
  | .connect _, n => some (n != 0)
  | .draw bound, n => if inside : n < bound then some ⟨n, inside⟩ else none
  | .uuid, n => some (Vector.ofFn fun i => UInt8.ofNat (n / 256 ^ i.val))
  | .undefined, _ => none

def lost : Status → Bool
  | .ok _ => false
  | .error failure => !(toError failure).definite

def changes : Payload → State → Bool
  | .set _ _, ⟨_, .monostate⟩ => true
  | .erase _, ⟨_, .value (some _)⟩ => true
  | _, _ => false

namespace Sessions

def setClient (s : Sessions) (k : ℕ) (c : Client) : Sessions :=
  { s with clients := Function.update s.clients k c }

def setRunning (s : Sessions) (k : ℕ) (r : Running) : Sessions :=
  s.setClient k { s.clients k with running := some r }

def call (s : Sessions) (k : ℕ) (op : Op) : Option Sessions :=
  match (s.clients k).running with
  | some _ => none
  | none => some { s.setRunning k ⟨s.records.length, op.run (s.clients k).config, [], false⟩ with
      records := s.records ++ [{ op }] }

def send (s : Sessions) (k : ℕ) : Option Sessions :=
  match (s.clients k).running with
  | some ⟨call, .ask (.rpc address request) next, heard, false⟩ =>
      some { s.setRunning k ⟨call, .ask (.rpc address request) next, heard, true⟩ with
        attempts := s.attempts ++ [⟨call, request, heard.visits⟩] }
  | _ => none

def answer (s : Sessions) (k : ℕ) (status : Status) : Option Sessions :=
  match (s.clients k).running with
  | some ⟨call, .ask (.rpc address request) next, heard, true⟩ =>
      if lost status || s.applied.any fun a => a.call == call && a.status == status then
        some (s.setRunning k
          ⟨call, next status, heard ++ [⟨.rpc address request, status⟩], false⟩)
      else none
  | _ => none

def observe (s : Sessions) (k n : ℕ) : Option Sessions :=
  match (s.clients k).running with
  | some ⟨call, .ask e next, heard, false⟩ => (e.decode n).map fun r =>
      s.setRunning k ⟨call, next r, heard ++ [⟨e, r⟩], false⟩
  | _ => none

def apply (s : Sessions) (i : ℕ) : Option Sessions :=
  match s.attempts[i]? with
  | some ⟨call, ⟨_, payload⟩, _⟩ => match KVStateMachine.applyCommand s.store 0 payload with
      | (store, some state) => some { s with
          store
          applied := s.applied ++
            [⟨call, payload, KVStoreServiceImpl.status payload state, changes payload state⟩] }
      | (_, none) => none
  | none => none

def finish (s : Sessions) (k : ℕ) : Option Sessions :=
  match (s.clients k).running with
  | some ⟨call, .done (result, config), _, _⟩ => some { s.setClient k ⟨config, none⟩ with
      records := s.records.modify call fun r =>
        { r with returned := some (result, s.applied.length) } }
  | _ => none

def step (s : Sessions) : SessionAction → Option Sessions
  | .call k op => s.call k op
  | .send k => s.send k
  | .answer k status => s.answer k status
  | .observe k n => s.observe k n
  | .apply i => s.apply i
  | .finish k => s.finish k

def run (configs : ℕ → Config) (actions : List SessionAction) : Option Sessions :=
  exec step { clients := fun k => { config := configs k } } actions

end Sessions

end Zdb.KV
