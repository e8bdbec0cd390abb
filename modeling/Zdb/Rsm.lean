import Zdb.Cluster
import Zdb.KVStore
import Zdb.Linearizability

/-! `raft::Rsm` on every node of a cluster: `handle`, called by the service
threads, the consumer thread and the `PendingRequests` between them. A step is one
call into `RaftImpl`, the channel or `PendingRequests`. The consumer thread receives
and applies a command in one step, since nothing else reads the store. The channel
holds at most one item: the first one its node has given to the channel and the
consumer has not received. -/

namespace Zdb.Rsm
open Raft LabelledRun Linearizability

def stringToUuidV7 (str : Bytes) : UUIDV7 :=
  if h : str.length = 16 then ⟨str.toArray, by simpa using h⟩ else Vector.replicate 16 0

/-- A state with the entry whose application has produced it, if one has. -/
structure Result where
  state : KV.State
  source : Option LogEntry
  deriving DecidableEq, Repr

def Result.notLeader (what : String) : Result := ⟨⟨none, .error { code := .notLeader, what }⟩, none⟩

inductive Future where
  | empty
  | value (r : Result)
  | broken
  deriving DecidableEq, Repr

/-- Where a call of `handle` stands. `threw`: `f.get()` has thrown out of it;
`gone`: its process has ended before it. -/
inductive Phase where
  | invoked
  | started
  | waiting (f : Future)
  | returned (r : Result)
  | threw
  | gone
  deriving DecidableEq, Repr

/-- One call of `Rsm::handle`; `entry` is what its `start` has appended. -/
structure Handle where
  node : PeerId
  command : Command
  entry : Option LogEntry := none
  phase : Phase := .invoked
  deriving DecidableEq, Repr

namespace Handle

def settle (f : Future) (h : Handle) : Handle :=
  match h.phase with
  | .waiting .empty => { h with phase := .waiting f }
  | _ => h

def finished (h : Handle) : Bool :=
  match h.phase with
  | .returned _ => true
  | .threw => true
  | .gone => true
  | _ => false

def abandon (v : PeerId) (h : Handle) : Handle :=
  if h.node = v ∧ h.finished = false then { h with phase := .gone } else h

end Handle

/-- The consumer thread, between `applyCommand` and `complete` when it is not
receiving. -/
inductive Consumer where
  | receiving
  | applied (item : Item) (state : KV.State)
  deriving DecidableEq, Repr

/-- The `Rsm` of one node with its store. `received` counts what the consumer has
taken off the channel since boot; `pending` names the call that waits for a UUID. -/
structure Replica where
  running : Bool := true
  store : KV.InMemoryKVStore := {}
  received : ℕ := 0
  consumer : Consumer := .receiving
  pending : UUIDV7 → Option ℕ := fun _ => none

structure System where
  cluster : Cluster
  replicas : PeerId → Replica
  handles : List Handle
  history : List (Event ℕ KV.State)

def System.initial : System := ⟨Cluster.initial, fun _ => {}, [], []⟩

inductive Action where
  | raft (a : Raft.Action)
  | invoke (v : PeerId) (requestId : Bytes) (payload : Payload)
  | start (k : ℕ)
  | add (k : ℕ)
  | get (k : ℕ)
  | timeout (k : ℕ)
  | consume (v : PeerId)
  | complete (v : PeerId)
  | cancelAll (v : PeerId)
  deriving DecidableEq, Repr

def served : Payload → Bool
  | .get _ => true
  | .set _ _ => true
  | .erase _ => true
  | .size => true
  | _ => false

def applyItem (store : KV.InMemoryKVStore) : Item → KV.InMemoryKVStore × Option KV.State
  | .command e => KV.KVStateMachine.applyCommand store e.index e.command.payload
  | .snapshot index term data =>
      KV.KVStateMachine.applyCommand store index (.installSnapshotCommand index term data)

def isStart : Raft.Action → Bool
  | .start _ _ => true
  | _ => false

def sends : Raft.Action → Option PeerId
  | .applySend v true => some v
  | .snapshotSend v true => some v
  | _ => none

def resets (c : Cluster) : Raft.Action → Option PeerId
  | .restart v => some v
  | .crash rpc k => (c.network.request rpc k).map Prod.fst
  | _ => none

namespace System

def alive (m : Membership) (s : System) (v : PeerId) : Bool :=
  decide (v ∈ m.peers) && !(s.cluster.nodes v).terminated

def setReplica (s : System) (v : PeerId) (r : Replica) : System :=
  { s with replicas := Function.update s.replicas v r }

def setHandle (s : System) (k : ℕ) (f : Handle → Handle) : System :=
  { s with handles := s.handles.modify k f }

def respond (s : System) (k : ℕ) (r : Result) : System :=
  { s.setHandle k fun h => { h with phase := .returned r } with
    history := s.history ++ [.respond k r.state] }

/-- A new process on node `v`: nothing of the old one is left but its persister. -/
def reset (s : System) (v : PeerId) : System :=
  { s.setReplica v {} with handles := s.handles.map (Handle.abandon v) }

/-- A step of `RaftImpl`; `sendUntil` succeeds on an empty channel only. -/
def raft (m : Membership) (s : System) (a : Raft.Action) : Option System :=
  if isStart a || (sends a).any fun v =>
      (s.replicas v).received != (s.cluster.nodes v).stateMachine.length then none
  else (Cluster.step m s.cluster a).map fun c =>
    match resets s.cluster a with
    | some v => { s with cluster := c }.reset v
    | none => { s with cluster := c }

def invoke (m : Membership) (s : System) (v : PeerId) (requestId : Bytes) (payload : Payload) :
    Option System :=
  if s.alive m v && served payload then
    some { s with
      handles := s.handles ++ [{ node := v, command := ⟨stringToUuidV7 requestId, payload⟩ }]
      history := s.history ++ [.invoke s.handles.length] }
  else none

def start (m : Membership) (s : System) (k : ℕ) : Option System :=
  match s.handles[k]? with
  | some ⟨v, command, _, .invoked⟩ =>
      let n := s.cluster.nodes v
      (Cluster.step m s.cluster (.start v command)).map fun c =>
        if (n.start command).2 then
          { s with cluster := c }.setHandle k fun h =>
            { h with
              entry := some ⟨n.mainLog.lastIndex + 1, n.currentTerm, command⟩, phase := .started }
        else { s with cluster := c }.respond k (.notLeader "not the leader")
  | _ => none

/-- `pending.add`: a promise already there is destroyed. -/
def add (m : Membership) (s : System) (k : ℕ) : Option System :=
  match s.handles[k]? with
  | some ⟨v, command, _, .started⟩ =>
      if s.alive m v then
        let r := s.replicas v
        let s := match r.pending command.uuid with
          | some j => s.setHandle j (Handle.settle .broken)
          | none => s
        some ((s.setReplica v { r with
            pending := Function.update r.pending command.uuid (some k) }).setHandle k
          fun h => { h with phase := .waiting .empty })
      else none
  | _ => none

def get (m : Membership) (s : System) (k : ℕ) : Option System :=
  match s.handles[k]? with
  | some ⟨v, _, _, .waiting (.value r)⟩ => if s.alive m v then some (s.respond k r) else none
  | some ⟨v, _, _, .waiting .broken⟩ =>
      if s.alive m v then some (s.setHandle k fun h => { h with phase := .threw }) else none
  | _ => none

def timeout (m : Membership) (s : System) (k : ℕ) : Option System :=
  match s.handles[k]? with
  | some ⟨v, _, _, .waiting .empty⟩ =>
      if s.alive m v then some (s.respond k (.notLeader "not the leader")) else none
  | _ => none

def consume (m : Membership) (s : System) (v : PeerId) : Option System :=
  let r := s.replicas v
  match r.consumer, (s.cluster.nodes v).stateMachine[r.received]? with
  | .receiving, some item =>
      if s.alive m v && r.running then
        match applyItem r.store item with
        | (store, some state) => some (s.setReplica v
            { r with store, received := r.received + 1, consumer := .applied item state })
        | (_, none) => none
      else none
  | _, _ => none

/-- `pending.complete`. The UUID of a snapshot is a new one. -/
def complete (m : Membership) (s : System) (v : PeerId) : Option System :=
  let r := s.replicas v
  match r.consumer with
  | .receiving => none
  | .applied item state =>
      if s.alive m v then
        match item with
        | .snapshot _ _ _ => some (s.setReplica v { r with consumer := .receiving })
        | .command e => match r.pending e.command.uuid with
            | none => some (s.setReplica v { r with consumer := .receiving })
            | some k => some ((s.setReplica v { r with
                consumer := .receiving
                pending := Function.update r.pending e.command.uuid none }).setHandle k
              (Handle.settle (.value ⟨state, some e⟩)))
      else none

/-- The destructor: `running = false; pending.cancelAll()`. -/
def cancelAll (m : Membership) (s : System) (v : PeerId) : Option System :=
  let r := s.replicas v
  if s.alive m v then
    some { s.setReplica v { r with running := false, pending := fun _ => none } with
      handles := s.handles.mapIdx fun k h =>
        if r.pending h.command.uuid = some k then h.settle (.value (.notLeader "Changed Leader"))
        else h }
  else none

def step (m : Membership) (s : System) : Action → Option System
  | .raft a => s.raft m a
  | .invoke v requestId payload => s.invoke m v requestId payload
  | .start k => s.start m k
  | .add k => s.add m k
  | .get k => s.get m k
  | .timeout k => s.timeout m k
  | .consume v => s.consume m v
  | .complete v => s.complete m v
  | .cancelAll v => s.cancelAll m v

def run (m : Membership) (actions : List Action) : Option System :=
  exec (step m) System.initial actions

end System

end Zdb.Rsm
