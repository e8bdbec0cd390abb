import Zdb.Retry

/-! `RPCService`, `Config` and `KVStoreClient`. The services are in the order in
which the map is walked, and an iterator into the map is a position, the end being
one past the last. The bodies of the `wait` loops stand without the loops: they say
what an answer ends the loop with, if it does. -/

namespace Zdb.KV
open Resumption

structure RPCService where
  address : String
  circuitBreaker : CircuitBreaker := {}
  deriving DecidableEq, Repr

namespace RPCService

def errors (statuses : List Status) : List Error :=
  statuses.filterMap fun
    | .ok _ => none
    | .error failure => some (toError failure)

def call (policy : RetryPolicy) (op : Operation) (request : Command) (s : RPCService) :
    Task (Except (List Error) Reply × RPCService) := do
  if ← Ask.isConnected s.address then
    let (statuses, circuitBreaker) ←
      s.circuitBreaker.call policy op (Ask.call s.address request)
    match statuses.getLast? with
    | some (.ok reply) => return (.ok reply, { s with circuitBreaker })
    | _ => return (.error (errors statuses), { s with circuitBreaker })
  else
    return (.error [{ code := .serviceTemporarilyUnavailable, what := "Not connected" }], s)

def available (policy : RetryPolicy) (s : RPCService) : Task (Bool × RPCService) := do
  let (isOpen, circuitBreaker) ← s.circuitBreaker.isOpen policy
  let s := { s with circuitBreaker }
  if isOpen then return (false, s)
  if ← Ask.isConnected s.address then return (true, s)
  return (← Ask.connects s.address, s)

end RPCService

/-- `addresses` is the length of the list the map was filled from. -/
structure Config where
  policy : RetryPolicy
  services : List RPCService
  addresses : ℕ
  cService : ℕ

namespace Config

def setService (c : Config) (i : ℕ) (s : RPCService) : Config :=
  { c with services := c.services.set i s }

/-- `nextActiveServiceIterator`, from position `i` on, where `rest` are. -/
def nextActiveService (policy : RetryPolicy) (current i : ℕ) :
    List RPCService → Task (ℕ × List RPCService)
  | [] => return (i, [])
  | s :: rest => do
      if i = current then
        let (found, rest) ← nextActiveService policy current (i + 1) rest
        return (found, s :: rest)
      let (ok, s) ← s.available policy
      if ok then return (i, s :: rest)
      let (found, rest) ← nextActiveService policy current (i + 1) rest
      return (found, s :: rest)

def nextService (c : Config) : Task (Option ℕ × Config) := do
  let search (c : Config) : Task (Option ℕ × Config) := do
    let (found, services) ← nextActiveService c.policy c.cService 0 c.services
    let c := { c with services, cService := found }
    return (if found = services.length then none else some found, c)
  match c.services[c.cService]? with
  | none => search c
  | some s =>
      let (ok, s) ← s.available c.policy
      let c := c.setService c.cService s
      if ok then return (some c.cService, c)
      search c

def randomService : ℕ → Config → Task (Option ℕ × Config)
  | 0, c => return (none, c)
  | tries + 1, c => do
      let i ← Ask.drawBelow c.addresses
      if c.services.length < i then Ask.fail
      else if i.val = c.cService then randomService tries c
      else match c.services[i.val]? with
        | none => Ask.fail
        | some s =>
            let (ok, s) ← s.available c.policy
            let c := c.setService i s
            if ok then return (some i.val, { c with cService := i })
            randomService tries c

end Config

namespace KVStoreClient

def allServicesUnavailable : Error :=
  { code := .allServicesUnavailable, what := "All services are unavailable" }

def tryServices (op : Operation) (request : Command) :
    ℕ → Config → Task (Except (List Error) Reply × Config)
  | 0, c => return (.error [allServicesUnavailable], c)
  | left + 1, c => do
      let (service, c) ← c.nextService
      match service with
      | none => tryServices op request left c
      | some i => match c.services[i]? with
          | none => Ask.fail
          | some s =>
              let (callResult, s) ← s.call c.policy op request
              let c := c.setService i s
              match callResult with
              | .ok reply => return (.ok reply, c)
              | .error errors => match errors.getLast? with
                  | none => Ask.fail
                  | some last =>
                      if last.code = .notLeader then
                        let (_, c) ← c.randomService (10 * c.services.length)
                        tryServices op request left c
                      else if isRetriable op last.code then tryServices op request left c
                      else return (.error errors, c)

def call (op : Operation) (payload : Payload) (c : Config) :
    Task (Except (List Error) Reply × Config) := do
  let uuid ← Ask.newUuid
  tryServices op ⟨uuid, payload⟩ c.policy.servicesToTry c

def replyOrLast (t : Except (List Error) Reply) (c : Config) :
    Task (Except Error Reply × Config) :=
  match t with
  | .ok reply => return (.ok reply, c)
  | .error errors => match errors.getLast? with
      | none => Ask.fail
      | some last => return (.error last, c)

def get (key : Key) (c : Config) : Task (Except Error Reply × Config) := do
  let (t, c) ← call .get (.get key) c
  replyOrLast t c

def set (key : Key) (value : Value) (c : Config) : Task (Except Error Reply × Config) := do
  let (t, c) ← call .set (.set key value) c
  match t with
  | .ok reply => return (.ok reply, c)
  | .error errors => match errors.getLast? with
      | none => Ask.fail
      | some last =>
          if 1 < errors.length ∧ last.code = .versionMismatch then
            return (.error { code := .maybe, what := ErrorCode.maybe.toString }, c)
          else return (.error last, c)

def erase (key : Key) (c : Config) : Task (Except Error Reply × Config) := do
  let (t, c) ← call .erase (.erase key) c
  replyOrLast t c

def size (c : Config) : Task (Except Error Reply × Config) := do
  let (t, c) ← call .size .size c
  replyOrLast t c

def waitGet (value : Value) : Except Error Reply → Option Bool
  | .ok (.value v) => some (decide (v = value))
  | .ok _ => none
  | .error e => if e.code = .keyNotFound then some false else none

def waitNotFound : Except Error Reply → Option Bool
  | .ok _ => some false
  | .error e => if e.code = .keyNotFound then some true else none

def waitGetVersion (version : ℕ) : Except Error Reply → Option Value
  | .ok (.value v) => if v.version = version then some v else none
  | _ => none

end KVStoreClient

end Zdb.KV
