import Zdb.KVStoreClient

/-! A `KVStoreClient` over a reliable connection. Every call reaches the one store and
is answered, so that a client whose breakers are closed makes one call, and returns what
the service says. -/

namespace Zdb.KV
open Resumption

/-- The surroundings: the store applies each request, the service turns what it returns
into a status, every address is connected and nobody stops the client. -/
def reliable (uuid : UUIDV7) :
    (e : Ask) → InMemoryKVStore → Option (e.Answer × InMemoryKVStore)
  | .rpc _ request, store =>
      let (store, state) := KVStateMachine.applyCommand store 0 request.payload
      state.map fun state => (KVStoreServiceImpl.status request.payload state, store)
  | .now, store => some ((0 : ℕ), store)
  | .stopped, store => some (false, store)
  | .connected _, store => some (true, store)
  | .connect _, store => some (true, store)
  | .draw bound, store => if drawn : 0 < bound then some (⟨0, drawn⟩, store) else none
  | .uuid, store => some (uuid, store)
  | .undefined, _ => none

def Answers (payload : Payload) (store : InMemoryKVStore) (status : Status)
    (store' : InMemoryKVStore) : Prop :=
  ∃ state, KVStateMachine.applyCommand store 0 payload = (store', some state) ∧
    status = KVStoreServiceImpl.status payload state

/-- The client does not try again after the status. -/
def Settles (op : Operation) : Status → Prop
  | .ok _ => True
  | .error failure =>
      isRetriable op (toError failure).code = false ∧ (toError failure).code ≠ .notLeader

structure Config.Ready (c : Config) : Prop where
  tries : 0 < c.policy.servicesToTry
  services : c.services ≠ []
  closed : ∀ s ∈ c.services, s.circuitBreaker.state = .closed

section
variable {uuid : UUIDV7} {store store' : InMemoryKVStore} {request : Command} {status : Status}
  {op : Operation} {policy : RetryPolicy}

theorem Answers.serve_call (answers : Answers request.payload store status store')
    (address : String) :
    (Ask.call address request).serve (reliable uuid) store = some (status, store') := by
  obtain ⟨state, applied, rfl⟩ := answers
  have answered : reliable uuid (.rpc address request) store =
      some (KVStoreServiceImpl.status request.payload state, store') := by
    rw [reliable, applied]
    rfl
  exact congrArg (Option.bind · _) answered

theorem isStopped_reliable : Ask.isStopped.serve (reliable uuid) store = some (false, store) := rfl

theorem isConnected_reliable (address : String) :
    (Ask.isConnected address).serve (reliable uuid) store = some (true, store) := rfl

theorem Repeater.attempt_reliable (answers : Answers request.payload store status store')
    (settles : Settles op status) (address : String) (backoff : ExponentialBackoff) :
    (attempt policy op (Ask.call address request) backoff []).serve (reliable uuid) store =
      some (([status], {}), store') := by
  rw [attempt, Program.serve_seq isStopped_reliable]
  rw [if_neg Bool.false_ne_true, Program.serve_seq (answers.serve_call address),
    Program.serve_seq isStopped_reliable, if_neg Bool.false_ne_true]
  cases status with
  | ok reply => rfl
  | error failure =>
    dsimp only
    rw [settles.1]
    rfl

theorem CircuitBreaker.call_reliable (answers : Answers request.payload store status store')
    (settles : Settles op status) (address : String) {b : CircuitBreaker}
    (closed : b.state = .closed) :
    (b.call policy op (Ask.call address request)).serve (reliable uuid) store =
      some (([status], { b with backoff := {} }), store') := by
  rw [call, closed, Program.serve_seq (Repeater.attempt_reliable answers settles address _)]
  cases status with
  | ok reply => rfl
  | error failure =>
    dsimp only [List.getLast?_singleton]
    rw [settles.1]
    rfl

def RPCService.result : Status → Except (List Error) Reply
  | .ok reply => .ok reply
  | .error failure => .error [toError failure]

theorem RPCService.call_reliable (uuid : UUIDV7) (policy : RetryPolicy)
    (answers : Answers request.payload store status store') (settles : Settles op status)
    {s : RPCService} (closed : s.circuitBreaker.state = .closed) :
    ∃ s', s'.circuitBreaker.state = .closed ∧
      (s.call policy op request).serve (reliable uuid) store =
        some ((result status, s'), store') := by
  refine ⟨{ s with circuitBreaker := { s.circuitBreaker with backoff := {} } }, closed, ?_⟩
  rw [call, Program.serve_seq (isConnected_reliable _), if_pos rfl,
    Program.serve_seq (CircuitBreaker.call_reliable answers settles s.address closed)]
  cases status with
  | ok reply => rfl
  | error failure => rfl

theorem RPCService.available_reliable {s : RPCService}
    (closed : s.circuitBreaker.state = .closed) :
    (s.available policy).serve (reliable uuid) store = some ((true, s), store) := by
  rw [available, CircuitBreaker.isOpen, closed]
  rfl

namespace Config
variable {c : Config}

theorem nextService_reliable (uuid : UUIDV7) (store : InMemoryKVStore) (ready : c.Ready) :
    ∃ i s c', c'.services[i]? = some s ∧ c'.services = c.services ∧ c'.policy = c.policy ∧
      c.nextService.serve (reliable uuid) store = some ((some i, c'), store) := by
  rw [nextService]
  dsimp only
  split
  · rename_i outside
    obtain ⟨s, rest, services⟩ := List.exists_cons_of_ne_nil ready.services
    have closed := ready.closed s (by simp [services])
    have walked : (nextActiveService c.policy c.cService 0 c.services).serve (reliable uuid) store =
        some ((0, c.services), store) := by
      have other : 0 ≠ c.cService := by
        rintro same
        rw [← same, services] at outside
        cases outside
      rw [services, nextActiveService, if_neg other,
        Program.serve_seq (RPCService.available_reliable closed)]
      rfl
    refine ⟨0, s, { c with cService := 0 }, by simp [services], rfl, rfl, ?_⟩
    rw [Program.serve_seq walked]
    dsimp only
    rw [if_neg (by simp [services])]
    rfl
  · rename_i s there
    have closed := ready.closed s (List.mem_of_getElem? there)
    have same : c.services.set c.cService s = c.services := by
      obtain ⟨inside, rfl⟩ := List.getElem?_eq_some_iff.mp there
      exact List.set_getElem_self inside
    refine ⟨c.cService, s, c.setService c.cService s, ?_, same, rfl, ?_⟩
    · rw [setService, same, there]
    · rw [Program.serve_seq (RPCService.available_reliable closed)]
      rfl

theorem Ready.setService (ready : c.Ready) (i : ℕ) {s : RPCService}
    (closed : s.circuitBreaker.state = .closed) : (c.setService i s).Ready where
  tries := ready.tries
  services := by simpa [Config.setService] using ready.services
  closed s' mem := by
    rcases List.mem_or_eq_of_mem_set mem with old | rfl
    · exact ready.closed s' old
    · exact closed

end Config

namespace KVStoreClient
variable {c : Config} {payload : Payload}

theorem call_reliable (uuid : UUIDV7) (ready : c.Ready)
    (answers : Answers payload store status store') (settles : Settles op status) :
    ∃ c' : Config, c'.Ready ∧ (call op payload c).serve (reliable uuid) store =
      some ((RPCService.result status, c'), store') := by
  obtain ⟨left, tries⟩ := Nat.exists_eq_succ_of_ne_zero ready.tries.ne'
  obtain ⟨i, s, c₁, there, services, policy, chosen⟩ :=
    Config.nextService_reliable uuid store ready
  have ready₁ : c₁.Ready :=
    ⟨policy ▸ ready.tries, services ▸ ready.services, services ▸ ready.closed⟩
  have closed := ready₁.closed s (List.mem_of_getElem? there)
  have answers' : Answers (Command.mk uuid payload).payload store status store' := answers
  obtain ⟨s', closed', called⟩ :=
    RPCService.call_reliable uuid c₁.policy answers' settles closed
  refine ⟨c₁.setService i s', ready₁.setService i closed', ?_⟩
  have named : Ask.newUuid.serve (reliable uuid) store = some (uuid, store) := rfl
  rw [call, Program.serve_seq named, tries, tryServices, Program.serve_seq chosen]
  dsimp only
  rw [there]
  dsimp only
  rw [Program.serve_seq called]
  cases status with
  | ok reply => rfl
  | error failure =>
    dsimp only [RPCService.result, List.getLast?_singleton]
    rw [if_neg settles.2, settles.1]
    rfl

def result : Status → Except Error Reply
  | .ok reply => .ok reply
  | .error failure => .error (toError failure)

theorem get_reliable (uuid : UUIDV7) {key : Key} (ready : c.Ready)
    (answers : Answers (.get key) store status store') (settles : Settles .get status) :
    ∃ c' : Config, c'.Ready ∧
      (get key c).serve (reliable uuid) store = some ((result status, c'), store') := by
  obtain ⟨c', ready', called⟩ := call_reliable uuid ready answers settles
  refine ⟨c', ready', ?_⟩
  rw [get, Program.serve_seq called]
  cases status with
  | ok reply => rfl
  | error failure => rfl

theorem set_reliable (uuid : UUIDV7) {key : Key} {value : Value} (ready : c.Ready)
    (answers : Answers (.set key value) store status store') (settles : Settles .set status) :
    ∃ c' : Config, c'.Ready ∧
      (set key value c).serve (reliable uuid) store = some ((result status, c'), store') := by
  obtain ⟨c', ready', called⟩ := call_reliable uuid ready answers settles
  refine ⟨c', ready', ?_⟩
  rw [set, Program.serve_seq called]
  cases status with
  | ok reply => rfl
  | error failure =>
    dsimp only [RPCService.result, List.getLast?_singleton]
    rw [if_neg (by simp)]
    rfl

end KVStoreClient

end

end Zdb.KV
