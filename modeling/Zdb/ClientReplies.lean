import Zdb.KVStoreClient
import Zdb.RepeatedCalls

/-! What a client sends and returns. All its attempts carry the one request, a reply
is the reply to one of them, and an error of the store is the error of one of them.
Every other error may be of the client's own making. -/

namespace Zdb.KV
open Resumption

/-- The errors the store itself answers a request with. -/
def Error.definite (e : Error) : Bool := e.code == .versionMismatch || e.code == .keyNotFound

def Ask.Sends (payload : Payload) : Ask → Prop
  | .rpc _ request => request.payload = payload
  | _ => True

def Heard.From (heard : Heard) (status : Status) : Prop :=
  ∃ address request, ⟨.rpc address request, status⟩ ∈ heard

/-- The status is an answer, or an error that says nothing of the store. -/
def Heard.Allows (heard : Heard) (status : Status) : Prop :=
  heard.From status ∨ ∃ failure, status = .error failure ∧ (toError failure).definite = false

def Heard.AllowsError (heard : Heard) (e : Error) : Prop :=
  e.definite = true → ∃ failure, heard.From (.error failure) ∧ toError failure = e

structure Heard.Explains (heard : Heard) (result : Except Error Reply) : Prop where
  reply : ∀ reply, result = .ok reply → heard.From (.ok reply)
  error : ∀ e, result = .error e → heard.AllowsError e

namespace Heard
variable {heard heard' : Heard}

theorem From.mono {status : Status} (h : heard.From status) (longer : heard <+: heard') :
    heard'.From status := by
  obtain ⟨address, request, mem⟩ := h
  exact ⟨address, request, longer.subset mem⟩

theorem From.of_outcome {more : Heard} {status : Status} (outcome : status ∈ more.outcomes) :
    From (heard ++ more) status := by
  obtain ⟨⟨e, r⟩, mem, same⟩ := List.mem_filterMap.mp outcome
  cases e with
  | rpc address request =>
    cases same
    exact ⟨address, request, List.mem_append_right heard mem⟩
  | _ => cases same

theorem Allows.mono {status : Status} (h : heard.Allows status) (longer : heard <+: heard') :
    heard'.Allows status := h.imp (fun from_ => from_.mono longer) id

theorem Allows.error {failure : Failure} (h : heard.Allows (.error failure)) :
    heard.AllowsError (toError failure) := by
  intro definite
  rcases h with from_ | ⟨_, same, made⟩
  · exact ⟨failure, from_, rfl⟩
  · cases same
    rw [made] at definite
    contradiction

theorem AllowsError.of_not_definite {e : Error} (made : e.definite = false) :
    heard.AllowsError e := fun definite => by simp [made] at definite

end Heard

open Heard

section Ensures
variable {heard : Heard} {payload : Payload} {request : Command}

theorem Repeater.Asks.sends {address : String} {e : Ask} (own : request.payload = payload)
    (asks : Asks address request e) : e.Sends payload := by
  rcases asks with rfl | rfl
  · trivial
  · exact own

theorem Repeater.attempt_ensures (policy : RetryPolicy) (op : Operation) (address : String)
    (own : request.payload = payload) (backoff : ExponentialBackoff) :
    Ensures (Ask.Sends payload) (fun heard r => ∀ status ∈ r.1, Heard.Allows heard status) heard
      (attempt policy op (Ask.call address request) backoff []) := by
  refine ((attempt_framed policy op address request backoff heard).weaken
    fun e asks => asks.sends own).mono ?_
  rintro _ r ⟨more, rfl, -, reported⟩ status mem
  rcases reported.mem mem with outcome | rfl
  · exact Or.inl (.of_outcome outcome)
  · exact Or.inr ⟨_, rfl, rfl⟩

namespace CircuitBreaker

theorem trip_ensures (b : CircuitBreaker) :
    Ensures (Ask.Sends payload) (fun _ _ => True) heard b.trip :=
  Ensures.bind_ask trivial fun _ => trivial

theorem isOpen_ensures {may : Ask → Prop} (clock : may .now) (policy : RetryPolicy)
    (b : CircuitBreaker) : Ensures may (fun _ _ => True) heard (b.isOpen policy) := by
  rw [isOpen]
  split
  · refine Ensures.bind_ask clock fun now => ?_
    split <;> exact .pure trivial
  · exact .pure trivial

theorem probe_ensures (op : Operation) (address : String) (own : request.payload = payload)
    (b : CircuitBreaker) :
    Ensures (Ask.Sends payload) (fun heard r => ∀ status ∈ r.1, Heard.Allows heard status) heard
      (b.probe op (Ask.call address request)) := by
  refine Ensures.bind_ask own fun status => ?_
  have answered : Heard.Allows (heard ++ [⟨.rpc address request, status⟩]) status :=
    Or.inl ⟨address, request, by simp⟩
  cases status with
  | ok reply => exact .pure (by simpa using answered)
  | error failure =>
    dsimp only
    split
    · refine Ensures.seq b.trip_ensures fun heard' b' longer _ => .pure ?_
      simpa using answered.mono longer
    · exact .pure (by simpa using answered)

theorem call_ensures (policy : RetryPolicy) (op : Operation) (address : String)
    (own : request.payload = payload) (b : CircuitBreaker) :
    Ensures (Ask.Sends payload) (fun heard r => ∀ status ∈ r.1, Heard.Allows heard status) heard
      (b.call policy op (Ask.call address request)) := by
  rw [call]
  split
  · refine Ensures.bind_ask trivial fun now => ?_
    split
    · refine .pure fun status mem => Or.inr ⟨_, List.mem_singleton.mp mem, rfl⟩
    · exact probe_ensures op address own _
  · exact probe_ensures op address own _
  · refine Ensures.seq (Repeater.attempt_ensures policy op address own _) ?_
    rintro heard' ⟨statuses, backoff⟩ longer given
    dsimp only
    split
    · split
      · refine Ensures.seq (trip_ensures _) fun heard'' b' longer' _ => .pure fun status mem => ?_
        exact (given status mem).mono longer'
      · exact .pure given
    · exact .pure given

end CircuitBreaker

structure ExplainsAll (heard : Heard) (result : Except (List Error) Reply) : Prop where
  reply : ∀ reply, result = .ok reply → heard.From (.ok reply)
  errors : ∀ errors, result = .error errors → ∀ e ∈ errors, heard.AllowsError e

theorem ExplainsAll.made {e : Error} (made : e.definite = false) :
    ExplainsAll heard (.error [e]) := by
  refine ⟨by simp, fun errors same e' mem => ?_⟩
  cases same
  rw [List.mem_singleton.mp mem]
  exact .of_not_definite made

namespace RPCService

theorem mem_errors {statuses : List Status} {e : Error} (mem : e ∈ errors statuses) :
    ∃ failure, .error failure ∈ statuses ∧ toError failure = e := by
  obtain ⟨status, there, same⟩ := List.mem_filterMap.mp mem
  cases status with
  | ok reply => cases same
  | error failure => exact ⟨failure, there, Option.some.inj same⟩

theorem call_ensures (policy : RetryPolicy) (op : Operation) (own : request.payload = payload)
    (s : RPCService) :
    Ensures (Ask.Sends payload) (fun heard r => ExplainsAll heard r.1) heard
      (s.call policy op request) := by
  rw [call]
  refine Ensures.bind_ask trivial fun connected => ?_
  split
  · refine Ensures.seq (CircuitBreaker.call_ensures policy op s.address own _) ?_
    rintro heard' ⟨statuses, breaker⟩ _ given
    dsimp only
    split
    · rename_i reply last
      refine .pure ⟨fun reply' same => ?_, by simp⟩
      cases same
      rcases given _ (List.mem_of_getLast? last) with from_ | ⟨_, same, _⟩
      · exact from_
      · cases same
    · refine .pure ⟨by simp, fun errors same e mem => ?_⟩
      cases same
      obtain ⟨failure, there, rfl⟩ := mem_errors mem
      exact (given _ there).error
  · exact .pure (.made rfl)

theorem available_ensures {may : Ask → Prop} (clock : may .now)
    (link : ∀ address, may (.connected address) ∧ may (.connect address)) (policy : RetryPolicy)
    (s : RPCService) : Ensures may (fun _ _ => True) heard (s.available policy) := by
  refine Ensures.seq (CircuitBreaker.isOpen_ensures clock policy _) ?_
  rintro heard' ⟨isOpen, breaker⟩ _ _
  dsimp only
  split
  · exact .pure trivial
  refine Ensures.bind_ask (link _).1 fun connected => ?_
  split
  · exact .pure trivial
  · exact Ensures.bind_ask (link _).2 fun _ => .pure trivial

theorem available_sends (policy : RetryPolicy) (s : RPCService) :
    Ensures (Ask.Sends payload) (fun _ _ => True) heard (s.available policy) :=
  available_ensures trivial (fun _ => ⟨trivial, trivial⟩) policy s

end RPCService

theorem Ask.fail_ensures {α : Type} {post : Heard → α → Prop} :
    Ensures (Ask.Sends payload) post heard Ask.fail := ⟨trivial, fun r => r.elim⟩

namespace Config

theorem nextActiveService_ensures (policy : RetryPolicy) (current i : ℕ)
    (services : List RPCService) :
    Ensures (Ask.Sends payload) (fun _ _ => True) heard
      (nextActiveService policy current i services) := by
  induction services generalizing heard i with
  | nil => exact .pure trivial
  | cons s rest ih =>
    rw [nextActiveService]
    split
    · exact Ensures.seq (ih (i + 1)) fun _ _ _ _ => .pure trivial
    refine Ensures.seq (s.available_sends policy) ?_
    rintro heard' ⟨ok, s'⟩ _ _
    dsimp only
    split
    · exact .pure trivial
    · exact Ensures.seq (ih (i + 1)) fun _ _ _ _ => .pure trivial

theorem nextService_ensures (c : Config) :
    Ensures (Ask.Sends payload) (fun _ _ => True) heard c.nextService := by
  rw [nextService]
  dsimp only
  split
  · exact Ensures.seq (nextActiveService_ensures _ _ _ _) fun _ _ _ _ => .pure trivial
  refine Ensures.seq (RPCService.available_sends _ _) ?_
  rintro heard' ⟨ok, s⟩ _ _
  dsimp only
  split
  · exact .pure trivial
  · exact Ensures.seq (nextActiveService_ensures _ _ _ _) fun _ _ _ _ => .pure trivial

theorem randomService_ensures (tries : ℕ) (c : Config) :
    Ensures (Ask.Sends payload) (fun _ _ => True) heard (randomService tries c) := by
  induction tries generalizing heard c with
  | zero => exact .pure trivial
  | succ tries ih =>
    rw [randomService]
    refine Ensures.bind_ask trivial fun i => ?_
    split
    · exact Ask.fail_ensures
    split
    · exact ih c
    split
    · exact Ask.fail_ensures
    refine Ensures.seq (RPCService.available_sends _ _) ?_
    rintro heard' ⟨ok, s⟩ _ _
    dsimp only
    split
    · exact .pure trivial
    · exact ih _

end Config

namespace KVStoreClient

theorem tryServices_ensures (op : Operation) (own : request.payload = payload) (left : ℕ)
    (c : Config) :
    Ensures (Ask.Sends payload) (fun heard r => ExplainsAll heard r.1) heard
      (tryServices op request left c) := by
  induction left generalizing heard c with
  | zero => exact .pure (.made rfl)
  | succ left ih =>
    rw [tryServices]
    refine Ensures.seq c.nextService_ensures ?_
    rintro heard₁ ⟨service, c₁⟩ _ _
    dsimp only
    split
    · exact ih c₁
    split
    · exact Ask.fail_ensures
    refine Ensures.seq (RPCService.call_ensures c₁.policy op own _) ?_
    rintro heard₂ ⟨result, s⟩ _ explains
    dsimp only
    split
    · exact .pure explains
    split
    · exact Ask.fail_ensures
    split
    · refine Ensures.seq (Config.randomService_ensures _ _) ?_
      rintro heard₃ ⟨_, c₃⟩ _ _
      exact ih c₃
    split
    · exact ih _
    · exact .pure explains

theorem call_ensures (op : Operation) (payload : Payload) (c : Config) :
    Ensures (Ask.Sends payload) (fun heard r => ExplainsAll heard r.1) heard
      (call op payload c) := by
  refine Ensures.bind_ask trivial fun uuid => ?_
  have own : (Command.mk uuid payload).payload = payload := rfl
  exact tryServices_ensures op own _ c

theorem replyOrLast_ensures {t : Except (List Error) Reply} (explains : ExplainsAll heard t)
    (c : Config) :
    Ensures (Ask.Sends payload) (fun heard r => Explains heard r.1) heard (replyOrLast t c) := by
  rw [replyOrLast.eq_def]
  split
  · rename_i reply
    refine .pure ⟨fun reply' same => ?_, by simp⟩
    cases same
    exact explains.reply reply rfl
  split
  · exact Ask.fail_ensures
  · rename_i errors _ last found
    refine .pure ⟨by simp, fun e same => ?_⟩
    cases same
    exact explains.errors errors rfl last (List.mem_of_getLast? found)

theorem get_ensures (key : Key) (c : Config) :
    Ensures (Ask.Sends (.get key)) (fun heard r => Explains heard r.1) heard (get key c) :=
  Ensures.seq (call_ensures _ _ c) fun _ _ _ explains => replyOrLast_ensures explains _

theorem erase_ensures (key : Key) (c : Config) :
    Ensures (Ask.Sends (.erase key)) (fun heard r => Explains heard r.1) heard (erase key c) :=
  Ensures.seq (call_ensures _ _ c) fun _ _ _ explains => replyOrLast_ensures explains _

theorem size_ensures (c : Config) :
    Ensures (Ask.Sends .size) (fun heard r => Explains heard r.1) heard (size c) :=
  Ensures.seq (call_ensures _ _ c) fun _ _ _ explains => replyOrLast_ensures explains _

theorem set_ensures (key : Key) (value : Value) (c : Config) :
    Ensures (Ask.Sends (.set key value)) (fun heard r => Explains heard r.1) heard
      (set key value c) := by
  refine Ensures.seq (call_ensures _ _ c) ?_
  rintro heard' ⟨t, c'⟩ _ explains
  dsimp only
  split
  · exact replyOrLast_ensures explains c'
  split
  · exact Ask.fail_ensures
  rename_i errors _ last found
  split
  · refine .pure ⟨by simp, fun e same => ?_⟩
    cases same
    exact .of_not_definite rfl
  · refine .pure ⟨by simp, fun e same => ?_⟩
    cases same
    exact explains.errors errors rfl last (List.mem_of_getLast? found)

end KVStoreClient

end Ensures

end Zdb.KV
