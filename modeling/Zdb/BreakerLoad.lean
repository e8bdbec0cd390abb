import Zdb.BreakerHistory

/-! What a `CircuitBreaker` is for: however often its owner calls, a service whose
failures are all worth a retry gets as many requests as the threshold says, and then one
for each `resetTimeout` that passes. A failure that `isRetriable` refuses for the operation
does not trip the breaker. -/

namespace Zdb.KV
open Resumption LabelledRun

def Heard.times (heard : Heard) : List ℕ :=
  heard.filterMap fun
    | ⟨.now, time⟩ => some time
    | _ => none

namespace Heard

@[simp] theorem times_append (heard more : Heard) :
    times (heard ++ more) = heard.times ++ more.times := List.filterMap_append

@[simp] theorem times_cons (first : Exchange Ask Ask.Answer) (more : Heard) :
    times (first :: more) = match first with
      | ⟨.now, time⟩ => time :: more.times
      | _ => more.times := by
  obtain ⟨e, r⟩ := first
  cases e <;> rfl

@[simp] theorem times_nil : times [] = [] := rfl

theorem times_of_asks {address : String} {request : Command} {heard : Heard}
    (asks : ∀ x ∈ heard, Repeater.Asks address request x.1) : heard.times = [] := by
  refine List.filterMap_eq_nil_iff.mpr ?_
  rintro ⟨e, answer⟩ mem
  rcases asks _ mem with same | same
  · cases same
    rfl
  · cases same
    rfl

end Heard

namespace CircuitBreaker

def Retriable (op : Operation) (heard : Heard) : Prop :=
  ∀ status ∈ heard.outcomes, retries op status = true

inductive Strained (policy : RetryPolicy) (b : CircuitBreaker) (heard : Heard) :
    CircuitBreaker → Prop
  | kept (quiet : heard.outcomes = []) : Strained policy b heard b
  | due (held : b.state = .opened) (time : ℕ)
      (elapsed : policy.resetTimeout ≤ time - b.lastFailureTime) (times : heard.times = [time])
      (quiet : heard.outcomes = []) : Strained policy b heard { b with state := .halfOpen }
  | retried (held : b.state = .opened) (time failed : ℕ)
      (elapsed : policy.resetTimeout ≤ time - b.lastFailureTime)
      (times : heard.times = [time, failed]) (one : heard.outcomes.length = 1) :
      Strained policy b heard { b with state := .opened, lastFailureTime := failed }
  | tried (half : b.state = .halfOpen) (failed : ℕ) (times : heard.times = [failed])
      (one : heard.outcomes.length = 1) :
      Strained policy b heard { b with state := .opened, lastFailureTime := failed }
  | tripped (closed : b.state = .closed) (failed : ℕ) (backoff : ExponentialBackoff)
      (times : heard.times = [failed])
      (few : heard.outcomes.length ≤ max 1 policy.failureThreshold) :
      Strained policy b heard { state := .opened, lastFailureTime := failed, backoff }

section Calls
variable {policy : RetryPolicy} {op : Operation} {heard : Heard}

theorem probe_retriable (address : String) (request : Command) (b : CircuitBreaker) :
    Ensures (fun _ => True)
      (fun heard' r => Retriable op heard' → ∃ failed,
        Heard.times heard' = heard.times ++ [failed] ∧
        (Heard.outcomes heard').length = heard.outcomes.length + 1 ∧
        r.2 = { b with state := .opened, lastFailureTime := failed })
      heard (probe op (Ask.call address request) b) := by
  refine Ensures.bind_ask trivial fun (status : Status) => ?_
  cases status with
  | ok reply =>
    refine .pure fun retriable => ?_
    cases retriable (.ok reply) (by simp)
  | error failure =>
    dsimp only
    split
    · exact Ensures.bind_ask trivial fun failed => .pure fun _ =>
        ⟨failed, by simp, by simp, rfl⟩
    · rename_i final
      exact .pure fun retriable => absurd (retriable (.error failure) (by simp)) final

theorem call_strained (policy : RetryPolicy) (op : Operation) (address : String)
    (request : Command) (b : CircuitBreaker) :
    Ensures (fun _ => True)
      (fun heard r => Heard.unstopped heard = true → Retriable op heard →
        Strained policy b heard r.2) []
      (b.call policy op (Ask.call address request)) := by
  rw [call]
  split
  · rename_i held
    refine Ensures.bind_ask trivial fun (time : ℕ) => ?_
    split
    · exact .pure fun _ _ => .kept rfl
    · rename_i elapsed
      refine (probe_retriable address request _).mono fun heard r failed _ retriable => ?_
      obtain ⟨failed, times, one, same⟩ := failed retriable
      rw [same]
      exact .retried held time failed (Nat.le_of_not_lt elapsed) times one
  · rename_i half
    refine (probe_retriable address request b).mono fun heard r failed _ retriable => ?_
    obtain ⟨failed, times, one, same⟩ := failed retriable
    rw [same]
    exact .tried half failed times one
  · rename_i closed
    refine Ensures.seq ((Repeater.attempt_framed policy op address request b.backoff []).weaken
      fun _ _ => trivial) ?_
    rintro heard ⟨statuses, backoff⟩ - ⟨more, rfl, asks, reported⟩
    have noTimes := Heard.times_of_asks asks
    cases reported with
    | stopped front backoff _ _ _ flag =>
      -- the stop flag was seen set, which the step excludes
      have seen := Heard.unstopped_of_stopped flag
      simp only [List.getLast?_concat, Repeater.stoppedStatus]
      split
      · refine Ensures.bind_ask trivial fun time => .pure fun never => ?_
        simp [Heard.unstopped_append, seen] at never
      · exact .pure fun never => by simp [seen] at never
    | settled front last listed _ _ settles =>
      have answered : ¬ Retriable op heard := fun retriable => by
        simpa [settles] using retriable last (by simp [listed])
      cases last with
      | ok reply =>
        simp only [List.getLast?_concat]
        exact .pure fun _ retriable => absurd retriable answered
      | error failure =>
        have final : isRetriable op (toError failure).code = false := settles
        simp only [List.getLast?_concat, final]
        exact .pure fun _ retriable => absurd retriable answered
    | exhausted front last backoff listed retried spent _ _ =>
      cases last with
      | ok reply => cases retried (.ok reply) (by simp)
      | error failure =>
        have again : isRetriable op (toError failure).code = true :=
          retried (.error failure) (by simp)
        simp only [List.getLast?_concat, again]
        refine Ensures.bind_ask trivial fun failed => .pure fun _ _ => ?_
        refine .tripped closed failed backoff ?_ ?_
        · rw [Heard.times_append, noTimes]
          rfl
        · rw [Heard.outcomes_append, List.length_append, spent]
          change max 1 (policy.failureThreshold - b.backoff.attempt) + 0 ≤ _
          omega

theorem isOpen_strained (policy : RetryPolicy) (b : CircuitBreaker) :
    Ensures (fun _ => True) (fun heard r => Strained policy b heard r.2) []
      (b.isOpen policy) := by
  rw [isOpen]
  split
  · rename_i held
    refine Ensures.bind_ask trivial fun (time : ℕ) => ?_
    split
    · rename_i elapsed
      exact .pure (.due held time elapsed rfl rfl)
    · exact .pure (.kept rfl)
  · exact .pure (.kept rfl)

end Calls

def Action.heard : Action → Heard
  | .call _ _ _ heard => heard
  | .isOpen heard => heard

/-- Every request fails with a status that `isRetriable` allows for the operation. -/
def Action.retriable : Action → Bool
  | .call op _ _ heard => heard.outcomes.all (retries op)
  | .isOpen _ => true

theorem step_strained {policy : RetryPolicy} {b b' : CircuitBreaker} {a : Action}
    (retriable : a.retriable = true) (moved : step policy b a = some b') :
    Strained policy b a.heard b' := by
  cases a with
  | call op address request heard =>
    rw [step] at moved
    split_ifs at moved with unstopped
    obtain ⟨⟨statuses, b''⟩, had, rfl⟩ := Option.map_eq_some_iff.mp moved
    exact (call_strained policy op address request b).of_replay had unstopped
      (List.all_eq_true.mp retriable)
  | isOpen heard =>
    obtain ⟨⟨_, b''⟩, had, rfl⟩ := Option.map_eq_some_iff.mp moved
    exact (isOpen_strained policy b).of_replay had

def requests (history : List Action) : List Status := history.flatMap fun a => a.heard.outcomes

def readings (history : List Action) : List ℕ := history.flatMap fun a => a.heard.times

/-- When a breaker that has let `count` requests through since `start` may let the next
one through, if the clock shows no less than `floor` from now on. -/
structure Rested (policy : RetryPolicy) (start floor count : ℕ) (b : CircuitBreaker) : Prop where
  since : start ≤ b.lastFailureTime
  few : (count - max 1 policy.failureThreshold) * policy.resetTimeout ≤ b.lastFailureTime - start
  past : b.lastFailureTime ≤ floor
  held : b.state ≠ .closed
  waited : b.state = .halfOpen → b.lastFailureTime + policy.resetTimeout ≤ floor

def Spared (policy : RetryPolicy) (start floor count : ℕ) (b : CircuitBreaker) : Prop :=
  count = 0 ∨ Rested policy start floor count b

section Load
variable {policy : RetryPolicy} {start floor count failed : ℕ} {b b' : CircuitBreaker}

theorem Rested.of_few (few : count ≤ max 1 policy.failureThreshold) (since : start ≤ failed)
    (opened : b.state = .opened) (last : b.lastFailureTime = failed) :
    Rested policy start failed count b where
  since := last ▸ since
  few := by
    rw [Nat.sub_eq_zero_of_le few, Nat.zero_mul]
    exact Nat.zero_le _
  past := last.le
  held := by simp [opened]
  waited half := by simp [opened] at half

theorem Rested.next (rested : Rested policy start floor count b)
    (elapsed : b.lastFailureTime + policy.resetTimeout ≤ failed) (opened : b'.state = .opened)
    (last : b'.lastFailureTime = failed) : Rested policy start failed (count + 1) b' where
  since := by
    have := rested.since
    omega
  few := by
    have since := rested.since
    calc (count + 1 - max 1 policy.failureThreshold) * policy.resetTimeout
        ≤ (count - max 1 policy.failureThreshold + 1) * policy.resetTimeout :=
          Nat.mul_le_mul_right _ (by omega)
      _ = (count - max 1 policy.failureThreshold) * policy.resetTimeout + policy.resetTimeout :=
          Nat.succ_mul _ _
      _ ≤ b.lastFailureTime - start + policy.resetTimeout :=
          Nat.add_le_add_right rested.few _
      _ ≤ b'.lastFailureTime - start := by omega
  past := last.le
  held := by simp [opened]
  waited half := by simp [opened] at half

theorem Spared.next (spared : Spared policy start floor count b) (reached : start ≤ floor)
    (later : floor ≤ failed)
    (elapsed : Rested policy start floor count b →
      b.lastFailureTime + policy.resetTimeout ≤ failed)
    (opened : b'.state = .opened) (last : b'.lastFailureTime = failed) :
    Spared policy start failed (count + 1) b' := by
  rcases spared with rfl | rested
  · exact Or.inr (.of_few (by omega) (reached.trans later) opened last)
  · exact Or.inr (rested.next (elapsed rested) opened last)

variable {heard : Heard}

theorem Strained.spared (strained : Strained policy b heard b')
    (spared : Spared policy start floor count b) (reached : start ≤ floor)
    (ordered : (floor :: heard.times).Pairwise (· ≤ ·)) :
    ∃ floor' ∈ floor :: heard.times,
      Spared policy start floor' (count + heard.outcomes.length) b' := by
  have later := (List.pairwise_cons.mp ordered).1
  cases strained with
  | kept quiet => exact ⟨floor, by simp, by simpa [quiet] using spared⟩
  | due held time elapsed times quiet =>
    have passed := later time (by simp [times])
    refine ⟨time, by simp [times], ?_⟩
    rw [quiet, List.length_nil, Nat.add_zero]
    refine spared.imp_right fun rested => ?_
    have past := rested.past
    exact ⟨rested.since, rested.few, past.trans passed, by simp, fun _ => by
      dsimp only
      omega⟩
  | retried held time failed elapsed times one =>
    have passed := later time (by simp [times])
    have step : time ≤ failed := by simpa [times] using (List.pairwise_cons.mp ordered).2
    refine ⟨failed, by simp [times], ?_⟩
    rw [one]
    refine spared.next reached (passed.trans step) (fun rested => ?_) rfl rfl
    have past := rested.past
    omega
  | tried half failed times one =>
    have passed := later failed (by simp [times])
    refine ⟨failed, by simp [times], ?_⟩
    rw [one]
    exact spared.next reached passed (fun rested => (rested.waited half).trans passed) rfl rfl
  | tripped closed failed backoff times few =>
    have passed := later failed (by simp [times])
    refine ⟨failed, by simp [times], ?_⟩
    rcases spared with rfl | rested
    · exact Or.inr (.of_few (by omega) (reached.trans passed) rfl rfl)
    · exact absurd closed rested.held

theorem run_spared {history : List Action} (spared : Spared policy start floor count b)
    (reached : start ≤ floor) (retriable : ∀ a ∈ history, a.retriable = true)
    (ordered : (floor :: readings history).Pairwise (· ≤ ·))
    (run : exec (step policy) b history = some b') :
    ∃ floor' ∈ floor :: readings history,
      Spared policy start floor' (count + (requests history).length) b' := by
  induction history generalizing b floor count with
  | nil =>
    cases run
    exact ⟨floor, by simp, spared⟩
  | cons a history ih =>
    obtain ⟨b₁, moved, run⟩ := Option.bind_eq_some_iff.mp run
    change ((floor :: a.heard.times) ++ readings history).Pairwise (· ≤ ·) at ordered
    obtain ⟨now, rest, across⟩ := List.pairwise_append.mp ordered
    obtain ⟨floor₁, mem, spared⟩ :=
      (step_strained (retriable a (by simp)) moved).spared spared reached now
    have reached₁ : start ≤ floor₁ := by
      rcases List.mem_cons.mp mem with rfl | mem
      · exact reached
      · exact reached.trans ((List.pairwise_cons.mp now).1 floor₁ mem)
    obtain ⟨floor', mem', spared'⟩ := ih spared reached₁
      (fun a mem => retriable a (List.mem_cons_of_mem _ mem))
      (List.pairwise_cons.mpr ⟨across floor₁ mem, rest⟩) run
    refine ⟨floor', ?_, ?_⟩
    · change floor' ∈ (floor :: a.heard.times) ++ readings history
      rcases List.mem_cons.mp mem' with rfl | mem'
      · exact List.mem_append_left _ mem
      · exact List.mem_append_right _ mem'
    · simpa [requests, Nat.add_assoc] using spared'

end Load

/-- While every request fails with a status that `isRetriable` allows for its operation, a
breaker in any state, called any number of times between `start` and `finish`, lets through
as many requests as the threshold says and one more for each `resetTimeout` in between. -/
theorem retriable_failures_bounded (policy : RetryPolicy) (b b' : CircuitBreaker)
    (history : List Action) (start finish : ℕ) (run : exec (step policy) b history = some b')
    (retriable : ∀ a ∈ history, a.retriable = true)
    (ordered : (readings history).Pairwise (· ≤ ·))
    (within : ∀ time ∈ readings history, start ≤ time ∧ time ≤ finish) :
    ((requests history).length - max 1 policy.failureThreshold) * policy.resetTimeout ≤
      finish - start := by
  obtain ⟨floor, mem, spared⟩ := run_spared (Or.inl rfl) (le_refl start) retriable
    (List.pairwise_cons.mpr ⟨fun time mem => (within time mem).1, ordered⟩) run
  have ends : floor - start ≤ finish - start := by
    rcases List.mem_cons.mp mem with rfl | mem
    · omega
    · have := (within floor mem).2
      omega
  rw [Nat.zero_add] at spared
  rcases spared with none | rested
  · rw [none, Nat.zero_sub, Nat.zero_mul]
    exact Nat.zero_le _
  · have past := rested.past
    exact rested.few.trans (by omega)

section Runs

def lostTrial (time : ℕ) : Action :=
  .call .get "a" request [⟨.now, time⟩, ⟨.rpc "a" request, lost⟩, ⟨.now, time⟩]

def outage : List Action :=
  [.call .get "a" request allLost, .call .get "a" request [⟨.now, (9 : ℕ)⟩], lostTrial 10,
    .isOpen [⟨.now, (20 : ℕ)⟩], .call .get "a" request [⟨.rpc "a" request, lost⟩, ⟨.now, (20 : ℕ)⟩]]

theorem retriable_failures_bounded_outage :
    (requests outage).length = 5 ∧
      ((requests outage).length - max 1 threeStrikes.failureThreshold) *
        threeStrikes.resetTimeout ≤ 20 - 0 :=
  ⟨by decide +kernel, retriable_failures_bounded threeStrikes {}
    { state := .opened, lastFailureTime := 20, backoff := ⟨2⟩ } outage 0 20 (by decide +kernel)
    (by decide +kernel) (by decide +kernel) (by decide +kernel)⟩

end Runs

end CircuitBreaker

end Zdb.KV
