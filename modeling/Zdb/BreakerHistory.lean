import Zdb.LabelledRun
import Zdb.RepeatedCalls

/-! Histories of one `CircuitBreaker`. Its state and the counter of its repeater are
reset on different paths: a trial call that fails for good closes the breaker and leaves
the counter where the failures before it have put it. -/

namespace Zdb.KV
open Resumption LabelledRun

def Heard.unstopped (heard : Heard) : Bool :=
  heard.all fun
    | ⟨.stopped, flag⟩ => !flag
    | _ => true

namespace Heard

theorem unstopped_append (heard more : Heard) :
    unstopped (heard ++ more) = (heard.unstopped && more.unstopped) := List.all_append

theorem unstopped_of_stopped {heard : Heard} (flag : heard.getLast? = some ⟨.stopped, true⟩) :
    heard.unstopped = false := by
  obtain ⟨front, rfl⟩ := List.getLast?_eq_some_iff.mp flag
  rw [unstopped_append]
  exact Bool.and_false _

end Heard

namespace CircuitBreaker

inductive Called (policy : RetryPolicy) (op : Operation) (b : CircuitBreaker) (heard : Heard) :
    CircuitBreaker → Prop
  | refused (held : b.state = .opened) : Called policy op b heard b
  | recovered (tried : b.state ≠ .closed) :
      Called policy op b heard { b with state := .closed, backoff := {} }
  | reopened (tried : b.state ≠ .closed) (time : ℕ) :
      Called policy op b heard { b with state := .opened, lastFailureTime := time }
  | spoiled (tried : b.state ≠ .closed) (failure : Failure)
      (answered : .error failure ∈ heard.outcomes)
      (final : isRetriable op (toError failure).code = false) :
      Called policy op b heard { b with state := .closed }
  | settled (closed : b.state = .closed) : Called policy op b heard { b with backoff := {} }
  | tripped (closed : b.state = .closed) (time : ℕ) (backoff : ExponentialBackoff)
      (retried : ∀ status ∈ heard.outcomes, retries op status = true)
      (spent : heard.outcomes.length = max 1 (policy.failureThreshold - b.backoff.attempt))
      (counted : backoff.attempt + 1 = b.backoff.attempt + heard.outcomes.length) :
      Called policy op b heard { state := .opened, lastFailureTime := time, backoff }

section
variable {policy : RetryPolicy} {op : Operation} {b : CircuitBreaker} {heard : Heard}

theorem probe_called (address : String) (request : Command) (tried : b.state ≠ .closed)
    (state : BreakerState) :
    Ensures (fun _ => True) (fun heard' r => Called policy op b heard' r.2) heard
      (probe op (Ask.call address request) { b with state }) := by
  refine Ensures.bind_ask trivial fun (status : Status) => ?_
  cases status with
  | ok reply => exact .pure (.recovered tried)
  | error failure =>
    dsimp only
    split
    · exact Ensures.bind_ask trivial fun time => .pure (.reopened tried time)
    · rename_i final
      exact .pure (.spoiled tried failure (by simp) (by simpa using final))

theorem call_called (policy : RetryPolicy) (op : Operation) (address : String)
    (request : Command) (b : CircuitBreaker) :
    Ensures (fun _ => True)
      (fun heard r => Heard.unstopped heard = true → Called policy op b heard r.2) []
      (b.call policy op (Ask.call address request)) := by
  rw [call]
  split
  · rename_i held
    refine Ensures.bind_ask trivial fun now => ?_
    split
    · exact .pure fun _ => .refused held
    · refine (probe_called address request ?_ _).mono fun _ _ called _ => called
      simp [held]
  · rename_i half
    refine (probe_called address request ?_ b.state).mono fun _ _ called _ => called
    simp [half]
  · rename_i closed
    refine Ensures.seq ((Repeater.retrying_start.attempt_reported address request).weaken
      fun _ _ => trivial) ?_
    rintro heard _ - (⟨front, backoff, _, _, _, flag⟩ | ⟨front, last, _, _, _, settles⟩ |
      ⟨front, last, backoff, listed, retried, spent, counted, _⟩)
    · have seen := Heard.unstopped_of_stopped flag
      simp only [List.getLast?_concat, Repeater.stoppedStatus]
      split
      · refine Ensures.bind_ask trivial fun time => .pure fun never => ?_
        simp [Heard.unstopped_append, seen] at never
      · exact .pure fun never => by simp [seen] at never
    · cases last with
      | ok reply =>
        simp only [List.getLast?_concat]
        exact .pure fun _ => .settled closed
      | error failure =>
        have final : isRetriable op (toError failure).code = false := settles
        simp only [List.getLast?_concat, final]
        exact .pure fun _ => .settled closed
    · cases last with
      | ok reply => cases retried (.ok reply) (by simp)
      | error failure =>
        have again : isRetriable op (toError failure).code = true :=
          retried (.error failure) (by simp)
        simp only [List.getLast?_concat, again]
        refine Ensures.bind_ask trivial fun time => .pure fun _ => ?_
        rw [← listed] at retried
        exact .tripped closed time backoff (by simpa using retried) (by simpa using spent)
          (by simpa using counted)

theorem isOpen_closed (policy : RetryPolicy) (b : CircuitBreaker) :
    Ensures (fun _ => True)
      (fun _ r => r.2.backoff = b.backoff ∧ (r.2.state = .closed → b.state = .closed)) []
      (b.isOpen policy) := by
  rw [isOpen]
  split
  · refine Ensures.bind_ask trivial fun now => ?_
    split
    · exact .pure ⟨rfl, fun closed => by cases closed⟩
    · exact .pure ⟨rfl, id⟩
  · exact .pure ⟨rfl, id⟩

end

inductive Action where
  | call (op : Operation) (address : String) (request : Command) (heard : Heard)
  | isOpen (heard : Heard)

/-- The breaker after an action during which the stop flag is not set. -/
def step (policy : RetryPolicy) (b : CircuitBreaker) : Action → Option CircuitBreaker
  | .call op address request heard =>
      if heard.unstopped then
        ((b.call policy op (Ask.call address request)).replay heard).map Prod.snd
      else none
  | .isOpen heard => ((b.isOpen policy).replay heard).map Prod.snd

/-- A trial says whether the service is back: it is answered, or fails in a way that is
worth trying again. -/
def decides (op : Operation) : Status → Bool
  | .ok _ => true
  | .error failure => isRetriable op (toError failure).code

def Decided (policy : RetryPolicy) (b : CircuitBreaker) : Action → Prop
  | .call op _ _ heard =>
      policy.failureThreshold ≤ 1 ∨ b.state = .closed ∨
        ∀ status ∈ heard.outcomes, decides op status = true
  | .isOpen _ => True

instance (policy : RetryPolicy) (b : CircuitBreaker) (a : Action) :
    Decidable (Decided policy b a) := by
  cases a <;> unfold Decided <;> infer_instance

structure Whole (policy : RetryPolicy) (b : CircuitBreaker) : Prop where
  closed : b.state = .closed → b.backoff.attempt = 0
  small : policy.failureThreshold ≤ 1 → b.backoff.attempt = 0

section
variable {policy : RetryPolicy} {op : Operation} {b b' : CircuitBreaker} {heard : Heard}
  {address : String} {request : Command}

theorem step_call (moved : step policy b (.call op address request heard) = some b') :
    Called policy op b heard b' := by
  rw [step] at moved
  split_ifs at moved with unstopped
  obtain ⟨⟨statuses, b''⟩, had, rfl⟩ := Option.map_eq_some_iff.mp moved
  exact (call_called policy op address request b).of_replay had unstopped

theorem Called.whole (called : Called policy op b heard b') (whole : Whole policy b)
    (decided : Decided policy b (.call op address request heard)) : Whole policy b' := by
  cases called with
  | refused held => exact whole
  | recovered tried => exact ⟨fun _ => rfl, fun _ => rfl⟩
  | reopened tried time => exact ⟨fun closed => (by cases closed), whole.small⟩
  | spoiled tried failure answered final =>
    rcases decided with small | closed | all
    · exact ⟨fun _ => whole.small small, whole.small⟩
    · exact absurd closed tried
    · have decides := all _ answered
      rw [CircuitBreaker.decides, final] at decides
      cases decides
  | settled closed => exact ⟨fun _ => rfl, fun _ => rfl⟩
  | tripped closed time backoff retried spent counted =>
    refine ⟨fun closed => (by cases closed), fun small => ?_⟩
    have start := whole.closed closed
    dsimp only
    omega

theorem step_whole (a : Action) (whole : Whole policy b) (decided : Decided policy b a)
    (moved : step policy b a = some b') : Whole policy b' := by
  cases a with
  | call op address request heard => exact (step_call moved).whole whole decided
  | isOpen heard =>
    obtain ⟨⟨_, b''⟩, had, rfl⟩ := Option.map_eq_some_iff.mp moved
    obtain ⟨same, closed⟩ := (isOpen_closed policy b).of_replay had
    exact ⟨fun now => same ▸ whole.closed (closed now), fun small => same ▸ whole.small small⟩

end

/-- In a history whose trials decide, a closed breaker opens only after as many calls as
the threshold says, each of which has failed in a way that is worth trying again. -/
theorem closed_call_tolerates (policy : RetryPolicy) (history : List Action)
    (b b' : CircuitBreaker) (op : Operation) (address : String) (request : Command)
    (heard : Heard) (run : exec (step policy) {} history = some b)
    (decided : Along (step policy) (Decided policy) {} history) (closed : b.state = .closed)
    (moved : step policy b (.call op address request heard) = some b')
    (opens : b'.state = .opened) :
    heard.outcomes.length = max 1 policy.failureThreshold ∧
      ∀ status ∈ heard.outcomes, retries op status = true := by
  have whole : Whole policy b :=
    exec_invariant (Whole policy) (fun _ a _ => step_whole a)
      ⟨fun _ => rfl, fun _ => rfl⟩ decided run
  have start := whole.closed closed
  cases step_call moved with
  | refused held => simp [held] at closed
  | recovered tried => exact absurd closed tried
  | reopened tried time => exact absurd closed tried
  | spoiled tried failure answered final => exact absurd closed tried
  | settled _ => simp [closed] at opens
  | tripped _ time backoff retried spent counted =>
    rw [start, Nat.sub_zero] at spent
    exact ⟨spent, retried⟩

section Runs

def threeStrikes : RetryPolicy where
  baseDelay := 1
  maxDelay := 8
  resetTimeout := 10
  failureThreshold := 3
  servicesToTry := 1
  ordered := by decide
  delays := by decide
  threshold := by decide

def request : Command := ⟨Vector.replicate 16 0, .get ⟨[]⟩⟩

def lost : Status := .error ⟨.unavailable, "", none⟩

def refused : Status := .error ⟨.invalidArgument, "", none⟩

def lostOnce : Heard :=
  [⟨.stopped, false⟩, ⟨.rpc "a" request, lost⟩, ⟨.stopped, false⟩, ⟨.stopped, false⟩]

def lostLast (time : ℕ) : Heard :=
  [⟨.stopped, false⟩, ⟨.rpc "a" request, lost⟩, ⟨.stopped, false⟩, ⟨.now, time⟩]

def allLost : Heard := lostOnce ++ lostOnce ++ lostLast 0

def history (status : Status) : List Action :=
  [.call .get "a" request allLost,
    .call .get "a" request [⟨.now, (10 : ℕ)⟩, ⟨.rpc "a" request, status⟩]]

theorem closed_call_tolerates_recovered :
    allLost.outcomes.length = max 1 threeStrikes.failureThreshold ∧
      ∀ status ∈ allLost.outcomes, retries .get status = true :=
  closed_call_tolerates threeStrikes (history (.ok (.value ⟨[], 0⟩))) { state := .closed }
    { state := .opened, backoff := ⟨2⟩ } .get "a" request allLost (by decide +kernel)
    (by decide +kernel) rfl (by decide +kernel) rfl

/-- The trial is refused, the breaker is closed, and a single lost call opens it. -/
theorem refused_trial_opens_early :
    exec (step threeStrikes) {} (history refused) = some { state := .closed, backoff := ⟨2⟩ } ∧
      step threeStrikes { state := .closed, backoff := ⟨2⟩ }
          (.call .get "a" request (lostLast 10)) =
        some { state := .opened, lastFailureTime := 10, backoff := ⟨2⟩ } ∧
      (lostLast 10).outcomes.length = 1 ∧ max 1 threeStrikes.failureThreshold = 3 := by
  decide +kernel

end Runs

end CircuitBreaker

end Zdb.KV
