import Zdb.ErrorConverter
import Zdb.Resumption

/-! `ExponentialBackoff`, `Repeater` and `CircuitBreaker`, as programs that ask for
the clock, the stop flag and the outcome of each call. -/

namespace Zdb.KV
open Resumption

inductive Ask where
  | rpc (address : String) (request : Command)
  | now
  | stopped
  | connected (address : String)
  | connect (address : String)
  | draw (bound : ℕ)
  | uuid
  | undefined
  deriving DecidableEq, Repr

/-- Undefined behaviour has no continuation. -/
def Ask.Answer : Ask → Type
  | .rpc _ _ => Status
  | .now => ℕ
  | .stopped => Bool
  | .connected _ => Bool
  | .connect _ => Bool
  | .draw bound => Fin bound
  | .uuid => UUIDV7
  | .undefined => Empty

abbrev Task := Program Ask Ask.Answer

namespace Ask

abbrev call (address : String) (request : Command) : Task Status :=
  .ask (.rpc address request) .done

abbrev clock : Task ℕ := .ask .now .done

abbrev isStopped : Task Bool := .ask .stopped .done

abbrev isConnected (address : String) : Task Bool := .ask (.connected address) .done

abbrev connects (address : String) : Task Bool := .ask (.connect address) .done

abbrev drawBelow (bound : ℕ) : Task (Fin bound) := .ask (.draw bound) .done

abbrev newUuid : Task UUIDV7 := .ask .uuid .done

abbrev fail {α : Type} : Task α := .ask .undefined Empty.elim

end Ask

/-- A policy the constructor has accepted; times are in microseconds. -/
structure RetryPolicy where
  baseDelay : ℕ
  maxDelay : ℕ
  resetTimeout : ℕ
  failureThreshold : ℕ
  servicesToTry : ℕ
  ordered : baseDelay ≤ maxDelay
  delays : maxDelay < 2 ^ 63
  threshold : failureThreshold < 2 ^ 31

structure ExponentialBackoff where
  attempt : ℕ := 0
  deriving DecidableEq, Repr

/-- The shift is undefined from 64 on and is modelled as the processor does it. -/
def ExponentialBackoff.nextDelay (policy : RetryPolicy) (b : ExponentialBackoff) :
    Option (ℕ × ExponentialBackoff) :=
  if policy.failureThreshold ≤ b.attempt + 1 then none
  else
    let delay := policy.baseDelay * 2 ^ (b.attempt % 64) % 2 ^ 64
    some (min delay policy.maxDelay, ⟨b.attempt + 1⟩)

theorem ExponentialBackoff.nextDelay_lt {policy : RetryPolicy} {b b' : ExponentialBackoff}
    {delay : ℕ} (next : b.nextDelay policy = some (delay, b')) :
    policy.failureThreshold - b'.attempt < policy.failureThreshold - b.attempt := by
  rw [nextDelay] at next
  split_ifs at next
  cases next
  dsimp
  omega

namespace Repeater

def stoppedStatus : Status := .error ⟨.cancelled, "Repeater stopped", none⟩

/-- `attempt`, after `statuses`. Sleeping ends early only for a stop flag that is
looked at right after it. -/
def attempt (policy : RetryPolicy) (op : Operation) (rpc : Task Status)
    (backoff : ExponentialBackoff) (statuses : List Status) :
    Task (List Status × ExponentialBackoff) := do
  if ← Ask.isStopped then return (statuses ++ [stoppedStatus], backoff)
  let status ← rpc
  if ← Ask.isStopped then return (statuses ++ [stoppedStatus], backoff)
  let statuses := statuses ++ [status]
  match status with
  | .ok _ => return (statuses, {})
  | .error failure =>
      if isRetriable op (toError failure).code then
        match _next : backoff.nextDelay policy with
        | some (_, backoff) =>
            if ← Ask.isStopped then return (statuses ++ [stoppedStatus], backoff)
            attempt policy op rpc backoff statuses
        | none => return (statuses, backoff)
      else return (statuses, {})
termination_by policy.failureThreshold - backoff.attempt
decreasing_by exact ExponentialBackoff.nextDelay_lt (by assumption)

end Repeater

inductive BreakerState where
  | opened
  | closed
  | halfOpen
  deriving DecidableEq, Repr

structure CircuitBreaker where
  state : BreakerState := .closed
  lastFailureTime : ℕ := 0
  backoff : ExponentialBackoff := {}
  deriving DecidableEq, Repr

namespace CircuitBreaker

def openStatus : Status := .error ⟨.unavailable, "Circuit breaker is open", none⟩

def trip (b : CircuitBreaker) : Task CircuitBreaker := do
  let now ← Ask.clock
  return { b with state := .opened, lastFailureTime := now }

/-- One trial call. `repeater.reset()` also clears the stop flag. -/
def probe (op : Operation) (rpc : Task Status) (b : CircuitBreaker) :
    Task (List Status × CircuitBreaker) := do
  let status ← rpc
  match status with
  | .ok _ => return ([status], { b with state := .closed, backoff := {} })
  | .error failure =>
      if isRetriable op (toError failure).code then return ([status], ← b.trip)
      else return ([status], { b with state := .closed })

def call (policy : RetryPolicy) (op : Operation) (rpc : Task Status) (b : CircuitBreaker) :
    Task (List Status × CircuitBreaker) := do
  match b.state with
  | .opened =>
      let now ← Ask.clock
      if now - b.lastFailureTime < policy.resetTimeout then return ([openStatus], b)
      probe op rpc { b with state := .halfOpen }
  | .halfOpen => probe op rpc b
  | .closed =>
      let (statuses, backoff) ← Repeater.attempt policy op rpc b.backoff []
      let b := { b with backoff }
      match statuses.getLast? with
      | some (.error failure) =>
          if isRetriable op (toError failure).code then return (statuses, ← b.trip)
          else return (statuses, b)
      | _ => return (statuses, b)

def isOpen (policy : RetryPolicy) (b : CircuitBreaker) : Task (Bool × CircuitBreaker) := do
  match b.state with
  | .opened =>
      let now ← Ask.clock
      if policy.resetTimeout ≤ now - b.lastFailureTime then
        return (false, { b with state := .halfOpen })
      return (true, b)
  | _ => return (false, b)

end CircuitBreaker

end Zdb.KV
