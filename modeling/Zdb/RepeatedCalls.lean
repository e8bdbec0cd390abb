import Zdb.Backoff

/-! What `Repeater::attempt` reports. While it goes on, its list is the outcomes so far
and its counter has moved by their number; it ends because it is stopped, because an
outcome settles the call, or because the backoff has no further delay. -/

namespace Zdb.KV
open Resumption

abbrev Heard := List (Exchange Ask Ask.Answer)

def Heard.outcomes (heard : Heard) : List Status :=
  heard.filterMap fun
    | ⟨.rpc _ _, status⟩ => some status
    | _ => none

def retries (op : Operation) : Status → Bool
  | .ok _ => false
  | .error failure => isRetriable op (toError failure).code

namespace Heard

@[simp] theorem outcomes_nil : outcomes [] = [] := rfl

@[simp] theorem outcomes_append (heard more : Heard) :
    outcomes (heard ++ more) = heard.outcomes ++ more.outcomes := List.filterMap_append

@[simp] theorem outcomes_cons (first : Exchange Ask Ask.Answer) (more : Heard) :
    outcomes (first :: more) = match first with
      | ⟨.rpc _ _, status⟩ => status :: more.outcomes
      | _ => more.outcomes := by
  obtain ⟨e, r⟩ := first
  cases e <;> rfl

end Heard

namespace Repeater

/-- How a repeated call that was entered with the counter at `a` ends. -/
inductive Reported (policy : RetryPolicy) (op : Operation) (a : ℕ) (heard : Heard) :
    List Status × ExponentialBackoff → Prop
  | stopped (front : List Status) (backoff : ExponentialBackoff)
      (listed : front <+: heard.outcomes) (retried : ∀ status ∈ front, retries op status = true)
      (bounded : heard.outcomes.length ≤ max 1 (policy.failureThreshold - a))
      (flag : heard.getLast? = some ⟨.stopped, true⟩) :
      Reported policy op a heard (front ++ [stoppedStatus], backoff)
  | settled (front : List Status) (last : Status) (listed : heard.outcomes = front ++ [last])
      (retried : ∀ status ∈ front, retries op status = true)
      (bounded : heard.outcomes.length ≤ max 1 (policy.failureThreshold - a))
      (settles : retries op last = false) :
      Reported policy op a heard (front ++ [last], {})
  | exhausted (front : List Status) (last : Status) (backoff : ExponentialBackoff)
      (listed : heard.outcomes = front ++ [last])
      (retried : ∀ status ∈ front ++ [last], retries op status = true)
      (spent : heard.outcomes.length = max 1 (policy.failureThreshold - a))
      (counted : backoff.attempt + 1 = a + heard.outcomes.length)
      (noDelay : backoff.nextDelay policy = none) :
      Reported policy op a heard (front ++ [last], backoff)

structure Retrying (policy : RetryPolicy) (op : Operation) (a : ℕ) (heard : Heard)
    (backoff : ExponentialBackoff) (statuses : List Status) : Prop where
  listed : heard.outcomes = statuses
  retried : ∀ status ∈ statuses, retries op status = true
  counted : backoff.attempt = a + statuses.length
  left : statuses ≠ [] → a + statuses.length < policy.failureThreshold

section
variable {policy : RetryPolicy} {op : Operation} {a : ℕ} {heard : Heard}
  {backoff backoff' : ExponentialBackoff} {statuses : List Status} {status : Status} {delay : ℕ}

theorem nextDelay_eq_none :
    backoff.nextDelay policy = none ↔ policy.failureThreshold ≤ backoff.attempt + 1 := by
  rw [ExponentialBackoff.nextDelay]
  split_ifs with noDelay
  · simp [noDelay]
  · simp [noDelay]

theorem nextDelay_eq_some (next : backoff.nextDelay policy = some (delay, backoff')) :
    backoff.attempt + 1 < policy.failureThreshold ∧ backoff'.attempt = backoff.attempt + 1 := by
  rw [ExponentialBackoff.nextDelay] at next
  split_ifs at next with noDelay
  cases next
  exact ⟨by omega, rfl⟩

theorem retried_concat (retried : ∀ status ∈ statuses, retries op status = true)
    (again : retries op status = true) :
    ∀ status' ∈ statuses ++ [status], retries op status' = true := by
  intro status' mem
  rcases List.mem_append.mp mem with old | new
  · exact retried status' old
  · rw [List.mem_singleton.mp new]
    exact again

namespace Retrying
variable (loop : Retrying policy op a heard backoff statuses)
include loop

theorem length_lt : statuses.length < max 1 (policy.failureThreshold - a) := by
  by_cases none : statuses = []
  · subst none
    rw [List.length_nil]
    omega
  · have left := loop.left none
    omega

theorem bounded {heard' : Heard} (called : heard'.outcomes.length ≤ statuses.length + 1) :
    heard'.outcomes.length ≤ max 1 (policy.failureThreshold - a) := by
  have := loop.length_lt
  omega

theorem again {heard' : Heard} (called : heard'.outcomes = statuses ++ [status])
    (failed : retries op status = true)
    (next : backoff.nextDelay policy = some (delay, backoff')) :
    Retrying policy op a heard' backoff' (statuses ++ [status]) := by
  obtain ⟨under, moved⟩ := nextDelay_eq_some next
  have counted := loop.counted
  refine ⟨called, retried_concat loop.retried failed, ?_, fun _ => ?_⟩
  · rw [List.length_append, List.length_singleton]
    omega
  · rw [List.length_append, List.length_singleton]
    omega

theorem spent {heard' : Heard} (called : heard'.outcomes = statuses ++ [status])
    (noDelay : backoff.nextDelay policy = none) :
    heard'.outcomes.length = max 1 (policy.failureThreshold - a) ∧
      backoff.attempt + 1 = a + heard'.outcomes.length := by
  have last := nextDelay_eq_none.mp noDelay
  have counted := loop.counted
  have room := loop.length_lt
  rw [called, List.length_append, List.length_singleton]
  omega

end Retrying

theorem retrying_start : Retrying policy op backoff.attempt [] backoff [] :=
  ⟨rfl, by simp, by simp, by simp⟩

def Asks (address : String) (request : Command) (e : Ask) : Prop :=
  e = .stopped ∨ e = .rpc address request

theorem Retrying.attempt_reported (address : String) (request : Command)
    (loop : Retrying policy op a heard backoff statuses) :
    Ensures (Asks address request) (Reported policy op a) heard
      (attempt policy op (Ask.call address request) backoff statuses) := by
  -- a call is repeated only if there was a delay left, which takes one from the budget
  induction left : policy.failureThreshold - backoff.attempt using Nat.strong_induction_on
    generalizing heard backoff statuses with
  | _ n ih =>
    have listed := loop.listed
    rw [attempt]
    refine Ensures.bind_ask (Or.inl rfl) fun flag => ?_
    split
    · rename_i up
      subst up
      exact .pure (.stopped statuses backoff (by simp [listed]) loop.retried
        (loop.bounded (by simp [listed])) (by simp))
    refine Ensures.bind_ask (Or.inr rfl) fun (status : Status) =>
      Ensures.bind_ask (Or.inl rfl) fun flag => ?_
    split
    · rename_i up
      subst up
      exact .pure (.stopped statuses backoff (by simp [listed]) loop.retried
        (loop.bounded (by simp [listed])) (by simp))
    generalize now : heard ++ _ ++ _ ++ _ = heard'
    have called : heard'.outcomes = statuses ++ [status] := by simp [← now, listed]
    have bounded : heard'.outcomes.length ≤ _ := loop.bounded (by simp [called])
    cases status with
    | ok reply => exact .pure (.settled statuses _ called loop.retried bounded rfl)
    | error failure =>
      dsimp only
      split
      · rename_i failed
        have again : retries op (.error failure) = true := failed
        have retried := retried_concat loop.retried again
        split
        · rename_i delay backoff' next
          refine Ensures.bind_ask (Or.inl rfl) fun flag => ?_
          have called' : Heard.outcomes (heard' ++ [⟨.stopped, flag⟩]) =
              statuses ++ [.error failure] := by simp [called]
          split
          · rename_i up
            subst up
            exact .pure (.stopped _ backoff' (by simp [called]) retried (by simpa using bounded)
              (by simp))
          · refine ih _ ?_ (loop.again called' again next) rfl
            rw [← left]
            exact ExponentialBackoff.nextDelay_lt next
        · rename_i noDelay
          obtain ⟨spent, counted⟩ := loop.spent called noDelay
          exact .pure (.exhausted statuses _ backoff called retried spent counted noDelay)
      · rename_i final
        exact .pure (.settled statuses _ called loop.retried bounded
          (by simpa [retries] using final))

end

theorem Reported.mem {policy : RetryPolicy} {op : Operation} {a : ℕ} {heard : Heard}
    {r : List Status × ExponentialBackoff} (reported : Reported policy op a heard r)
    {status : Status} (mem : status ∈ r.1) :
    status ∈ heard.outcomes ∨ status = stoppedStatus := by
  cases reported with
  | stopped front backoff listed _ _ _ =>
    rcases List.mem_append.mp mem with old | new
    · exact Or.inl (listed.subset old)
    · exact Or.inr (List.mem_singleton.mp new)
  | settled front last listed _ _ _ => exact Or.inl (listed ▸ mem)
  | exhausted front last backoff listed _ _ _ _ => exact Or.inl (listed ▸ mem)

theorem attempt_framed (policy : RetryPolicy) (op : Operation) (address : String)
    (request : Command) (backoff : ExponentialBackoff) (heard : Heard) :
    Ensures (Asks address request) (fun heard' r => ∃ more, heard' = heard ++ more ∧
        (∀ x ∈ more, Asks address request x.1) ∧ Reported policy op backoff.attempt more r)
      heard (attempt policy op (Ask.call address request) backoff []) :=
  (retrying_start.attempt_reported address request).frame heard

/-- How the last status ends the loop. A failure that is worth trying again does so only
when the budget the call was entered with is spent. -/
def Final (policy : RetryPolicy) (op : Operation) (a : ℕ) (heard : Heard)
    (backoff : ExponentialBackoff) : Status → Prop
  | .ok _ => True
  | .error failure => isRetriable op (toError failure).code = false ∨
      heard.outcomes.length = max 1 (policy.failureThreshold - a) ∧ backoff.nextDelay policy = none

section
variable {policy : RetryPolicy} {op : Operation} {a : ℕ} {heard : Heard}
  {backoff : ExponentialBackoff}

theorem final_of_settles {status : Status} (settles : retries op status = false) :
    Final policy op a heard backoff status := by
  cases status with
  | ok reply => trivial
  | error failure => exact Or.inl settles

theorem final_of_spent (spent : heard.outcomes.length = max 1 (policy.failureThreshold - a))
    (noDelay : backoff.nextDelay policy = none) (status : Status) :
    Final policy op a heard backoff status := by
  cases status with
  | ok reply => trivial
  | error failure => exact Or.inr ⟨spent, noDelay⟩

end

/-- The calls stay within the budget, and the list is the outcomes, in order, but for a
last status that the repeater adds when it finds the stop flag set. -/
theorem attempt_faithful (policy : RetryPolicy) (op : Operation) (address : String)
    (request : Command) (backoff : ExponentialBackoff) :
    Ensures (Asks address request)
      (fun (heard : Heard) (statuses, backoff') =>
        heard.outcomes.length ≤ max 1 (policy.failureThreshold - backoff.attempt) ∧
        ∃ front last, statuses = front ++ [last] ∧
          (∀ status ∈ front, retries op status = true) ∧ front <+: heard.outcomes ∧
          (last = stoppedStatus ∧ heard.getLast? = some ⟨.stopped, true⟩ ∨
            statuses = heard.outcomes ∧
              Final policy op backoff.attempt heard backoff' last))
      [] (attempt policy op (Ask.call address request) backoff []) := by
  refine (retrying_start.attempt_reported address request).mono ?_
  rintro heard _ (⟨front, _, listed, retried, bounded, flag⟩ |
    ⟨front, last, listed, retried, bounded, settles⟩ |
    ⟨front, last, _, listed, retried, spent, _, noDelay⟩)
  · exact ⟨bounded, front, _, rfl, retried, listed, Or.inl ⟨rfl, flag⟩⟩
  · exact ⟨bounded, front, last, rfl, retried, by simp [listed],
      Or.inr ⟨listed.symm, final_of_settles settles⟩⟩
  · exact ⟨spent.le, front, last, rfl, fun status mem => retried status (by simp [mem]),
      by simp [listed], Or.inr ⟨listed.symm, final_of_spent spent noDelay last⟩⟩

end Repeater

end Zdb.KV
