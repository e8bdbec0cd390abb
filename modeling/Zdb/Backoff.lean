import Zdb.Retry

/-! The delays of an `ExponentialBackoff` against the exact ones. The word holds the
product of the base and a power of two as long as the base fits into what the shift
leaves of it. -/

namespace Zdb.KV.ExponentialBackoff

def after (policy : RetryPolicy) : ℕ → ExponentialBackoff
  | 0 => {}
  | k + 1 => match (after policy k).nextDelay policy with
      | some (_, b) => b
      | none => after policy k

/-- What call number `k` returns. -/
def delayAt (policy : RetryPolicy) (k : ℕ) : Option ℕ :=
  ((after policy k).nextDelay policy).map Prod.fst

def DefinedAt (policy : RetryPolicy) (k : ℕ) : Prop :=
  policy.failureThreshold ≤ (after policy k).attempt + 1 ∨ (after policy k).attempt < 64

def exactDelay (policy : RetryPolicy) (k : ℕ) : Option ℕ :=
  if policy.failureThreshold ≤ k + 1 then none
  else some (min (policy.baseDelay * 2 ^ k) policy.maxDelay)

/-- The shifted base fits into the word, or what the word keeps of it is still as large
as the largest delay. -/
def Fits (policy : RetryPolicy) (k : ℕ) : Prop :=
  policy.failureThreshold ≤ k + 1 ∨
    k < 64 ∧ (policy.baseDelay < 2 ^ (64 - k) ∨
      policy.maxDelay ≤ policy.baseDelay % 2 ^ (64 - k) * 2 ^ k)

section
variable {policy : RetryPolicy} {k : ℕ}

theorem nextDelay_of_le {b : ExponentialBackoff}
    (exhausted : policy.failureThreshold ≤ b.attempt + 1) : b.nextDelay policy = none :=
  if_pos exhausted

theorem nextDelay_of_lt {b : ExponentialBackoff}
    (left : b.attempt + 1 < policy.failureThreshold) :
    b.nextDelay policy =
      some (min (policy.baseDelay * 2 ^ (b.attempt % 64) % 2 ^ 64) policy.maxDelay,
        ⟨b.attempt + 1⟩) :=
  if_neg (by omega)

theorem after_attempt (policy : RetryPolicy) (k : ℕ) :
    (after policy k).attempt = min k (policy.failureThreshold - 1) := by
  induction k with
  | zero => simp [after]
  | succ k ih =>
    rw [after]
    by_cases left : (after policy k).attempt + 1 < policy.failureThreshold
    · rw [nextDelay_of_lt left]
      dsimp only
      omega
    · rw [nextDelay_of_le (by omega)]
      dsimp only
      omega

theorem delayAt_of_le (exhausted : policy.failureThreshold ≤ k + 1) : delayAt policy k = none := by
  have counted := after_attempt policy k
  rw [delayAt, nextDelay_of_le (by omega), Option.map_none]

theorem delayAt_of_lt (left : k + 1 < policy.failureThreshold) :
    delayAt policy k =
      some (min (policy.baseDelay * 2 ^ (k % 64) % 2 ^ 64) policy.maxDelay) := by
  have counted : (after policy k).attempt = k := by
    rw [after_attempt]
    omega
  rw [delayAt, nextDelay_of_lt (by omega), counted, Option.map_some]

theorem definedAt_iff : DefinedAt policy k ↔ policy.failureThreshold ≤ k + 1 ∨ k < 64 := by
  rw [DefinedAt, after_attempt]
  omega

theorem delayAt_le_maxDelay {delay : ℕ} (returned : delayAt policy k = some delay) :
    delay ≤ policy.maxDelay := by
  by_cases left : k + 1 < policy.failureThreshold
  · rw [delayAt_of_lt left] at returned
    cases returned
    exact min_le_right _ _
  · rw [delayAt_of_le (by omega)] at returned
    cases returned

theorem shifted_mod (base : ℕ) (small : k < 64) :
    base * 2 ^ k % 2 ^ 64 = base % 2 ^ (64 - k) * 2 ^ k := by
  have split : 2 ^ 64 = 2 ^ (64 - k) * 2 ^ k := by rw [← pow_add]; congr 1; omega
  rw [split, Nat.mul_mod_mul_right]

theorem min_shifted_iff (small : k < 64) :
    min (policy.baseDelay * 2 ^ k % 2 ^ 64) policy.maxDelay =
        min (policy.baseDelay * 2 ^ k) policy.maxDelay ↔
      policy.baseDelay < 2 ^ (64 - k) ∨
        policy.maxDelay ≤ policy.baseDelay % 2 ^ (64 - k) * 2 ^ k := by
  have split : 2 ^ (64 - k) * 2 ^ k = 2 ^ 64 := by rw [← pow_add]; congr 1; omega
  have bound := policy.delays
  rw [shifted_mod _ small]
  by_cases fits : policy.baseDelay < 2 ^ (64 - k)
  · simp [Nat.mod_eq_of_lt fits, fits]
  · have large : 2 ^ (64 - k) * 2 ^ k ≤ policy.baseDelay * 2 ^ k :=
      Nat.mul_le_mul_right _ (by omega)
    simp only [fits, false_or]
    omega

theorem exactDelay_mono {d e : ℕ} (first : exactDelay policy k = some d)
    (second : exactDelay policy (k + 1) = some e) : d ≤ e := by
  rw [exactDelay] at first second
  split_ifs at first second
  cases first
  cases second
  have doubled : policy.baseDelay * 2 ^ k ≤ policy.baseDelay * 2 ^ (k + 1) :=
    Nat.mul_le_mul_left _ (Nat.pow_le_pow_right (by omega) (by omega))
  omega

theorem delayAt_eq_exactDelay_iff :
    DefinedAt policy k ∧ delayAt policy k = exactDelay policy k ↔ Fits policy k := by
  rw [definedAt_iff, exactDelay, Fits]
  by_cases left : k + 1 < policy.failureThreshold
  · rw [delayAt_of_lt left, if_neg (by omega), Option.some.injEq]
    refine ⟨fun ⟨defined, same⟩ => ?_, fun fits => ?_⟩
    · have small : k < 64 := by omega
      rw [Nat.mod_eq_of_lt small] at same
      exact Or.inr ⟨small, (min_shifted_iff small).mp same⟩
    · obtain ⟨small, fits⟩ := fits.resolve_left (by omega)
      rw [Nat.mod_eq_of_lt small]
      exact ⟨Or.inr small, (min_shifted_iff small).mpr fits⟩
  · rw [delayAt_of_le (by omega), if_pos (by omega)]
    simp [show policy.failureThreshold ≤ k + 1 by omega]

end

/-- Call number `k` is exact just when the shifted base fits. No delay is above the
largest, and of two exact ones the second is not below the first. -/
theorem nextDelay_exact_iff (policy : RetryPolicy) (k : ℕ) :
    (DefinedAt policy k ∧ delayAt policy k = exactDelay policy k ↔ Fits policy k) ∧
      (∀ delay, delayAt policy k = some delay → delay ≤ policy.maxDelay) ∧
      (Fits policy k → Fits policy (k + 1) → ∀ d e, delayAt policy k = some d →
        delayAt policy (k + 1) = some e → d ≤ e) := by
  refine ⟨delayAt_eq_exactDelay_iff, fun _ => delayAt_le_maxDelay, ?_⟩
  intro fits fits' d e first second
  rw [(delayAt_eq_exactDelay_iff.mpr fits).2] at first
  rw [(delayAt_eq_exactDelay_iff.mpr fits').2] at second
  exact exactDelay_mono first second

def patientPolicy : RetryPolicy where
  baseDelay := 100000
  maxDelay := 5000000
  resetTimeout := 0
  failureThreshold := 10000
  servicesToTry := 1
  ordered := by decide
  delays := by decide
  threshold := by decide

/-- The sixtieth delay is none at all: the word has lost the product. -/
theorem patientPolicy_delayAt :
    DefinedAt patientPolicy 59 ∧ delayAt patientPolicy 59 = some 0 ∧
      exactDelay patientPolicy 59 = some 5000000 := by
  refine ⟨definedAt_iff.mpr (by decide), ?_, by decide⟩
  rw [delayAt_of_lt (by decide)]
  decide

end Zdb.KV.ExponentialBackoff
