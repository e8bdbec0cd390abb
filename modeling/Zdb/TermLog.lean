import Mathlib.Data.List.Infix
import Mathlib.Data.Set.Basic

/-! Lists whose members carry a term, and quorum systems. Positions are counted
from one, as in a replicated log; position zero has term zero. -/

namespace Zdb.TermLog

variable {α N : Type*} (term : α → ℕ)

def termAt (log : List α) : ℕ → ℕ
  | 0 => 0
  | i + 1 => (log[i]?.map term).getD 0

def lastTerm (log : List α) : ℕ := termAt term log log.length

/-- The candidate's log is at least as recent as the voter's. -/
def UpToDate (candidate voter : List α) : Prop :=
  (lastTerm term voter = lastTerm term candidate ∧ voter.length ≤ candidate.length) ∨
    lastTerm term voter < lastTerm term candidate

theorem UpToDate.refl (log : List α) : UpToDate term log log := Or.inl ⟨rfl, le_rfl⟩

theorem UpToDate.lastTerm_le {candidate voter : List α} (h : UpToDate term candidate voter) :
    lastTerm term voter ≤ lastTerm term candidate := by
  rcases h with ⟨same, _⟩ | less
  · exact same.le
  · exact less.le

@[simp] theorem termAt_zero (log : List α) : termAt term log 0 = 0 := rfl

theorem termAt_succ {log : List α} {i : ℕ} {e : α} (h : log[i]? = some e) :
    termAt term log (i + 1) = term e := by simp [termAt, h]

@[simp] theorem lastTerm_nil : lastTerm term ([] : List α) = 0 := rfl

@[simp] theorem lastTerm_append_singleton (log : List α) (e : α) :
    lastTerm term (log ++ [e]) = term e := by simp [lastTerm, termAt]

theorem termAt_of_initial {short long : List α} (h : short <+: long) {i : ℕ}
    (hi : i ≤ short.length) : termAt term short i = termAt term long i := by
  obtain ⟨rest, rfl⟩ := h
  cases i with
  | zero => rfl
  | succ i =>
    simp only [termAt]
    rw [List.getElem?_append_left (by omega)]

theorem exists_getElem_of_termAt {log : List α} {i : ℕ} (h : 0 < termAt term log i) :
    ∃ j e, i = j + 1 ∧ log[j]? = some e ∧ term e = termAt term log i := by
  cases i with
  | zero => simp at h
  | succ i =>
    cases found : log[i]? with
    | none => simp [termAt, found] at h
    | some e => exact ⟨i, e, rfl, found, (termAt_succ term found).symm⟩

theorem take_initial (m : ℕ) (log : List α) : log.take m <+: log :=
  ⟨log.drop m, List.take_append_drop m log⟩

theorem take_eq_of_initial {short long : List α} {m : ℕ} (h : short <+: long)
    (hm : m ≤ short.length) : long.take m = short.take m := by
  obtain ⟨rest, rfl⟩ := h
  exact List.take_append_of_le_length hm

theorem getElem?_of_take_initial {led log : List α} {k i : ℕ} (h : led.take k <+: log)
    (hi : i < k) (hk : k ≤ led.length) : log[i]? = led[i]? := by
  obtain ⟨rest, rfl⟩ := h
  have inside : i < (led.take k).length := by
    rw [List.length_take]
    omega
  rw [List.getElem?_append_left inside, List.getElem?_take_of_lt hi]

structure QuorumSystem (N : Type*) where
  IsQuorum : Set N → Prop
  meet : ∀ first second, IsQuorum first → IsQuorum second → (first ∩ second).Nonempty

theorem QuorumSystem.nonempty (Q : QuorumSystem N) {voters : Set N} (h : Q.IsQuorum voters) :
    voters.Nonempty := by
  obtain ⟨v, hv, _⟩ := Q.meet voters voters h h
  exact ⟨v, hv⟩

end Zdb.TermLog
