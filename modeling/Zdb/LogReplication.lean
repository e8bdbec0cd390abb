import Zdb.TermLog

/-! Leader-based log replication, seen as a protocol over whole logs. A state
keeps, besides terms and logs, what the argument needs about the past: every
ballot with the log it was cast with, every election with the log it was won
with, the log each leader has led with, and how far each replica has confirmed
each leader. Messages do not occur; a replica may install any prefix of a
leader's log at any time. -/

namespace Zdb.LogReplication
open TermLog

structure State (N α : Type*) where
  term : N → ℕ
  log : N → List α
  ballot : N → ℕ → Option N
  ballotLog : N → ℕ → List α
  leader : ℕ → Option N
  electLog : ℕ → List α
  leaderLog : ℕ → List α
  acked : N → ℕ → ℕ → Prop

variable {N α : Type*}

def State.initial : State N α where
  term _ := 0
  log _ := []
  ballot _ _ := none
  ballotLog _ _ := []
  leader _ := none
  electLog _ := []
  leaderLog _ := []
  acked _ _ _ := False

section Operations
variable [DecidableEq N] (s : State N α)

def State.adopt (v : N) (T : ℕ) : State N α :=
  { s with term := Function.update s.term v T }

def State.cast (v c : N) (T : ℕ) : State N α :=
  { s with
    term := Function.update s.term v T
    ballot := Function.update s.ballot v (Function.update (s.ballot v) T (some c))
    ballotLog := Function.update s.ballotLog v (Function.update (s.ballotLog v) T (s.log v)) }

def State.confirm (v : N) (T m : ℕ) : N → ℕ → ℕ → Prop :=
  fun u U k => s.acked u U k ∨ (u = v ∧ U = T ∧ k ≤ m)

def State.elect (c : N) : State N α :=
  { s with
    leader := Function.update s.leader (s.term c) (some c)
    electLog := Function.update s.electLog (s.term c) (s.log c)
    leaderLog := Function.update s.leaderLog (s.term c) (s.log c)
    acked := s.confirm c (s.term c) (s.log c).length }

def State.append (c : N) (e : α) : State N α :=
  { s with
    log := Function.update s.log c (s.log c ++ [e])
    leaderLog := Function.update s.leaderLog (s.term c) (s.log c ++ [e])
    acked := s.confirm c (s.term c) (s.log c ++ [e]).length }

def State.install (v : N) (T m : ℕ) (result : List α) : State N α :=
  { s with
    term := Function.update s.term v T
    log := Function.update s.log v result
    acked := s.confirm v T m }

end Operations

/-- What a replica holds after being sent a prefix of the leader's log: its own
log when that already extends the prefix, and the prefix otherwise. -/
def Merged (own sent result : List α) : Prop :=
  (sent <+: own ∧ result = own) ∨ (¬ sent <+: own ∧ result = sent)

inductive Step [DecidableEq N] (term : α → ℕ) (Q : QuorumSystem N) :
    State N α → State N α → Prop
  | stay (s) : Step term Q s s
  | adopt (s v T) (later : s.term v < T) : Step term Q s (s.adopt v T)
  | timeout (s v) : Step term Q s (s.cast v v (s.term v + 1))
  | grant (s v c T) (current : s.term v ≤ T) (free : s.ballot v T = none)
      (stands : s.ballot c T = some c) (recent : UpToDate term (s.ballotLog c T) (s.log v)) :
      Step term Q s (s.cast v c T)
  | elect (s c) (vacant : s.leader (s.term c) = none)
      (same : s.log c = s.ballotLog c (s.term c))
      (won : Q.IsQuorum {v | s.ballot v (s.term c) = some c}) : Step term Q s (s.elect c)
  | append (s c e) (leads : s.leader (s.term c) = some c) (own : term e = s.term c) :
      Step term Q s (s.append c e)
  | install (s v c T m result) (current : s.term v ≤ T) (leads : s.leader T = some c)
      (other : v ≠ c) (within : m ≤ (s.leaderLog T).length)
      (merged : Merged (s.log v) ((s.leaderLog T).take m) result) :
      Step term Q s (s.install v T m result)

section Facts
variable (term : α → ℕ)

def Chain (s : State N α) (log : List α) : Prop :=
  ∀ i e, log[i]? = some e →
    s.leader (term e) ≠ none ∧ log.take (i + 1) <+: s.leaderLog (term e)

/-- The first `m` entries of leader `T` are in `log`, unless a leader strictly
between `T` and `U` was elected without them. -/
def Retains (s : State N α) (T m : ℕ) (log : List α) (U : ℕ) : Prop :=
  (s.leaderLog T).take m <+: log ∨
    ∃ V, T < V ∧ V < U ∧ s.leader V ≠ none ∧ ¬ (s.leaderLog T).take m <+: s.electLog V

/-- The ballot of `v` in term `T` was cast with everything `v` had confirmed. -/
def Pledged (s : State N α) (v : N) (T : ℕ) : Prop :=
  ∀ U m, s.acked v U m → U < T → Retains s U m (s.ballotLog v T) T

end Facts

structure Inv (term : α → ℕ) (Q : QuorumSystem N) (s : State N α) : Prop where
  ballot_pos : ∀ v T c, s.ballot v T = some c → 0 < T
  ballot_le : ∀ v T c, s.ballot v T = some c → T ≤ s.term v
  ballot_self : ∀ v T c, s.ballot v T = some c → s.ballot c T = some c
  ballot_recent : ∀ v T c, s.ballot v T = some c →
    UpToDate term (s.ballotLog c T) (s.ballotLog v T)
  ballot_chain : ∀ v T c, s.ballot v T = some c → Chain term s (s.ballotLog v T)
  ballot_earlier : ∀ v T c, s.ballot v T = some c → ∀ e ∈ s.ballotLog v T, term e < T
  ballot_pledged : ∀ v T c, s.ballot v T = some c → s.leader T = none → Pledged s v T
  leader_quorum : ∀ T c, s.leader T = some c →
    ∃ voters, Q.IsQuorum voters ∧ ∀ v ∈ voters, s.ballot v T = some c ∧ Pledged s v T
  leader_elected : ∀ T c, s.leader T = some c → s.electLog T = s.ballotLog c T
  leader_extends : ∀ T c, s.leader T = some c →
    ∃ own, s.leaderLog T = s.electLog T ++ own ∧ ∀ e ∈ own, term e = T
  leader_chain : ∀ T c, s.leader T = some c → Chain term s (s.leaderLog T)
  leader_holds : ∀ v, s.leader (s.term v) = some v → s.log v = s.leaderLog (s.term v)
  log_chain : ∀ v, Chain term s (s.log v)
  log_term : ∀ v, ∀ e ∈ s.log v, term e ≤ s.term v
  acked_leader : ∀ v T m, s.acked v T m → s.leader T ≠ none
  acked_length : ∀ v T m, s.acked v T m → m ≤ (s.leaderLog T).length
  acked_le : ∀ v T m, s.acked v T m → T ≤ s.term v
  acked_retained : ∀ v T m, s.acked v T m → Retains s T m (s.log v) (s.term v + 1)

theorem inv_initial (term : α → ℕ) (Q : QuorumSystem N) :
    Inv term Q (State.initial : State N α) := by
  constructor <;> simp [State.initial, Chain]

end Zdb.LogReplication
