import Mathlib.Data.Nat.Notation

/-! Commands of the replicated store. A command is compared by its kind and
payload; the UUID takes no part in `operator==`. The copies of index and term
that `RaftImpl::start` writes into the command object repeat those of the log
entry and are not modelled. -/

namespace Zdb

/-- The bytes of a `std::string`. -/
abbrev Bytes := List UInt8

abbrev UUIDV7 := Vector UInt8 16

structure Key where
  data : Bytes
  deriving DecidableEq, Repr

structure Value where
  data : Bytes
  version : ℕ
  deriving DecidableEq, Repr

inductive Payload where
  | get (key : Key)
  | set (key : Key) (value : Value)
  | erase (key : Key)
  | size
  | testCommand (data : Bytes)
  | rmsCommand (data : Bytes)
  | noOp
  | installSnapshotCommand (lastIncludedIndex lastIncludedTerm : ℕ) (data : Bytes)
  deriving DecidableEq, Repr

structure Command where
  uuid : UUIDV7
  payload : Payload
  deriving DecidableEq, Repr

def Command.equal (a b : Command) : Bool :=
  match a.payload, b.payload with
  | .get k, .get l => k == l
  | .set k v, .set l w => k == l && v == w
  | .erase k, .erase l => k == l
  | .size, .size => true
  | .testCommand d, .testCommand e => d == e
  | .rmsCommand d, .rmsCommand e => d == e
  | .noOp, .noOp => true
  | .installSnapshotCommand i t d, .installSnapshotCommand j u e => i == j && t == u && d == e
  | _, _ => false

theorem Command.equal_iff (a b : Command) : a.equal b = true ↔ a.payload = b.payload := by
  obtain ⟨_, p⟩ := a
  obtain ⟨_, q⟩ := b
  cases p <;> cases q <;> simp [Command.equal, and_assoc]

@[simp] theorem Command.equal_self (a : Command) : a.equal a = true :=
  (Command.equal_iff a a).mpr rfl

end Zdb
