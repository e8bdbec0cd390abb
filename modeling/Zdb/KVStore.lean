import Mathlib.Algebra.Group.Nat.Defs
import Mathlib.Data.List.AList
import Zdb.Command

/-! `InMemoryKVStore` and the `KVStateMachine` over it. Versions are 64-bit
counters. A store is only ever touched by the one thread that applies commands,
so that each operation is a function from the store before to the store after. -/

namespace Zdb.KV

inductive ErrorCode where
  | ok
  | invalidArg
  | serviceTemporarilyUnavailable
  | allServicesUnavailable
  | versionMismatch
  | maybe
  | keyNotFound
  | timeout
  | notLeader
  | internal
  | cancelled
  | unknown
  deriving DecidableEq, Repr

structure Error where
  code : ErrorCode
  what : String
  key : Bytes := []
  value : Bytes := []
  version : ℕ := 0
  deriving DecidableEq, Repr

inductive Variant where
  | error (e : Error)
  | value (v : Option Value)
  | monostate
  | size (n : ℕ)
  deriving DecidableEq, Repr

structure State where
  key : Option Key
  u : Variant
  deriving DecidableEq, Repr

def State.isNotLeader (s : State) : Bool :=
  match s.u with
  | .error e => e.code == .notLeader
  | _ => false

structure InMemoryKVStore where
  store : AList fun _ : Key => Value := ∅

namespace InMemoryKVStore

def get (s : InMemoryKVStore) (key : Key) : Option Value := s.store.lookup key

def set (s : InMemoryKVStore) (key : Key) (value : Value) : Except Error InMemoryKVStore :=
  match s.store.lookup key with
  | some stored =>
      if value.version ≠ stored.version then
        .error ⟨.versionMismatch, "Version mismatch: expected " ++ toString stored.version ++
          " but got " ++ toString value.version, key.data, stored.data, stored.version⟩
      else .ok ⟨s.store.insert key ⟨value.data, (stored.version + 1) % 2 ^ 64⟩⟩
  | none =>
      if value.version ≠ 0 then
        .error ⟨.keyNotFound, "Key does not exist, must use version 0 for new keys", key.data,
          value.data, 0⟩
      else .ok ⟨s.store.insert key ⟨value.data, 1⟩⟩

def erase (s : InMemoryKVStore) (key : Key) : InMemoryKVStore × Option Value :=
  (⟨s.store.erase key⟩, s.store.lookup key)

def size (s : InMemoryKVStore) : ℕ := s.store.entries.length

end InMemoryKVStore

namespace KVStateMachine

def get (s : InMemoryKVStore) (key : Key) : InMemoryKVStore × State :=
  (s, ⟨some key, .value (s.get key)⟩)

def set (s : InMemoryKVStore) (key : Key) (value : Value) : InMemoryKVStore × State :=
  match s.set key value with
  | .ok s' => (s', ⟨some key, .monostate⟩)
  | .error e => (s, ⟨some key, .error e⟩)

def erase (s : InMemoryKVStore) (key : Key) : InMemoryKVStore × State :=
  ((s.erase key).1, ⟨some key, .value (s.erase key).2⟩)

def size (s : InMemoryKVStore) : InMemoryKVStore × State := (s, ⟨none, .size s.size⟩)

/-- `applyCommand` on a command that `start` has given `index`. `RmsCommand::apply`
throws, and `installSnapshot` does nothing. -/
def applyCommand (s : InMemoryKVStore) (index : ℕ) : Payload → InMemoryKVStore × Option State
  | .get key => (get s key).map id some
  | .set key value => (set s key value).map id some
  | .erase key => (erase s key).map id some
  | .size => (size s).map id some
  | .testCommand _ => (s, some ⟨none, .size index⟩)
  | .rmsCommand _ => (s, none)
  | .noOp => (s, some ⟨none, .size 0⟩)
  | .installSnapshotCommand _ _ _ => (s, some ⟨none, .size 0⟩)

theorem applyCommand_definite {s : InMemoryKVStore} {index : ℕ} {p : Payload} {r : State}
    (applied : (applyCommand s index p).2 = some r) : r.isNotLeader = false := by
  cases p with
  | set key value =>
    simp only [applyCommand, Prod.map_snd, Option.some.injEq] at applied
    subst applied
    simp only [set, InMemoryKVStore.set]
    split
    · rfl
    · rename_i e failed
      split at failed <;> split_ifs at failed <;> cases failed <;> rfl
  | rmsCommand data => cases applied
  | _ =>
    cases applied
    rfl

end KVStateMachine

end Zdb.KV
