import Zdb.ClientEffects

/-! Histories of one `InMemoryKVStore`. The operations of all clients are one list,
since each holds the mutex of the store. The version of a key counts its successful
sets as long as nobody erases it, and a set that succeeds has named the last one. -/

namespace Zdb.KV

namespace InMemoryKVStore

def perform (s : InMemoryKVStore) : Op → InMemoryKVStore
  | .set key value => match s.set key value with
      | .ok s' => s'
      | .error _ => s
  | .erase key => (s.erase key).1
  | _ => s

def performAll (s : InMemoryKVStore) (ops : List Op) : InMemoryKVStore := ops.foldl perform s

def version (s : InMemoryKVStore) (key : Key) : ℕ := ((s.get key).map Value.version).getD 0

end InMemoryKVStore

/-- A set that has succeeded: what was submitted, and the version it has made. -/
structure Write where
  submitted : Value
  produced : ℕ
  deriving DecidableEq, Repr

namespace InMemoryKVStore

def wrote (s : InMemoryKVStore) (key : Key) : Op → Option Write
  | .set k value => match s.set k value with
      | .ok s' => if k = key then some ⟨value, s'.version key⟩ else none
      | .error _ => none
  | _ => none

def writes (key : Key) : InMemoryKVStore → List Op → List Write
  | _, [] => []
  | s, op :: rest => (s.wrote key op).toList ++ writes key (s.perform op) rest

theorem set_ok {s s' : InMemoryKVStore} {key : Key} {value : Value}
    (done : s.set key value = .ok s') : value.version = s.version key ∧
      s'.get key = some ⟨value.data, (s.version key + 1) % 2 ^ 64⟩ := by
  unfold InMemoryKVStore.set at done
  unfold version InMemoryKVStore.get
  cases found : s.store.lookup key with
  | none =>
    simp only [found] at done
    split_ifs at done with fresh
    cases done
    exact ⟨by simpa using fresh, AList.lookup_insert _⟩
  | some stored =>
    simp only [found] at done
    split_ifs at done with current
    cases done
    exact ⟨by simpa using current, AList.lookup_insert _⟩

theorem set_ok_other {s s' : InMemoryKVStore} {key k : Key} {value : Value}
    (done : s.set k value = .ok s') (other : k ≠ key) : s'.get key = s.get key := by
  unfold InMemoryKVStore.set at done
  split at done <;> split_ifs at done <;> cases done <;>
    exact AList.lookup_insert_ne (Ne.symm other)

inductive Did (s : InMemoryKVStore) (key : Key) (op : Op) : Prop
  | wrote (w : Write) (found : s.wrote key op = some w)
      (submitted : w.submitted.version = s.version key)
      (produced : w.produced = (s.version key + 1) % 2 ^ 64)
      (stored : (s.perform op).get key = some ⟨w.submitted.data, w.produced⟩)
  | erased (found : s.wrote key op = none) (which : op = .erase key)
      (gone : (s.perform op).get key = none)
  | kept (found : s.wrote key op = none) (which : op ≠ .erase key)
      (same : (s.perform op).get key = s.get key)

theorem perform_did (s : InMemoryKVStore) (key : Key) (op : Op) : Did s key op := by
  cases op with
  | get k => exact .kept rfl (by simp) rfl
  | size => exact .kept rfl (by simp) rfl
  | erase k =>
    by_cases here : k = key
    · subst here
      exact .erased rfl rfl (AList.lookup_erase _ _)
    · exact .kept rfl (by simpa using here) (AList.lookup_erase_ne (Ne.symm here))
  | set k value =>
    cases done : s.set k value with
    | error e =>
      exact .kept (by simp [InMemoryKVStore.wrote, done]) (by simp) (by simp [perform, done])
    | ok s' =>
      by_cases here : k = key
      · subst here
        obtain ⟨submitted, stored⟩ := set_ok done
        have produced : s'.version k = (s.version k + 1) % 2 ^ 64 := by simp [version, stored]
        refine .wrote ⟨value, s'.version k⟩ (by simp [InMemoryKVStore.wrote, done]) submitted
          produced ?_
        simpa [perform, done, produced] using stored
      · exact .kept (by simp [InMemoryKVStore.wrote, done, here]) (by simp)
          (by simpa [perform, done] using set_ok_other done here)

theorem version_congr {s t : InMemoryKVStore} {key : Key} (same : s.get key = t.get key) :
    s.version key = t.version key := by
  rw [version, version, same]

theorem version_perform_lt {s : InMemoryKVStore} {key : Key} (small : s.version key < 2 ^ 64)
    (op : Op) : (s.perform op).version key < 2 ^ 64 := by
  cases perform_did s key op with
  | wrote w _ _ produced stored =>
    rw [version, stored, Option.map_some, Option.getD_some, produced]
    exact Nat.mod_lt _ (by decide)
  | erased _ _ gone =>
    rw [version, gone]
    decide
  | kept _ _ same => rwa [version_congr same]

theorem version_performAll_lt {s : InMemoryKVStore} {key : Key} (small : s.version key < 2 ^ 64)
    (ops : List Op) : (s.performAll ops).version key < 2 ^ 64 := by
  induction ops generalizing s with
  | nil => exact small
  | cons op rest ih => exact ih (version_perform_lt small op)

theorem version_empty (key : Key) : version {} key = 0 := rfl

theorem version_empty_lt (key : Key) : version {} key < 2 ^ 64 := by
  rw [version_empty]
  decide

theorem performAll_append (s : InMemoryKVStore) (ops rest : List Op) :
    s.performAll (ops ++ rest) = (s.performAll ops).performAll rest :=
  List.foldl_append

theorem writes_append (key : Key) (s : InMemoryKVStore) (ops rest : List Op) :
    writes key s (ops ++ rest) = writes key s ops ++ writes key (s.performAll ops) rest := by
  induction ops generalizing s with
  | nil => rfl
  | cons op ops ih =>
    rw [List.cons_append, writes, ih, writes, List.append_assoc]
    rfl

structure Counted (s : InMemoryKVStore) (key : Key) (ops : List Op) : Prop where
  version : (s.performAll ops).version key = (s.version key + (writes key s ops).length) % 2 ^ 64
  submitted : ∀ i w, (writes key s ops)[i]? = some w →
    w.submitted.version = (s.version key + i) % 2 ^ 64
  produced : ∀ i w, (writes key s ops)[i]? = some w →
    w.produced = (s.version key + i + 1) % 2 ^ 64
  stored : (s.performAll ops).get key = match (writes key s ops).getLast? with
    | some w => some ⟨w.submitted.data, w.produced⟩
    | none => s.get key

theorem counted {s : InMemoryKVStore} {key : Key} (small : s.version key < 2 ^ 64)
    {ops : List Op} (kept : Op.erase key ∉ ops) : Counted s key ops := by
  induction ops generalizing s with
  | nil =>
    exact ⟨(Nat.mod_eq_of_lt small).symm, fun i w found => by simp [writes] at found,
      fun i w found => by simp [writes] at found, rfl⟩
  | cons op rest ih =>
    have later := ih (version_perform_lt small op) fun there => kept (List.mem_cons_of_mem _ there)
    cases perform_did s key op with
    | erased _ which _ => exact absurd (which ▸ List.mem_cons_self) kept
    | kept found _ same =>
      have shape : writes key s (op :: rest) = writes key (s.perform op) rest := by
        simp [writes, found]
      have start : (s.perform op).version key = s.version key := version_congr same
      refine ⟨?_, ?_, ?_, ?_⟩
      · rw [shape, ← start]
        exact later.version
      · rw [shape, ← start]
        exact later.submitted
      · rw [shape, ← start]
        exact later.produced
      · rw [shape, ← same]
        exact later.stored
    | wrote w found submitted produced stored =>
      have shape : writes key s (op :: rest) = w :: writes key (s.perform op) rest := by
        simp [writes, found]
      have next : (s.perform op).version key = (s.version key + 1) % 2 ^ 64 := by
        rw [InMemoryKVStore.version, stored, Option.map_some, Option.getD_some, produced]
      refine ⟨?_, ?_, ?_, ?_⟩
      · rw [shape, List.length_cons, ← Nat.add_assoc, Nat.add_right_comm, ← Nat.mod_add_mod,
          ← next]
        exact later.version
      · intro i v at_i
        rw [shape] at at_i
        cases i with
        | zero =>
          cases at_i
          rw [submitted, Nat.add_zero, Nat.mod_eq_of_lt small]
        | succ i =>
          rw [later.submitted i v at_i, next, Nat.mod_add_mod, Nat.add_assoc, Nat.add_comm 1 i]
      · intro i v at_i
        rw [shape] at at_i
        cases i with
        | zero =>
          cases at_i
          exact produced
        | succ i =>
          rw [later.produced i v at_i, next, Nat.add_assoc, Nat.mod_add_mod]
          congr 1
          omega
      · rw [shape]
        refine later.stored.trans ?_
        rw [List.getLast?_cons]
        cases (writes key (s.perform op) rest).getLast? with
        | none => exact stored
        | some last => rfl

theorem perform_of_error {s : InMemoryKVStore} {key : Key} {value : Value} {e : Error}
    (failed : s.set key value = .error e) : s.perform (.set key value) = s := by
  rw [perform, failed]

/-- A key that is never erased has as its version the number of its successful sets.
Each version has one writer, who has submitted the version before. -/
theorem versions_count_sets (key : Key) (ops : List Op) (kept : Op.erase key ∉ ops)
    (few : (writes key {} ops).length < 2 ^ 64) (run : List Op) (early : run <+: ops) :
    (performAll {} run).version key = (writes key {} run).length ∧
      (∀ v, 1 ≤ v → v ≤ (writes key {} run).length → ∃ (i : ℕ) (w : Write),
        (writes key {} run)[i]? = some w ∧ w.produced = v ∧ w.submitted.version = v - 1 ∧
        ∀ (j : ℕ) (u : Write), (writes key {} run)[j]? = some u → u.produced = v → j = i) ∧
      (performAll {} run).get key =
        (writes key {} run).getLast?.map (fun w => ⟨w.submitted.data, w.produced⟩) ∧
      ∀ k value e, (performAll {} run).set k value = .error e →
        (performAll {} run).perform (.set k value) = performAll {} run := by
  obtain ⟨rest, rfl⟩ := early
  have count := counted (version_empty_lt key)
    fun there => kept (List.mem_append_left rest there)
  have below : (writes key {} run).length < 2 ^ 64 := by
    rw [writes_append, List.length_append] at few
    omega
  have produced : ∀ i w, (writes key {} run)[i]? = some w → w.produced = i + 1 := by
    intro i w found
    obtain ⟨inside, _⟩ := List.getElem?_eq_some_iff.mp found
    rw [count.produced i w found, version_empty, Nat.zero_add, Nat.mod_eq_of_lt (by omega)]
  refine ⟨?_, ?_, ?_, fun k value e => perform_of_error⟩
  · rw [count.version, version_empty, Nat.zero_add, Nat.mod_eq_of_lt below]
  · intro v positive bound
    obtain ⟨w, found⟩ : ∃ w, (writes key {} run)[v - 1]? = some w :=
      ⟨_, List.getElem?_eq_getElem (by omega)⟩
    refine ⟨v - 1, w, found, ?_, ?_, ?_⟩
    · rw [produced _ w found]
      omega
    · rw [count.submitted _ w found, version_empty, Nat.zero_add, Nat.mod_eq_of_lt (by omega)]
    · intro j u there same
      have := produced j u there
      omega
  · rw [count.stored]
    cases (writes key {} run).getLast? <;> rfl

theorem versions_count_sets_race :
    let key : Key := ⟨[107]⟩
    let ops := [Op.set key ⟨[97], 0⟩, .set key ⟨[98], 0⟩, .get key, .set key ⟨[98], 1⟩]
    writes key {} ops = [⟨⟨[97], 0⟩, 1⟩, ⟨⟨[98], 1⟩, 2⟩] ∧
      (performAll {} ops).version key = (writes key {} ops).length :=
  ⟨by decide, (versions_count_sets ⟨[107]⟩ _ (by decide) (by decide) _ List.prefix_rfl).1⟩

theorem get_of_erase_mem {s : InMemoryKVStore} {key : Key} {ops : List Op}
    (erased : Op.erase key ∈ ops) : ∃ run, run <+: ops ∧ (s.performAll run).get key = none := by
  obtain ⟨before, after, rfl⟩ := List.append_of_mem erased
  refine ⟨before ++ [.erase key], ⟨after, by simp⟩, ?_⟩
  rw [performAll_append]
  exact AList.lookup_erase _ _

theorem writes_of_constant {s : InMemoryKVStore} {key : Key} {stored : Value} {ops : List Op}
    (constant : ∀ run, run <+: ops → (s.performAll run).get key = some stored) :
    writes key s ops = [] := by
  induction ops generalizing s with
  | nil => rfl
  | cons op rest ih =>
    have later := ih (s := s.perform op) fun run early =>
      constant (op :: run) (List.cons_prefix_cons.mpr ⟨rfl, early⟩)
    have before : s.get key = some stored := constant [] List.nil_prefix
    have after : (s.perform op).get key = some stored :=
      constant [op] (List.cons_prefix_cons.mpr ⟨rfl, List.nil_prefix⟩)
    cases perform_did s key op with
    | wrote w _ _ produced now =>
      have same : w.produced = stored.version := congrArg Value.version (Option.some.inj
        (now.symm.trans after))
      have old : s.version key = stored.version := by rw [version, before]; rfl
      rw [produced, old] at same
      omega
    | erased found _ _ => rw [writes, found, later]; rfl
    | kept found _ _ => rw [writes, found, later]; rfl

theorem constant_of_writes {s : InMemoryKVStore} {key : Key} (small : s.version key < 2 ^ 64)
    {ops : List Op} (kept : Op.erase key ∉ ops) (none : writes key s ops = []) {run : List Op}
    (early : run <+: ops) : (s.performAll run).get key = s.get key := by
  obtain ⟨rest, rfl⟩ := early
  rw [writes_append, List.append_eq_nil_iff] at none
  have count := counted small fun there => kept (List.mem_append_left rest there)
  rw [count.stored, none.1]
  rfl

/-- A set with the version that a get has returned succeeds only if nothing has
happened to the key since, provided that nobody has erased it and that its version has
not gone once round; without that it may. -/
theorem version_fences_iff (key : Key) (before between : List Op) (stored : Value) (data : Bytes)
    (s' : InMemoryKVStore) (read : (performAll {} before).get key = some stored)
    (done : (performAll {} (before ++ between)).set key ⟨data, stored.version⟩ = .ok s') :
    (∀ run, run <+: between → (performAll {} (before ++ run)).get key = some stored) ↔
      Op.erase key ∉ between ∧
        (writes key (performAll {} before) between).length < 2 ^ 64 := by
  simp only [performAll_append] at done ⊢
  generalize old : performAll {} before = s at *
  have small : s.version key < 2 ^ 64 := by
    rw [← old]
    exact version_performAll_lt (version_empty_lt key) before
  have current : s.version key = stored.version := by rw [version, read]; rfl
  constructor
  · intro constant
    refine ⟨fun erased => ?_, ?_⟩
    · obtain ⟨run, early, gone⟩ := get_of_erase_mem (s := s) erased
      rw [constant run early] at gone
      cases gone
    · rw [writes_of_constant constant]
      decide
  · rintro ⟨kept, few⟩ run early
    have last := (counted small kept).version
    rw [← (set_ok done).1, current] at last
    dsimp only at last
    have nothing : writes key s between = [] := by
      rw [← List.length_eq_zero_iff]
      omega
    rw [constant_of_writes small kept nothing early, read]

theorem version_fences_quiet :
    let key : Key := ⟨[107]⟩
    let create := [Op.set key ⟨[97], 0⟩]
    ((performAll {} create).get key = some ⟨[97], 1⟩ ∧ Op.erase key ∉ [Op.get key, .size]) ∧
      ∀ run, run <+: [Op.get key, .size] →
        (performAll {} (create ++ run)).get key = some ⟨[97], 1⟩ :=
  ⟨by decide, (version_fences_iff ⟨[107]⟩ [.set ⟨[107]⟩ ⟨[97], 0⟩] [.get ⟨[107]⟩, .size]
    ⟨[97], 1⟩ [98] _ (by decide) rfl).mpr (by decide)⟩

/-- The key is erased and created again between the get and the set. -/
theorem version_reused :
    let key : Key := ⟨[107]⟩
    let before := [Op.set key ⟨[97], 0⟩]
    let between := [Op.erase key, .set key ⟨[98], 0⟩]
    (performAll {} before).get key = some ⟨[97], 1⟩ ∧
      (performAll {} (before ++ between)).get key = some ⟨[98], 1⟩ ∧
      ((performAll {} (before ++ between)).set key ⟨[99], 1⟩).toBool = true := by
  decide

end InMemoryKVStore

end Zdb.KV
