import Mathlib.Data.List.Nodup
import Mathlib.Data.List.Sublists

/-! Linearizability of concurrent calls on a sequential object. Calls are named;
a call that gets an indefinite answer, or none, may or may not take effect. -/

namespace Zdb.Linearizability
open scoped List

inductive Event (κ ρ : Type*) where
  | invoke (k : κ)
  | respond (k : κ) (r : ρ)
  deriving DecidableEq, Repr

variable {σ ι ρ κ : Type*}

/-- Call `a` has ended before call `b` begins. -/
def Precedes (history : List (Event κ ρ)) (a b : κ) : Prop :=
  ∃ r, [.respond a r, .invoke b] <+ history

def after (apply : σ → ι → σ × ρ) (init : σ) (ops : List ι) : σ :=
  ops.foldl (fun s op => (apply s op).1) init

theorem after_concat (apply : σ → ι → σ × ρ) (init : σ) (ops : List ι) (op : ι) :
    after apply init (ops ++ [op]) = (apply (after apply init ops) op).1 := by
  simp [after]

/-- What operation `op` answers when it comes right after `ops`. -/
def answer (apply : σ → ι → σ × ρ) (init : σ) (ops : List ι) (op : ι) : ρ :=
  (apply (after apply init ops) op).2

/-- `order` is a sequential explanation of `history`. -/
structure Linearizes (apply : σ → ι → σ × ρ) (init : σ) (op : κ → ι) (indefinite : ρ → Prop)
    (history : List (Event κ ρ)) (order : List κ) : Prop where
  once : order.Nodup
  invoked : ∀ k ∈ order, .invoke k ∈ history
  effective : ∀ k r, .respond k r ∈ history → ¬ indefinite r → k ∈ order
  legal : ∀ k r, .respond k r ∈ history → ¬ indefinite r → ∀ i, order[i]? = some k →
    answer apply init ((order.take i).map op) (op k) = r
  realTime : ∀ a ∈ order, ∀ b ∈ order, Precedes history a b → [a, b] <+ order

theorem pair_sublist_of_sublist {short long : List κ} {a b : κ} (distinct : long.Nodup)
    (within : short <+ long) (memA : a ∈ short) (memB : b ∈ short) (order : [a, b] <+ long) :
    [a, b] <+ short := by
  induction within with
  | slnil => simp at memA
  | cons x sub ih =>
    obtain ⟨fresh, distinct⟩ := List.nodup_cons.mp distinct
    cases order with
    | cons _ order => exact ih distinct memA memB order
    | cons_cons _ order => exact absurd (sub.subset memA) fresh
  | cons_cons x sub ih =>
    obtain ⟨fresh, distinct⟩ := List.nodup_cons.mp distinct
    cases order with
    | cons _ order =>
      have apartA : a ≠ x := fun same => fresh (same ▸ order.subset (by simp))
      have apartB : b ≠ x := fun same => fresh (same ▸ order.subset (by simp))
      exact (ih distinct (List.mem_of_ne_of_mem apartA memA)
        (List.mem_of_ne_of_mem apartB memB) order).cons x
    | cons_cons _ order =>
      have apart : b ≠ a := fun same => fresh (same ▸ order.subset (by simp))
      exact (List.singleton_sublist.mpr (List.mem_of_ne_of_mem apart memB)).cons_cons a

section Growing
variable {history : List (Event κ ρ)} {a b : κ}

theorem Precedes.respond_mem (before : Precedes history a b) : ∃ r, .respond a r ∈ history := by
  obtain ⟨r, order⟩ := before
  exact ⟨r, order.subset (by simp)⟩

theorem Precedes.of_concat {e : Event κ ρ} (before : Precedes (history ++ [e]) a b) :
    Precedes history a b ∨ (e = .invoke b ∧ ∃ r, .respond a r ∈ history) := by
  obtain ⟨r, order⟩ := before
  obtain ⟨front, last, split, first, second⟩ := List.sublist_append_iff.mp order
  rcases List.sublist_singleton.mp second with rfl | rfl
  · rw [List.append_nil] at split
    exact Or.inl ⟨r, split ▸ first⟩
  · replace split : [.respond a r] ++ [.invoke b] = front ++ [e] := split
    obtain ⟨rfl, same⟩ := List.append_inj' split rfl
    exact Or.inr ⟨(List.singleton_inj.mp same).symm, r, first.subset (by simp)⟩

end Growing

/-! A history is linearizable if every call that takes effect has a point in the log of
what reached the object, between its two events, and what is left of the log changes
nothing. -/

section Points
variable {apply : σ → ι → σ × ρ} {init : σ} {op : κ → ι} {log : List κ} {point : κ → Option ℕ}

def pick (log : List κ) (point : κ → Option ℕ) (i : ℕ) : Option κ :=
  log[i]?.filter fun k => point k = some i

def picked (log : List κ) (point : κ → Option ℕ) (n : ℕ) : List κ :=
  (List.range n).filterMap (pick log point)

theorem pick_eq_some {i : ℕ} {k : κ} :
    pick log point i = some k ↔ log[i]? = some k ∧ point k = some i := by
  simp [pick, Option.filter_eq_some_iff]

theorem picked_succ (n : ℕ) :
    picked log point (n + 1) = picked log point n ++ (pick log point n).toList := by
  rw [picked, List.range_succ, List.filterMap_append, ← picked]
  cases found : pick log point n <;> simp [found]

theorem mem_picked {n : ℕ} {k : κ} :
    k ∈ picked log point n ↔ ∃ i < n, pick log point i = some k := by
  simp [picked]

theorem picked_nodup (n : ℕ) : (picked log point n).Nodup := by
  refine List.Nodup.filterMap (fun i j k hi hj => ?_) List.nodup_range
  have first := (pick_eq_some.mp hi).2
  rw [(pick_eq_some.mp hj).2] at first
  exact (Option.some.inj first).symm

theorem picked_take {n i : ℕ} {k : κ} (found : (picked log point n)[i]? = some k) :
    ∃ m < n, pick log point m = some k ∧ (picked log point n).take i = picked log point m := by
  induction n with
  | zero => cases found
  | succ n ih =>
    rw [picked_succ] at found ⊢
    rcases Nat.lt_or_ge i (picked log point n).length with early | late
    · rw [List.getElem?_append_left early] at found
      obtain ⟨m, before, here, same⟩ := ih found
      exact ⟨m, by omega, here, by rw [List.take_append_of_le_length early.le, same]⟩
    · rw [List.getElem?_append_right late] at found
      cases here : pick log point n with
      | none => simp [here] at found
      | some last =>
        obtain ⟨zero, rfl⟩ : i - (picked log point n).length = 0 ∧ last = k := by
          simpa [here, List.getElem?_singleton] using found
        have at_ : i = (picked log point n).length := by omega
        exact ⟨n, Nat.lt_succ_self n, here, by rw [at_, List.take_left]⟩

theorem picked_pair {n i j : ℕ} {a b : κ} (before : i < j) (within : j < n)
    (atA : pick log point i = some a) (atB : pick log point j = some b) :
    [a, b] <+ picked log point n := by
  have positions : [i, j] <+ List.range n := by
    obtain ⟨d, rfl⟩ := Nat.exists_eq_add_of_lt within
    rw [Nat.add_assoc, List.range_add]
    have first : [i] <+ List.range j := List.singleton_sublist.mpr (List.mem_range.mpr before)
    have second : [j] <+ (List.range (d + 1)).map (j + ·) :=
      List.singleton_sublist.mpr (List.mem_map.mpr ⟨0, by simp, rfl⟩)
    exact first.append second
  simpa [picked, atA, atB] using positions.filterMap (pick log point)

theorem after_picked
    (skipped : ∀ i k, log[i]? = some k → point k ≠ some i →
      (apply (after apply init ((log.take i).map op)) (op k)).1 =
        after apply init ((log.take i).map op)) {n : ℕ} (within : n ≤ log.length) :
    after apply init ((picked log point n).map op) = after apply init ((log.take n).map op) := by
  induction n with
  | zero => rfl
  | succ n ih =>
    have found : log[n]? = some log[n] := List.getElem?_eq_getElem within
    have taken : log.take (n + 1) = log.take n ++ [log[n]] := by
      rw [List.take_add_one, found, Option.toList_some]
    rw [picked_succ, taken, List.map_append, List.map_append, List.map_singleton, after_concat]
    by_cases here : point log[n] = some n
    · rw [pick_eq_some.mpr ⟨found, here⟩, Option.toList_some, List.map_singleton, after_concat,
        ih (by omega)]
    · have none : pick log point n = none := by
        rw [pick, found, Option.filter_some, if_neg (by simpa using here)]
      rw [none, Option.toList_none, List.map_nil, List.append_nil, ih (by omega),
        skipped n _ found here]

theorem Linearizes.of_points {indefinite : ρ → Prop} {history : List (Event κ ρ)}
    (located : ∀ k i, point k = some i → log[i]? = some k)
    (skipped : ∀ i k, log[i]? = some k → point k ≠ some i →
      (apply (after apply init ((log.take i).map op)) (op k)).1 =
        after apply init ((log.take i).map op))
    (invoked : ∀ k i, point k = some i → .invoke k ∈ history)
    (definite : ∀ k r, .respond k r ∈ history → ¬ indefinite r → ∃ i, point k = some i ∧
      answer apply init ((log.take i).map op) (op k) = r)
    (ordered : ∀ a b i j, point a = some i → point b = some j → Precedes history a b → i < j) :
    Linearizes apply init op indefinite history (picked log point log.length) := by
  have within : ∀ {k i}, point k = some i → i < log.length := fun at_ =>
    (List.getElem?_eq_some_iff.mp (located _ _ at_)).1
  have pickedAt : ∀ {k i}, point k = some i → pick log point i = some k := fun at_ =>
    pick_eq_some.mpr ⟨located _ _ at_, at_⟩
  refine ⟨picked_nodup _, fun k mem => ?_, fun k r answered sure => ?_,
    fun k r answered sure i found => ?_, fun a memA b memB before => ?_⟩
  · obtain ⟨i, -, here⟩ := mem_picked.mp mem
    exact invoked k i (pick_eq_some.mp here).2
  · obtain ⟨i, at_, -⟩ := definite k r answered sure
    exact mem_picked.mpr ⟨i, within at_, pickedAt at_⟩
  · obtain ⟨j, at_, legal⟩ := definite k r answered sure
    obtain ⟨m, below, here, same⟩ := picked_take found
    obtain rfl : m = j := Option.some.inj ((pick_eq_some.mp here).2.symm.trans at_)
    rw [same, answer, after_picked skipped below.le]
    exact legal
  · obtain ⟨i, -, atA⟩ := mem_picked.mp memA
    obtain ⟨j, below, atB⟩ := mem_picked.mp memB
    have earlier := ordered a b i j (pick_eq_some.mp atA).2 (pick_eq_some.mp atB).2 before
    exact picked_pair earlier below atA atB

end Points

end Zdb.Linearizability
