import Zdb.RaftLog
import Zdb.TermLog

/-! What the operations of `raft::Log` compute on a log without gaps: entries
with consecutive indices that start right after the snapshot point. -/

namespace Zdb.Raft
open TermLog

def Consecutive (b : ℕ) (entries : List LogEntry) : Prop :=
  ∀ k e, entries[k]? = some e → e.index = b + 1 + k

def Log.Contiguous (log : Log) : Prop := Consecutive log.lastIncludedIndex log.entries

namespace Consecutive

theorem nil (b : ℕ) : Consecutive b [] := by simp [Consecutive]

theorem tail {b : ℕ} {e : LogEntry} {rest : List LogEntry} (h : Consecutive b (e :: rest)) :
    Consecutive (b + 1) rest := by
  intro k x hx
  have := h (k + 1) x (by simpa using hx)
  omega

theorem head {b : ℕ} {e : LogEntry} {rest : List LogEntry} (h : Consecutive b (e :: rest)) :
    e.index = b + 1 := h 0 e (by simp)

theorem drop {b : ℕ} {entries : List LogEntry} (h : Consecutive b entries) (k : ℕ) :
    Consecutive (b + k) (entries.drop k) := by
  intro j e he
  rw [List.getElem?_drop] at he
  have := h (k + j) e he
  omega

theorem take {b : ℕ} {entries : List LogEntry} (h : Consecutive b entries) (k : ℕ) :
    Consecutive b (entries.take k) := by
  intro j e he
  rw [List.getElem?_take] at he
  split_ifs at he
  exact h j e he

theorem append {b : ℕ} {first second : List LogEntry} (hf : Consecutive b first)
    (hs : Consecutive (b + first.length) second) : Consecutive b (first ++ second) := by
  intro k e he
  rcases Nat.lt_or_ge k first.length with hk | hk
  · rw [List.getElem?_append_left hk] at he
    exact hf k e he
  · rw [List.getElem?_append_right hk] at he
    have := hs _ e he
    omega

theorem initial {b : ℕ} {short long : List LogEntry} (h : Consecutive b long)
    (hp : short <+: long) : Consecutive b short := by
  obtain ⟨rest, rfl⟩ := hp
  simpa using h.take short.length

theorem atIter {b : ℕ} {entries : List LogEntry} (h : Consecutive b entries) (i : ℕ) :
    Log.atIter entries i =
      if b < i then entries[i - b - 1]?.map (fun e => (i - b - 1, e)) else none := by
  induction entries generalizing b with
  | nil => simp [Log.atIter]
  | cons e rest ih =>
    have first := h.head
    rw [Log.atIter, ih h.tail]
    rcases Nat.lt_trichotomy i (b + 1) with low | rfl | high
    · have apart : ¬ e.index = i := by omega
      simp [apart, show ¬ b + 1 < i by omega, show ¬ b < i by omega]
    · simp [first]
    · have apart : ¬ e.index = i := by omega
      obtain ⟨j, rfl⟩ : ∃ j, i = b + 1 + 1 + j := ⟨i - (b + 2), by omega⟩
      have here : b + 1 + 1 + j - (b + 1) - 1 = j := by omega
      have there : b + 1 + 1 + j - b - 1 = j + 1 := by omega
      simp only [apart, beq_iff_eq, if_false, here, there, List.getElem?_cons_succ,
        show b + 1 < b + 1 + 1 + j by omega, show b < b + 1 + 1 + j by omega, if_true]
      cases rest[j]? <;> rfl

end Consecutive

namespace Log.Contiguous
variable {log : Log}

theorem atIndex (h : log.Contiguous) (i : ℕ) :
    log.atIndex i =
      if log.lastIncludedIndex < i then log.entries[i - log.lastIncludedIndex - 1]? else none := by
  rw [Log.atIndex, Consecutive.atIter h]
  split_ifs
  · cases log.entries[i - log.lastIncludedIndex - 1]? <;> rfl
  · rfl

theorem lastIndex (h : log.Contiguous) :
    log.lastIndex = log.lastIncludedIndex + log.entries.length := by
  rw [Log.lastIndex]
  rcases List.eq_nil_or_concat log.entries with empty | ⟨front, last, full⟩
  · simp [empty]
  · have index := h front.length last (by simp [full])
    simp only [full, List.concat_eq_append, List.getLast?_append, List.getLast?_singleton,
      Option.some_or, List.length_append, List.length_singleton]
    omega

theorem firstIndex (h : log.Contiguous) :
    log.firstIndex = if log.entries = [] then 0 else log.lastIncludedIndex + 1 := by
  rw [Log.firstIndex]
  cases full : log.entries with
  | nil => simp
  | cons e rest => simpa using h 0 e (by simp [full])

theorem suffix (h : log.Contiguous) (n : ℕ) :
    (log.suffix n).entries =
      if log.lastIncludedIndex < n then log.entries.drop (n - log.lastIncludedIndex - 1)
      else [] := by
  rw [Log.suffix, Consecutive.atIter h]
  split_ifs
  · cases found : log.entries[n - log.lastIncludedIndex - 1]? with
    | none => simp [List.drop_eq_nil_of_le (List.getElem?_eq_none_iff.mp found)]
    | some e => rfl
  · rfl

theorem trimPrefix (h : log.Contiguous) (index term : ℕ) :
    (log.trimPrefix index term).entries =
      if log.lastIncludedIndex < index then log.entries.drop (index - log.lastIncludedIndex)
      else [] := by
  rw [Log.trimPrefix, Consecutive.atIter h]
  split_ifs with above
  · cases found : log.entries[index - log.lastIncludedIndex - 1]? with
    | none =>
      have past := List.getElem?_eq_none_iff.mp found
      have short : log.entries.length ≤ index - log.lastIncludedIndex := by omega
      simp [List.drop_eq_nil_of_le short]
    | some e =>
      simp only [Option.map_some]
      congr 1
      omega
  · rfl

theorem trimPrefix_contiguous (h : log.Contiguous) (index term : ℕ) :
    (log.trimPrefix index term).Contiguous := by
  have same : (log.trimPrefix index term).lastIncludedIndex = index := rfl
  rw [Log.Contiguous, h.trimPrefix, same]
  split_ifs with above
  · have moved := Consecutive.drop h (index - log.lastIncludedIndex)
    rwa [show log.lastIncludedIndex + (index - log.lastIncludedIndex) = index by omega] at moved
  · exact Consecutive.nil index

end Log.Contiguous

/-- `Log::merge` on a gapless log, by offset in the stored entries: entries that
compare equal stay, the rest of the message replaces everything from the first
difference on. -/
def splice (entries : List LogEntry) : ℕ → List LogEntry → List LogEntry
  | _, [] => entries
  | k, e :: rest => match entries[k]? with
      | none => entries.take k ++ e :: rest
      | some stored =>
          if stored.equal e then splice entries (k + 1) rest else entries.take k ++ e :: rest

theorem mergeEntries_eq_splice {b k : ℕ} {entries sent : List LogEntry}
    (h : Consecutive b entries) (hk : k ≤ entries.length) (hs : Consecutive (b + k) sent) :
    Log.mergeEntries entries sent = splice entries k sent := by
  induction sent generalizing k with
  | nil => rfl
  | cons e rest ih =>
    have index := hs.head
    have offset : e.index - b - 1 = k := by omega
    rw [Log.mergeEntries, splice, h.atIter, if_pos (by omega), offset]
    cases found : entries[k]? with
    | none =>
      have : entries.length ≤ k := List.getElem?_eq_none_iff.mp found
      simp [List.take_of_length_le this]
    | some stored =>
      have inside : k < entries.length := (List.getElem?_eq_some_iff.mp found).1
      have later : Consecutive (b + (k + 1)) rest := by
        simpa only [Nat.add_assoc] using hs.tail
      simp only [Option.map_some, ih inside later]

theorem Consecutive.splice {b k : ℕ} {entries sent : List LogEntry}
    (h : Consecutive b entries) (hk : k ≤ entries.length) (hs : Consecutive (b + k) sent) :
    Consecutive b (Raft.splice entries k sent) := by
  induction sent generalizing k with
  | nil => exact h
  | cons e rest ih =>
    have joined : Consecutive b (entries.take k ++ e :: rest) :=
      (h.take k).append (by simpa [hk] using hs)
    rw [Raft.splice]
    cases found : entries[k]? with
    | none => exact joined
    | some stored =>
      have inside : k < entries.length := (List.getElem?_eq_some_iff.mp found).1
      simp only
      split_ifs
      · exact ih inside (by simpa only [Nat.add_assoc] using hs.tail)
      · exact joined

theorem splice_append (front entries : List LogEntry) (k : ℕ) (sent : List LogEntry) :
    splice (front ++ entries) (front.length + k) sent = front ++ splice entries k sent := by
  have at_ : (front ++ entries)[front.length + k]? = entries[k]? := by
    rw [List.getElem?_append_right (by omega), Nat.add_sub_cancel_left]
  have take : (front ++ entries).take (front.length + k) = front ++ entries.take k :=
    List.take_length_add_append k
  induction sent generalizing k with
  | nil => rfl
  | cons e rest ih =>
    rw [splice, splice, at_, take, List.append_assoc]
    cases found : entries[k]? with
    | none => rfl
    | some stored =>
      have next := ih (k + 1) (by rw [List.getElem?_append_right (by omega)]; congr 1; omega)
        (List.take_length_add_append (k + 1))
      simp only
      split_ifs
      · exact next
      · rfl

@[simp] theorem LogEntry.equal_self (e : LogEntry) : e.equal e = true := by
  simp [LogEntry.equal]

theorem splice_eq {k : ℕ} {entries sent : List LogEntry} (hk : k ≤ entries.length)
    (same : ∀ j x e, entries[k + j]? = some x → sent[j]? = some e → x.equal e = true → x = e) :
    splice entries k sent =
      if sent <+: entries.drop k then entries else entries.take k ++ sent := by
  induction sent generalizing k with
  | nil => simp [splice]
  | cons e rest ih =>
    rw [splice]
    cases found : entries[k]? with
    | none =>
      have past : entries.length ≤ k := List.getElem?_eq_none_iff.mp found
      simp [List.drop_eq_nil_of_le past]
    | some stored =>
      obtain ⟨inside, value⟩ := List.getElem?_eq_some_iff.mp found
      have split : entries.drop k = stored :: entries.drop (k + 1) := by
        rw [← value]
        exact List.drop_eq_getElem_cons inside
      by_cases equal : stored.equal e = true
      · obtain rfl : stored = e := same 0 stored e (by simpa using found) (by simp) equal
        have tails := ih inside
          (fun j x y hx hy => same (j + 1) x y (by rw [← hx]; congr 1; omega) (by simpa using hy))
        have front : entries.take (k + 1) = entries.take k ++ [stored] := by
          rw [List.take_add_one, found]
          rfl
        simp [split, tails, front]
      · have differ : stored ≠ e := by
          rintro rfl
          exact equal stored.equal_self
        simp [equal, split, Ne.symm differ]

theorem LogEntry.term_eq_of_equal {a b : LogEntry} (h : a.equal b = true) : a.term = b.term := by
  simp only [LogEntry.equal, Bool.and_eq_true, beq_iff_eq] at h
  exact h.1.2

@[simp] theorem mergeEntries_nil (sent : List LogEntry) : Log.mergeEntries [] sent = sent := by
  cases sent <;> rfl

theorem mem_mergeEntries {entries sent : List LogEntry} {e : LogEntry}
    (h : e ∈ Log.mergeEntries entries sent) : e ∈ entries ∨ e ∈ sent := by
  induction sent with
  | nil => exact Or.inl h
  | cons x rest ih =>
    rw [Log.mergeEntries] at h
    split at h
    · exact List.mem_append.mp h
    · split_ifs at h
      · exact (ih h).imp id (List.mem_cons_of_mem x)
      · exact (List.mem_append.mp h).imp List.mem_of_mem_take id

end Zdb.Raft
