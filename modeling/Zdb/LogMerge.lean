import Zdb.LogShape

/-! What `Log::merge` leaves of a gapless log and a run of entries that overlaps or
follows it, by index: all of both where they agree, and from the first difference on
only the run. -/

namespace Zdb.Raft

namespace Consecutive
variable {b d : ℕ} {entries : List LogEntry}

theorem filter_lt (h : Consecutive b entries) (d : ℕ) :
    entries.filter (fun e => decide (e.index < d)) = entries.take (d - b - 1) := by
  induction entries generalizing b with
  | nil => simp
  | cons e rest ih =>
    have first := h.head
    rcases Nat.lt_or_ge (b + 1) d with low | high
    · obtain ⟨k, count⟩ : ∃ k, d - b - 1 = k + 1 := ⟨d - b - 2, by omega⟩
      have later := ih h.tail
      rw [show d - (b + 1) - 1 = k by omega] at later
      rw [List.filter_cons_of_pos (by simp; omega), later, count, List.take_succ_cons]
    · have later := ih h.tail
      rw [show d - (b + 1) - 1 = 0 by omega, List.take_zero] at later
      rw [List.filter_cons_of_neg (by simp; omega), later, show d - b - 1 = 0 by omega,
        List.take_zero]

theorem filter_ge (h : Consecutive b entries) (d : ℕ) :
    entries.filter (fun e => decide (d ≤ e.index)) = entries.drop (d - b - 1) := by
  induction entries generalizing b with
  | nil => simp
  | cons e rest ih =>
    have first := h.head
    rcases Nat.lt_or_ge (b + 1) d with low | high
    · obtain ⟨k, count⟩ : ∃ k, d - b - 1 = k + 1 := ⟨d - b - 2, by omega⟩
      have later := ih h.tail
      rw [show d - (b + 1) - 1 = k by omega] at later
      rw [List.filter_cons_of_neg (by simp; omega), later, count, List.drop_succ_cons]
    · have later := ih h.tail
      rw [show d - (b + 1) - 1 = 0 by omega, List.drop_zero] at later
      rw [List.filter_cons_of_pos (by simp; omega), later, show d - b - 1 = 0 by omega,
        List.drop_zero]

end Consecutive

section Splice
variable {entries sent : List LogEntry}

theorem splice_of_agree {k : ℕ} (within : k ≤ entries.length)
    (agree : ∀ j x e, entries[k + j]? = some x → sent[j]? = some e → x.equal e = true) :
    splice entries k sent = entries ++ sent.drop (entries.length - k) := by
  induction sent generalizing k with
  | nil => simp [splice]
  | cons e rest ih =>
    rw [splice]
    cases found : entries[k]? with
    | none =>
      have past := List.getElem?_eq_none_iff.mp found
      simp [Nat.le_antisymm within past]
    | some stored =>
      have inside : k < entries.length := (List.getElem?_eq_some_iff.mp found).1
      have same : stored.equal e = true := agree 0 stored e found rfl
      have later := ih inside fun j x y hx hy =>
        agree (j + 1) x y (by rw [← hx]; congr 1; omega) hy
      simp only [same, if_true, later]
      rw [show entries.length - k = entries.length - (k + 1) + 1 by omega, List.drop_succ_cons]

theorem splice_of_conflict {k j : ℕ} {x e : LogEntry} (stored : entries[k + j]? = some x)
    (there : sent[j]? = some e) (differ : x.equal e = false)
    (agree : ∀ i y f, i < j → entries[k + i]? = some y → sent[i]? = some f → y.equal f = true) :
    splice entries k sent = entries.take (k + j) ++ sent.drop j := by
  induction sent generalizing k j with
  | nil => cases there
  | cons f rest ih =>
    rw [splice]
    have inside : k + j < entries.length := (List.getElem?_eq_some_iff.mp stored).1
    have here : entries[k]? = some entries[k] := List.getElem?_eq_getElem (by omega)
    cases j with
    | zero =>
      cases there
      rw [Nat.add_zero] at stored ⊢
      simp [stored, differ]
    | succ j =>
      have same : entries[k].equal f = true := agree 0 _ f (Nat.succ_pos j) here rfl
      have later := ih (k := k + 1) (by rw [← stored]; congr 1; omega) there
        fun i y g less hy hg => agree (i + 1) y g (by omega) (by rw [← hy]; congr 1; omega) hg
      simp only [here, same, if_true, later, List.drop_succ_cons]
      rw [Nat.add_right_comm, Nat.add_assoc]

theorem splice_of_covered {k : ℕ}
    (covered : ∀ j e, sent[j]? = some e → ∃ x, entries[k + j]? = some x ∧ x.equal e = true) :
    splice entries k sent = entries := by
  induction sent generalizing k with
  | nil => rfl
  | cons e rest ih =>
    obtain ⟨x, found, same⟩ := covered 0 e rfl
    rw [Nat.add_zero] at found
    have later := ih (k := k + 1) fun j f hf => by
      obtain ⟨y, at_, equal⟩ := covered (j + 1) f hf
      exact ⟨y, by rw [← at_]; congr 1; omega, equal⟩
    simp only [splice, found, same, if_true, later]

theorem splice_below {k i : ℕ} (within : k ≤ entries.length) (below : i < k) :
    (splice entries k sent)[i]? = entries[i]? := by
  induction sent generalizing k with
  | nil => rfl
  | cons e rest ih =>
    have front : (entries.take k ++ e :: rest)[i]? = entries[i]? := by
      rw [List.getElem?_append_left (by simp; omega), List.getElem?_take, if_pos below]
    rw [splice]
    cases found : entries[k]? with
    | none => exact front
    | some stored =>
      have inside : k < entries.length := (List.getElem?_eq_some_iff.mp found).1
      dsimp only
      split_ifs
      · exact ih inside (by omega)
      · exact front

theorem le_splice_length {k : ℕ} (within : k ≤ entries.length) :
    k ≤ (splice entries k sent).length := by
  cases k with
  | zero => exact Nat.zero_le _
  | succ k =>
    have last : (splice entries (k + 1) sent)[k]? = some entries[k] :=
      (splice_below within (Nat.lt_succ_self k)).trans (List.getElem?_eq_getElem within)
    exact (List.getElem?_eq_some_iff.mp last).1

theorem splice_covers {k : ℕ} (within : k ≤ entries.length) :
    ∀ j e, sent[j]? = some e →
      ∃ x, (splice entries k sent)[k + j]? = some x ∧ x.equal e = true := by
  induction sent generalizing k with
  | nil => intro j e found; cases found
  | cons f rest ih =>
    have taken : ∀ j e, (f :: rest)[j]? = some e →
        ∃ x, (entries.take k ++ f :: rest)[k + j]? = some x ∧ x.equal e = true := by
      intro j e found
      refine ⟨e, ?_, e.equal_self⟩
      rw [List.getElem?_append_right (by simp [within]), List.length_take, Nat.min_eq_left within,
        Nat.add_sub_cancel_left, found]
    rw [splice]
    cases here : entries[k]? with
    | none => exact taken
    | some stored =>
      have inside : k < entries.length := (List.getElem?_eq_some_iff.mp here).1
      dsimp only
      split_ifs with same
      · intro j e found
        cases j with
        | zero =>
          cases found
          exact ⟨stored, (splice_below inside (Nat.lt_succ_self k)).trans here, same⟩
        | succ j =>
          obtain ⟨x, at_, equal⟩ := ih inside j e found
          exact ⟨x, by rw [← at_]; congr 1; omega, equal⟩
      · exact taken

end Splice

section Merge
variable {log run : Log} {s : ℕ}

/-- A run that starts inside a gapless log or right after it. -/
structure Log.Meets (log run : Log) (s : ℕ) : Prop where
  contiguous : log.Contiguous
  consecutive : Consecutive (s - 1) run.entries
  above : log.lastIncludedIndex < s
  below : s ≤ log.lastIncludedIndex + log.entries.length + 1

namespace Log.Meets

theorem offset (h : log.Meets run s) :
    s - log.lastIncludedIndex - 1 ≤ log.entries.length ∧
      log.lastIncludedIndex + (s - log.lastIncludedIndex - 1) = s - 1 := by
  have := h.above
  have := h.below
  omega

theorem merge_entries (h : log.Meets run s) :
    (log.merge run).entries =
      splice log.entries (s - log.lastIncludedIndex - 1) run.entries :=
  mergeEntries_eq_splice h.contiguous h.offset.1 (by rw [h.offset.2]; exact h.consecutive)

theorem atIndex_log (h : log.Meets run s) (j : ℕ) :
    log.atIndex (s + j) = log.entries[s - log.lastIncludedIndex - 1 + j]? := by
  have := h.above
  rw [h.contiguous.atIndex, if_pos (by omega)]
  congr 1
  omega

theorem atIndex_run (h : log.Meets run s) (j : ℕ) : run.atIndex (s + j) = run.entries[j]? := by
  have := h.above
  rw [Log.atIndex, h.consecutive.atIter, if_pos (by omega),
    show s + j - (s - 1) - 1 = j by omega]
  cases run.entries[j]? <;> rfl

theorem merge_contiguous (h : log.Meets run s) : (log.merge run).Contiguous := by
  rw [Log.Contiguous, h.merge_entries]
  exact h.contiguous.splice h.offset.1 (by rw [h.offset.2]; exact h.consecutive)

theorem merge_of_agree (h : log.Meets run s)
    (agree : ∀ i x e, log.atIndex i = some x → run.atIndex i = some e → x.equal e = true) :
    (log.merge run).entries =
      log.entries ++ run.entries.filter fun e => decide (log.lastIndex + 1 ≤ e.index) := by
  rw [h.merge_entries, splice_of_agree h.offset.1, h.consecutive.filter_ge, h.contiguous.lastIndex]
  · have := h.above
    have := h.below
    congr 2
    omega
  · intro j x e hx he
    exact agree (s + j) x e (by rw [h.atIndex_log, hx]) (by rw [h.atIndex_run, he])

theorem merge_of_conflict (h : log.Meets run s) {d : ℕ} {x e : LogEntry}
    (stored : log.atIndex d = some x) (there : run.atIndex d = some e)
    (differ : x.equal e = false)
    (agree : ∀ i y f, i < d → log.atIndex i = some y → run.atIndex i = some f →
      y.equal f = true) :
    (log.merge run).entries = log.entries.filter (fun e => decide (e.index < d)) ++
      run.entries.filter fun e => decide (d ≤ e.index) := by
  have reached : s ≤ d := by
    rw [Log.atIndex, h.consecutive.atIter] at there
    by_contra early
    rw [if_neg (by omega)] at there
    cases there
  obtain ⟨j, rfl⟩ : ∃ j, d = s + j := ⟨d - s, by omega⟩
  have := h.above
  rw [h.atIndex_log] at stored
  rw [h.atIndex_run] at there
  rw [h.merge_entries, splice_of_conflict stored there differ, h.contiguous.filter_lt,
    h.consecutive.filter_ge]
  · congr 2 <;> omega
  · intro i y f less hy hf
    exact agree (s + i) y f (by omega) (by rw [h.atIndex_log, hy]) (by rw [h.atIndex_run, hf])

theorem merge_again (h : log.Meets run s) {again : Log} (early : again.entries <+: run.entries) :
    (log.merge run).merge again = log.merge run := by
  have next : (log.merge run).Meets again s := by
    refine ⟨h.merge_contiguous, h.consecutive.initial early, h.above, ?_⟩
    have start : _ ≤ (splice log.entries _ run.entries).length := le_splice_length h.offset.1
    rw [← h.merge_entries] at start
    have same : (log.merge run).lastIncludedIndex = log.lastIncludedIndex := rfl
    omega
  have entries : ((log.merge run).merge again).entries = (log.merge run).entries := by
    rw [next.merge_entries, splice_of_covered]
    intro j e found
    obtain ⟨rest, whole⟩ := early
    have there : run.entries[j]? = some e := by
      have inside : j < again.entries.length := (List.getElem?_eq_some_iff.mp found).1
      rw [← whole, List.getElem?_append_left inside, found]
    rw [h.merge_entries]
    exact splice_covers h.offset.1 j e there
  exact congrArg (fun entries => { log.merge run with entries }) entries

end Log.Meets

/-- `Log::merge`, as a function of what the two logs hold at each index. -/
theorem merge_spec (log run : Log) (s : ℕ) (contiguous : log.Contiguous)
    (consecutive : Consecutive (s - 1) run.entries) (above : log.lastIncludedIndex < s)
    (below : s ≤ log.lastIncludedIndex + log.entries.length + 1) :
    ((∀ i x e, log.atIndex i = some x → run.atIndex i = some e → x.equal e = true) →
      (log.merge run).entries =
        log.entries ++ run.entries.filter fun e => decide (log.lastIndex + 1 ≤ e.index)) ∧
    (∀ d x e, log.atIndex d = some x → run.atIndex d = some e → x.equal e = false →
      (∀ i y f, i < d → log.atIndex i = some y → run.atIndex i = some f → y.equal f = true) →
      (log.merge run).entries = log.entries.filter (fun e => decide (e.index < d)) ++
        run.entries.filter fun e => decide (d ≤ e.index)) ∧
    (log.merge run).Contiguous ∧
    (log.merge run).lastIncludedIndex = log.lastIncludedIndex ∧
    (log.merge run).merge run = log.merge run ∧
    ∀ again : Log, again.entries <+: run.entries →
      (log.merge run).merge again = log.merge run := by
  have h : log.Meets run s := ⟨contiguous, consecutive, above, below⟩
  exact ⟨h.merge_of_agree, fun d x e => h.merge_of_conflict, h.merge_contiguous, rfl,
    h.merge_again List.prefix_rfl, fun again => h.merge_again⟩

theorem merge_spec_replaced :
    let noOp : Command := ⟨Vector.replicate 16 0, .noOp⟩
    let log : Log := ⟨[⟨3, 1, noOp⟩, ⟨4, 1, noOp⟩], 2, 1⟩
    let run := Log.ofEntries [⟨4, 2, noOp⟩, ⟨5, 2, noOp⟩]
    (log.merge run).entries = [⟨3, 1, noOp⟩, ⟨4, 2, noOp⟩, ⟨5, 2, noOp⟩] ∧
      (log.merge run).merge run = log.merge run := by
  intro noOp log run
  refine ⟨by decide, (merge_spec log run 4 ?_ ?_ (by decide) (by decide)).2.2.2.2.1⟩
  · rintro (_ | _ | k) e found <;> cases found <;> rfl
  · rintro (_ | _ | k) e found <;> cases found <;> rfl

end Merge

end Zdb.Raft
