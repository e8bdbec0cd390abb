import Zdb.LogReplicationInvariant

/-! Consequences of the replication invariant: logs match, committed prefixes
are in every later leader's log, and a replica that holds a settled prefix
never gives it up. -/

namespace Zdb.LogReplication
open TermLog

variable {N α : Type*} {term : α → ℕ} {Q : QuorumSystem N} {s t : State N α}

theorem Chain.whole {log : List α} (hc : Chain term s log) (some : log ≠ []) :
    (∃ e ∈ log, term e = lastTerm term log) ∧ s.leader (lastTerm term log) ≠ none ∧
      log <+: s.leaderLog (lastTerm term log) := by
  obtain ⟨front, last, rfl⟩ : ∃ front last, log = front ++ [last] := by
    rcases List.eq_nil_or_concat log with empty | ⟨front, last, h⟩
    · exact absurd empty some
    · exact ⟨front, last, by rw [h, List.concat_eq_append]⟩
  rw [lastTerm_append_singleton]
  obtain ⟨led, held⟩ := hc front.length last (by simp)
  rw [List.take_of_length_le (by simp)] at held
  exact ⟨⟨last, by simp, rfl⟩, led, held⟩

theorem Chain.matching {first second : List α} (hf : Chain term s first)
    (hs : Chain term s second) {i j : ℕ} {e f : α} (he : first[i]? = some e)
    (hg : second[j]? = some f) (same : term e = term f) (hij : i ≤ j) :
    first.take (i + 1) = second.take (i + 1) := by
  have a := (hf i e he).2
  have b := (hs j f hg).2
  rw [← same] at b
  replace b : second.take (i + 1) <+: s.leaderLog (term e) :=
    (List.take_prefix_take_left (by omega)).trans b
  have insideF := (List.getElem?_eq_some_iff.mp he).1
  have insideS := (List.getElem?_eq_some_iff.mp hg).1
  have len : (first.take (i + 1)).length = (second.take (i + 1)).length := by
    rw [List.length_take, List.length_take]
    omega
  exact (List.prefix_of_prefix_length_le a b len.le).eq_of_length len

theorem Chain.take_eq_of_termAt {first second : List α} (hf : Chain term s first)
    (hs : Chain term s second) {i j : ℕ} (hi : i ≤ first.length) (hij : i ≤ j)
    (hj : j ≤ second.length) (same : termAt term first i = termAt term second j) :
    first.take i = second.take i := by
  cases i with
  | zero => rfl
  | succ i =>
    obtain ⟨j, rfl⟩ : ∃ k, j = k + 1 := ⟨j - 1, by omega⟩
    have he := List.getElem?_eq_getElem (show i < first.length by omega)
    have hg := List.getElem?_eq_getElem (show j < second.length by omega)
    rw [termAt_succ term he, termAt_succ term hg] at same
    exact hf.matching hs he hg same (by omega)

theorem Chain.term_pos {log : List α} (hc : Chain term s log) (hi : Inv term Q s) {i : ℕ} {e : α}
    (he : log[i]? = some e) : 0 < term e := by
  obtain ⟨c, hl⟩ := Option.ne_none_iff_exists'.mp (hc i e he).1
  exact hi.leader_pos hl

/-- A quorum has confirmed entry `i` of leader `T`, an entry of its own term. -/
def Committed (term : α → ℕ) (Q : QuorumSystem N) (s : State N α) (T i : ℕ) : Prop :=
  s.leader T ≠ none ∧ termAt term (s.leaderLog T) i = T ∧
    ∃ voters, Q.IsQuorum voters ∧ ∀ v ∈ voters, s.acked v T i

theorem Committed.exists_entry (hi : Inv term Q s) {T i : ℕ} (hc : Committed term Q s T i) :
    0 < T ∧ ∃ e ∈ (s.leaderLog T).take i, term e = T := by
  obtain ⟨led, own, _⟩ := hc
  obtain ⟨c, hl⟩ := Option.ne_none_iff_exists'.mp led
  have pos := hi.leader_pos hl
  obtain ⟨j, e, rfl, found, same⟩ := exists_getElem_of_termAt term (by rw [own]; exact pos)
  refine ⟨pos, e, ?_, by rw [same, own]⟩
  obtain ⟨hj, rfl⟩ := List.getElem?_eq_some_iff.mp found
  exact List.mem_take_iff_getElem.mpr ⟨j, by omega, rfl⟩

theorem Committed.leader_completeness (hi : Inv term Q s) {T i : ℕ}
    (hc : Committed term Q s T i) :
    ∀ U, T < U → s.leader U ≠ none → (s.leaderLog T).take i <+: s.electLog U := by
  obtain ⟨pos, x, hx, xT⟩ := hc.exists_entry hi
  obtain ⟨led, own, voters, quorum, confirmed⟩ := hc
  have bound : ∀ e ∈ (s.leaderLog T).take i, term e ≤ T :=
    fun e he => hi.leaderLog_term led e ((take_initial i _).subset he)
  intro U
  induction U using Nat.strong_induction_on with
  | _ U ih =>
    intro later ledU
    obtain ⟨c, hl⟩ := Option.ne_none_iff_exists'.mp ledU
    obtain ⟨electors, majority, all⟩ := hi.leader_quorum U c hl
    -- `v` has confirmed the prefix to `T` and voted for `U`: it voted with the prefix, unless
    -- a leader in between was elected without it
    obtain ⟨v, hv, hv'⟩ := Q.meet voters electors quorum majority
    obtain ⟨voted, pledged⟩ := all v hv'
    rw [hi.leader_elected U c hl]
    rcases pledged T i (confirmed v hv) later with held | ⟨V, hTV, hVU, ledV, missing⟩
    · have recent := hi.ballot_recent v U c voted
      have mine := hi.ballot_chain v U c voted
      have theirs := hi.ballot_chain c U c (hi.ballot_self v U c voted)
      have filled : s.ballotLog v U ≠ [] := by
        intro empty
        rw [empty] at held
        simp [List.prefix_nil.mp held] at hx
      obtain ⟨_, _, mineWhole⟩ := mine.whole filled
      have atLeast : T ≤ lastTerm term (s.ballotLog v U) :=
        xT ▸ hi.term_le_lastTerm mine x (held.subset hx)
      have filled' : s.ballotLog c U ≠ [] := by
        intro empty
        have low := recent.lastTerm_le
        rw [empty, lastTerm_nil] at low
        omega
      obtain ⟨⟨y, hy, yLast⟩, ledY, theirsWhole⟩ := theirs.whole filled'
      rcases recent with ⟨same, longer⟩ | less
      · rw [same] at mineWhole
        exact held.trans (List.prefix_of_prefix_length_le mineWhole theirsWhole longer)
      · have early : lastTerm term (s.ballotLog c U) < U :=
          yLast ▸ hi.ballot_earlier c U c (hi.ballot_self v U c voted) y hy
        have inherited := (ih _ early (by omega) ledY).trans (hi.electLog_initial ledY)
        rcases List.prefix_or_prefix_of_prefix inherited theirsWhole with done | short
        · exact done
        · have := bound y (short.subset hy)
          omega
    · exact absurd (ih V hVU hTV ledV) missing

theorem Committed.mono (h : Later s t) (hi : Inv term Q s) {T i : ℕ}
    (hc : Committed term Q s T i) : Committed term Q t T i := by
  obtain ⟨led, own, voters, quorum, confirmed⟩ := hc
  refine ⟨h.grows.leader_ne led, ?_, voters, quorum, fun v hv => h.acked v T i (confirmed v hv)⟩
  obtain ⟨v, hv⟩ := Q.nonempty quorum
  rw [← termAt_of_initial term (h.grows T led).2.2 (hi.acked_length v T i (confirmed v hv))]
  exact own

/-- `log` is part of what some leader up to term `T` has committed. -/
def Settled (term : α → ℕ) (Q : QuorumSystem N) (s : State N α) (T : ℕ) (log : List α) : Prop :=
  log = [] ∨ ∃ U i, U ≤ T ∧ Committed term Q s U i ∧ log <+: (s.leaderLog U).take i

theorem Settled.nil (T : ℕ) : Settled term Q s T [] := Or.inl rfl

theorem Committed.settled {T i : ℕ} (hc : Committed term Q s T i) :
    Settled term Q s T ((s.leaderLog T).take i) :=
  Or.inr ⟨T, i, le_rfl, hc, List.prefix_rfl⟩

theorem Settled.initial {T : ℕ} {short long : List α} (h : Settled term Q s T long)
    (hp : short <+: long) : Settled term Q s T short := by
  rcases h with rfl | ⟨U, i, hU, hc, held⟩
  · exact Or.inl (List.prefix_nil.mp hp)
  · exact Or.inr ⟨U, i, hU, hc, hp.trans held⟩

theorem Settled.of_le {T U : ℕ} {log : List α} (h : Settled term Q s T log) (hU : T ≤ U) :
    Settled term Q s U log := by
  rcases h with empty | ⟨V, i, hV, hc, held⟩
  · exact Or.inl empty
  · exact Or.inr ⟨V, i, hV.trans hU, hc, held⟩

theorem Settled.mono (h : Later s t) (hi : Inv term Q s) {T : ℕ} {log : List α}
    (settled : Settled term Q s T log) : Settled term Q t T log := by
  rcases settled with empty | ⟨U, i, hU, hc, held⟩
  · exact Or.inl empty
  · refine Or.inr ⟨U, i, hU, hc.mono h hi, ?_⟩
    obtain ⟨led, _, voters, quorum, confirmed⟩ := hc
    obtain ⟨v, hv⟩ := Q.nonempty quorum
    rwa [h.grows.take_eq led (hi.acked_length v U i (confirmed v hv))]

theorem Settled.prefix_leaderLog (hi : Inv term Q s) {T U : ℕ} {log : List α}
    (h : Settled term Q s T log) (hU : T ≤ U) (led : s.leader U ≠ none) :
    log <+: s.leaderLog U := by
  rcases h with rfl | ⟨V, i, hV, hc, held⟩
  · exact List.nil_prefix
  · rcases lt_or_eq_of_le (hV.trans hU) with less | rfl
    · exact held.trans ((hc.leader_completeness hi U less led).trans (hi.electLog_initial led))
    · exact held.trans (take_initial i _)

theorem Settled.comparable (hi : Inv term Q s) {T U : ℕ} {first second : List α}
    (hf : Settled term Q s T first) (hs : Settled term Q s U second) :
    first <+: second ∨ second <+: first := by
  rcases hf with rfl | ⟨V, i, _, hv, heldV⟩
  · exact Or.inl List.nil_prefix
  rcases hs with rfl | ⟨W, j, _, hw, heldW⟩
  · exact Or.inr List.nil_prefix
  have shareV : Settled term Q s V first := Or.inr ⟨V, i, le_rfl, hv, heldV⟩
  have shareW : Settled term Q s W second := Or.inr ⟨W, j, le_rfl, hw, heldW⟩
  rcases le_total V W with hVW | hWV
  · exact List.prefix_or_prefix_of_prefix (shareV.prefix_leaderLog hi hVW hw.1)
      (shareW.prefix_leaderLog hi le_rfl hw.1)
  · exact List.prefix_or_prefix_of_prefix (shareV.prefix_leaderLog hi le_rfl hv.1)
      (shareW.prefix_leaderLog hi hWV hv.1)

theorem Settled.kept [DecidableEq N] (hs : Step term Q s t) (hi : Inv term Q s) {v : N}
    {log : List α} (h : Settled term Q s (s.term v) log) (held : log <+: s.log v) :
    log <+: t.log v := by
  cases hs with
  | stay => exact held
  | adopt u T later => exact held
  | timeout u => exact held
  | grant u c T current free stands recent => exact held
  | elect c vacant same won => exact held
  | append c e leads own =>
    by_cases hv : v = c
    · subst hv
      simpa [State.append] using held.trans (List.prefix_append _ _)
    · simpa [State.append, hv] using held
  | install u c T m result current leads other within merged =>
    by_cases hv : v = u
    · subst hv
      simp only [State.install, Function.update_self]
      rcases merged with ⟨_, rfl⟩ | ⟨fresh, rfl⟩
      · exact held
      · have inside := h.prefix_leaderLog hi current (by simp [leads])
        rcases List.prefix_or_prefix_of_prefix inside (take_initial m (s.leaderLog T)) with
          done | short
        · exact done
        · exact absurd (short.trans held) fresh
    · simpa [State.install, hv] using held

theorem Inv.holds_acked (hi : Inv term Q s) {v : N} {m : ℕ} (h : s.acked v (s.term v) m) :
    (s.leaderLog (s.term v)).take m <+: s.log v := by
  rcases hi.acked_retained v _ m h with held | ⟨V, low, high, _⟩
  · exact held
  · omega

end Zdb.LogReplication
