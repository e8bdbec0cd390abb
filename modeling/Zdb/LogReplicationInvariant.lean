import Zdb.LogReplication

/-! The protocol keeps its invariant. What leaders hold only grows, so facts
about earlier leaders carry over; each operation then adds its own clause. -/

namespace Zdb.LogReplication
open TermLog

variable {N α : Type*} {term : α → ℕ} {Q : QuorumSystem N} {s t : State N α}

def Grows (s t : State N α) : Prop :=
  ∀ T, s.leader T ≠ none →
    t.leader T = s.leader T ∧ t.electLog T = s.electLog T ∧ s.leaderLog T <+: t.leaderLog T

theorem Grows.refl (s : State N α) : Grows s s := fun _ _ => ⟨rfl, rfl, List.prefix_rfl⟩

theorem Grows.trans {u : State N α} (first : Grows s t) (second : Grows t u) : Grows s u := by
  intro T hT
  obtain ⟨leader, elect, led⟩ := first T hT
  obtain ⟨leader', elect', led'⟩ := second T (by rwa [leader])
  exact ⟨leader'.trans leader, elect'.trans elect, led.trans led'⟩

theorem Grows.leader_ne (h : Grows s t) {T : ℕ} (hT : s.leader T ≠ none) : t.leader T ≠ none := by
  rw [(h T hT).1]
  exact hT

theorem Grows.take_eq (h : Grows s t) {T m : ℕ} (hT : s.leader T ≠ none)
    (hm : m ≤ (s.leaderLog T).length) : (t.leaderLog T).take m = (s.leaderLog T).take m :=
  take_eq_of_initial (h T hT).2.2 hm

theorem Chain.grows (h : Grows s t) {log : List α} (hc : Chain term s log) :
    Chain term t log := by
  intro i e he
  obtain ⟨led, held⟩ := hc i e he
  exact ⟨h.leader_ne led, held.trans (h _ led).2.2⟩

theorem Chain.initial {short long : List α} (hc : Chain term s long) (h : short <+: long) :
    Chain term s short := by
  intro i e he
  obtain ⟨rest, rfl⟩ := h
  have hi : i < short.length := (List.getElem?_eq_some_iff.mp he).1
  have found := hc i e (by rw [List.getElem?_append_left hi]; exact he)
  rwa [List.take_append_of_le_length (by omega)] at found

theorem Retains.grows (h : Grows s t) {T m : ℕ} {log : List α} {U U' : ℕ}
    (hT : s.leader T ≠ none) (hm : m ≤ (s.leaderLog T).length) (hU : U ≤ U')
    (hr : Retains s T m log U) : Retains t T m log U' := by
  rcases hr with held | ⟨V, hTV, hVU, hV, missing⟩
  · exact Or.inl (by rwa [h.take_eq hT hm])
  · refine Or.inr ⟨V, hTV, by omega, h.leader_ne hV, ?_⟩
    rwa [h.take_eq hT hm, (h V hV).2.1]

theorem Inv.leader_ballot (hi : Inv term Q s) {T : ℕ} {c : N} (h : s.leader T = some c) :
    s.ballot c T = some c := by
  obtain ⟨voters, quorum, all⟩ := hi.leader_quorum T c h
  obtain ⟨v, hv⟩ := Q.nonempty quorum
  exact hi.ballot_self v T c (all v hv).1

theorem Inv.leader_pos (hi : Inv term Q s) {T : ℕ} {c : N} (h : s.leader T = some c) : 0 < T :=
  hi.ballot_pos c T c (hi.leader_ballot h)

theorem Inv.leader_le (hi : Inv term Q s) {T : ℕ} {c : N} (h : s.leader T = some c) :
    T ≤ s.term c := hi.ballot_le c T c (hi.leader_ballot h)

theorem Inv.electLog_earlier (hi : Inv term Q s) {T : ℕ} {c : N} (h : s.leader T = some c) :
    ∀ e ∈ s.electLog T, term e < T := by
  rw [hi.leader_elected T c h]
  exact hi.ballot_earlier c T c (hi.leader_ballot h)

theorem Inv.leaderLog_term (hi : Inv term Q s) {T : ℕ} (h : s.leader T ≠ none) :
    ∀ e ∈ s.leaderLog T, term e ≤ T := by
  obtain ⟨c, hc⟩ := Option.ne_none_iff_exists'.mp h
  obtain ⟨own, split, all⟩ := hi.leader_extends T c hc
  intro e he
  rw [split, List.mem_append] at he
  rcases he with he | he
  · exact (hi.electLog_earlier hc e he).le
  · exact (all e he).le

theorem Inv.electLog_initial (hi : Inv term Q s) {T : ℕ} (h : s.leader T ≠ none) :
    s.electLog T <+: s.leaderLog T := by
  obtain ⟨c, hc⟩ := Option.ne_none_iff_exists'.mp h
  obtain ⟨own, split, _⟩ := hi.leader_extends T c hc
  exact ⟨own, split.symm⟩

theorem Inv.term_le_lastTerm (hi : Inv term Q s) {log : List α} (hc : Chain term s log) :
    ∀ e ∈ log, term e ≤ lastTerm term log := by
  intro e he
  rcases List.eq_nil_or_concat log with rfl | ⟨front, last, rfl⟩
  · simp at he
  · simp only [List.concat_eq_append, lastTerm_append_singleton] at he hc ⊢
    obtain ⟨led, held⟩ := hc front.length last (by simp)
    rw [List.take_of_length_le (by simp)] at held
    exact hi.leaderLog_term led e (held.subset he)

theorem Pledged.confirm (hi : Inv term Q s) (grows : Grows s t) {v u c : N} {T U m : ℕ}
    (cast : s.ballot u U = some c) (current : s.term v ≤ T) (same : t.ballotLog = s.ballotLog)
    (acked : t.acked = s.confirm v T m) (hp : Pledged s u U) : Pledged t u U := by
  intro W k hk hWU
  rw [acked] at hk
  rw [same]
  rcases hk with hk | ⟨rfl, rfl, _⟩
  · exact Retains.grows grows (hi.acked_leader u W k hk) (hi.acked_length u W k hk) le_rfl
      (hp W k hk hWU)
  · have := hi.ballot_le u U c cast
    omega

theorem Inv.retains_merged (hi : Inv term Q s) {v : N} {T m U k : ℕ} {result : List α}
    (led : s.leader T ≠ none) (current : s.term v ≤ T)
    (merged : Merged (s.log v) ((s.leaderLog T).take m) result) (h : s.acked v U k) :
    Retains s U k result (T + 1) := by
  have hU := hi.acked_le v U k h
  rcases hi.acked_retained v U k h with held | ⟨V, hUV, hV, ledV, missing⟩
  · rcases merged with ⟨_, rfl⟩ | ⟨fresh, rfl⟩
    · exact Or.inl held
    · have inside : (s.leaderLog U).take k <+: s.leaderLog T →
          (s.leaderLog U).take k <+: (s.leaderLog T).take m := by
        intro within
        rcases List.prefix_or_prefix_of_prefix within (take_initial m (s.leaderLog T)) with
          shorter | longer
        · exact shorter
        · exact absurd (longer.trans held) fresh
      rcases lt_or_eq_of_le (hU.trans current) with less | rfl
      · by_cases elected : (s.leaderLog U).take k <+: s.electLog T
        · exact Or.inl (inside (elected.trans (hi.electLog_initial led)))
        · exact Or.inr ⟨T, less, by omega, led, elected⟩
      · exact Or.inl (inside (take_initial k _))
  · exact Or.inr ⟨V, hUV, by omega, ledV, missing⟩

theorem Inv.elect (hi : Inv term Q s) {c : N} (vacant : s.leader (s.term c) = none)
    (same : s.log c = s.ballotLog c (s.term c))
    (won : Q.IsQuorum {v | s.ballot v (s.term c) = some c}) : Inv term Q (s.elect c) := by
  have off : ∀ {T}, s.leader T ≠ none → T ≠ s.term c := by
    rintro T hT rfl
    exact hT vacant
  have grows : Grows s (s.elect c) := by
    intro T hT
    simp [State.elect, Function.update_of_ne (off hT)]
  have stood : s.ballot c (s.term c) = some c := by
    obtain ⟨v, hv⟩ := Q.nonempty won
    exact hi.ballot_self v _ c hv
  have cases : ∀ {T d}, (s.elect c).leader T = some d →
      (T = s.term c ∧ d = c) ∨ (T ≠ s.term c ∧ s.leader T = some d) := by
    intro T d h
    by_cases hT : T = s.term c
    · subst hT
      simp only [State.elect, Function.update_self, Option.some.injEq] at h
      exact Or.inl ⟨rfl, h.symm⟩
    · simp only [State.elect, Function.update_of_ne hT] at h
      exact Or.inr ⟨hT, h⟩
  have pledged : ∀ {u U d}, s.ballot u U = some d → Pledged s u U → Pledged (s.elect c) u U :=
    fun h hp => hp.confirm hi grows h le_rfl rfl rfl
  refine
    { ballot_pos := hi.ballot_pos
      ballot_le := hi.ballot_le
      ballot_self := hi.ballot_self
      ballot_recent := hi.ballot_recent
      ballot_chain := fun u U d h => (hi.ballot_chain u U d h).grows grows
      ballot_earlier := hi.ballot_earlier
      ballot_pledged := ?_
      leader_quorum := ?_
      leader_elected := ?_
      leader_extends := ?_
      leader_chain := ?_
      leader_holds := ?_
      log_chain := fun u => (hi.log_chain u).grows grows
      log_term := hi.log_term
      acked_leader := ?_
      acked_length := ?_
      acked_le := ?_
      acked_retained := ?_ }
  · intro u U d h none
    refine pledged h (hi.ballot_pledged u U d h ?_)
    by_contra led
    exact grows.leader_ne led none
  · intro T d h
    rcases cases h with ⟨rfl, rfl⟩ | ⟨_, h⟩
    · refine ⟨_, won, fun u hu => ⟨hu, ?_⟩⟩
      exact pledged hu (hi.ballot_pledged u _ _ hu vacant)
    · obtain ⟨voters, quorum, all⟩ := hi.leader_quorum T d h
      exact ⟨voters, quorum, fun u hu => ⟨(all u hu).1, pledged (all u hu).1 (all u hu).2⟩⟩
  · intro T d h
    rcases cases h with ⟨rfl, rfl⟩ | ⟨hT, h⟩
    · simpa [State.elect] using same
    · simpa [State.elect, Function.update_of_ne hT] using hi.leader_elected T d h
  · intro T d h
    rcases cases h with ⟨rfl, rfl⟩ | ⟨hT, h⟩
    · exact ⟨[], by simp [State.elect]⟩
    · simpa [State.elect, Function.update_of_ne hT] using hi.leader_extends T d h
  · intro T d h
    rcases cases h with ⟨rfl, rfl⟩ | ⟨hT, h⟩
    · have own : (s.elect d).leaderLog (s.term d) = s.log d := by simp [State.elect]
      rw [own]
      exact (hi.log_chain d).grows grows
    · have kept : (s.elect c).leaderLog T = s.leaderLog T := by
        simp [State.elect, Function.update_of_ne hT]
      rw [kept]
      exact (hi.leader_chain T d h).grows grows
  · intro u hu
    rcases cases hu with ⟨hT, rfl⟩ | ⟨hT, h⟩
    · simp [State.elect]
    · have apart : s.term u ≠ s.term c := hT
      have kept : (s.elect c).leaderLog (s.term u) = s.leaderLog (s.term u) := by
        simp [State.elect, Function.update_of_ne apart]
      exact (hi.leader_holds u h).trans kept.symm
  · rintro u U k (h | ⟨rfl, rfl, _⟩)
    · exact grows.leader_ne (hi.acked_leader u U k h)
    · simp [State.elect]
  · rintro u U k (h | ⟨rfl, rfl, hk⟩)
    · exact (hi.acked_length u U k h).trans (grows U (hi.acked_leader u U k h)).2.2.length_le
    · simpa [State.elect] using hk
  · rintro u U k (h | ⟨rfl, rfl, _⟩)
    · exact hi.acked_le u U k h
    · exact le_rfl
  · rintro u U k (h | ⟨rfl, rfl, _⟩)
    · exact (hi.acked_retained u U k h).grows grows (hi.acked_leader u U k h)
        (hi.acked_length u U k h) le_rfl
    · refine Or.inl ?_
      simpa [State.elect] using take_initial k (s.log u)

section Operations
variable [DecidableEq N]

theorem cast_ballot (s : State N α) (v c : N) (T : ℕ) (u : N) (U : ℕ) :
    (s.cast v c T).ballot u U = if u = v ∧ U = T then some c else s.ballot u U := by
  by_cases hu : u = v <;> by_cases hU : U = T <;> simp [State.cast, hu, hU]

theorem cast_ballotLog (s : State N α) (v c : N) (T : ℕ) (u : N) (U : ℕ) :
    (s.cast v c T).ballotLog u U = if u = v ∧ U = T then s.log v else s.ballotLog u U := by
  by_cases hu : u = v <;> by_cases hU : U = T <;> simp [State.cast, hu, hU]

theorem le_update_term {s : State N α} {v : N} {T : ℕ} (current : s.term v ≤ T) (u : N) :
    s.term u ≤ Function.update s.term v T u := by
  by_cases hu : u = v
  · simpa [hu] using current
  · simp [hu]

theorem Inv.adopt (hi : Inv term Q s) {v : N} {T : ℕ} (later : s.term v < T) :
    Inv term Q (s.adopt v T) := by
  have same : Grows s (s.adopt v T) := Grows.refl s
  have grew := le_update_term later.le
  refine
    { ballot_pos := hi.ballot_pos
      ballot_le := fun u U c h => (hi.ballot_le u U c h).trans (grew u)
      ballot_self := hi.ballot_self
      ballot_recent := hi.ballot_recent
      ballot_chain := hi.ballot_chain
      ballot_earlier := hi.ballot_earlier
      ballot_pledged := hi.ballot_pledged
      leader_quorum := hi.leader_quorum
      leader_elected := hi.leader_elected
      leader_extends := hi.leader_extends
      leader_chain := hi.leader_chain
      leader_holds := ?_
      log_chain := hi.log_chain
      log_term := fun u e he => (hi.log_term u e he).trans (grew u)
      acked_leader := hi.acked_leader
      acked_length := hi.acked_length
      acked_le := fun u U m h => (hi.acked_le u U m h).trans (grew u)
      acked_retained := fun u U m h => ?_ }
  · intro u hu
    by_cases huv : u = v
    · subst huv
      simp only [State.adopt, Function.update_self] at hu
      have := hi.leader_le hu
      omega
    · simp only [State.adopt, Function.update_of_ne huv] at hu ⊢
      exact hi.leader_holds u hu
  · exact Retains.grows same (hi.acked_leader u U m h) (hi.acked_length u U m h)
      (Nat.succ_le_succ (grew u)) (hi.acked_retained u U m h)

theorem Inv.cast (hi : Inv term Q s) {v c : N} {T : ℕ} (current : s.term v ≤ T) (pos : 0 < T)
    (free : s.ballot v T = none) (stands : c = v ∨ s.ballot c T = some c)
    (recent : UpToDate term ((s.cast v c T).ballotLog c T) (s.log v))
    (earlier : ∀ e ∈ s.log v, term e < T)
    (vacant : ∀ V ≤ s.term v, s.leader V ≠ none → s.leader T = none → V < T) :
    Inv term Q (s.cast v c T) := by
  have same : Grows s (s.cast v c T) := Grows.refl s
  have grew := le_update_term current
  have old : ∀ {u U d}, s.ballot u U = some d → ¬ (u = v ∧ U = T) := by
    rintro u U d h ⟨rfl, rfl⟩
    simp [free] at h
  have kept : ∀ {u U d}, s.ballot u U = some d →
      (s.cast v c T).ballot u U = some d ∧ (s.cast v c T).ballotLog u U = s.ballotLog u U := by
    intro u U d h
    rw [cast_ballot, cast_ballotLog, if_neg (old h), if_neg (old h)]
    exact ⟨h, rfl⟩
  have cases : ∀ {u U d}, (s.cast v c T).ballot u U = some d →
      (u = v ∧ U = T ∧ d = c ∧ (s.cast v c T).ballotLog u U = s.log v) ∨
        s.ballot u U = some d := by
    intro u U d h
    rw [cast_ballot] at h
    split_ifs at h with here
    · obtain ⟨rfl, rfl⟩ := here
      exact Or.inl ⟨rfl, rfl, (Option.some.inj h).symm, by simp [cast_ballotLog]⟩
    · exact Or.inr h
  have pledged : ∀ {u U d}, s.ballot u U = some d → Pledged s u U →
      Pledged (s.cast v c T) u U := by
    intro u U d h hp W m hw hWU
    rw [(kept h).2]
    exact hp W m hw hWU
  refine
    { ballot_pos := ?_
      ballot_le := ?_
      ballot_self := ?_
      ballot_recent := ?_
      ballot_chain := ?_
      ballot_earlier := ?_
      ballot_pledged := ?_
      leader_quorum := ?_
      leader_elected := ?_
      leader_extends := hi.leader_extends
      leader_chain := hi.leader_chain
      leader_holds := ?_
      log_chain := hi.log_chain
      log_term := fun u e he => (hi.log_term u e he).trans (grew u)
      acked_leader := hi.acked_leader
      acked_length := hi.acked_length
      acked_le := fun u U m h => (hi.acked_le u U m h).trans (grew u)
      acked_retained := ?_ }
  · intro u U d h
    rcases cases h with ⟨_, rfl, _, _⟩ | h
    · exact pos
    · exact hi.ballot_pos u U d h
  · intro u U d h
    rcases cases h with ⟨rfl, rfl, _, _⟩ | h
    · simp [State.cast]
    · exact (hi.ballot_le u U d h).trans (grew u)
  · intro u U d h
    rcases cases h with ⟨rfl, rfl, rfl, _⟩ | h
    · rcases stands with rfl | stands
      · exact h
      · exact (kept stands).1
    · exact (kept (hi.ballot_self u U d h)).1
  · intro u U d h
    rcases cases h with ⟨rfl, rfl, rfl, mine⟩ | h
    · rw [mine]
      exact recent
    · rw [(kept h).2, (kept (hi.ballot_self u U d h)).2]
      exact hi.ballot_recent u U d h
  · intro u U d h
    rcases cases h with ⟨rfl, rfl, rfl, mine⟩ | h
    · rw [mine]
      exact hi.log_chain u
    · rw [(kept h).2]
      exact hi.ballot_chain u U d h
  · intro u U d h
    rcases cases h with ⟨rfl, rfl, rfl, mine⟩ | h
    · rw [mine]
      exact earlier
    · rw [(kept h).2]
      exact hi.ballot_earlier u U d h
  · intro u U d h none
    rcases cases h with ⟨rfl, rfl, rfl, mine⟩ | h
    · intro W m hw _
      rw [mine]
      rcases hi.acked_retained u W m hw with held | ⟨V, hWV, hV, led, missing⟩
      · exact Or.inl held
      · exact Or.inr ⟨V, hWV, vacant V (by omega) led none, led, missing⟩
    · exact pledged h (hi.ballot_pledged u U d h none)
  · intro U d h
    obtain ⟨voters, quorum, all⟩ := hi.leader_quorum U d h
    refine ⟨voters, quorum, fun u hu => ?_⟩
    obtain ⟨voted, hp⟩ := all u hu
    exact ⟨(kept voted).1, pledged voted hp⟩
  · intro U d h
    rw [(kept (hi.leader_ballot h)).2]
    exact hi.leader_elected U d h
  · intro u hu
    by_cases huv : u = v
    · subst huv
      simp only [State.cast, Function.update_self] at hu
      simp [hi.leader_ballot hu] at free
    · simp only [State.cast, Function.update_of_ne huv] at hu ⊢
      exact hi.leader_holds u hu
  · intro u U m h
    exact Retains.grows same (hi.acked_leader u U m h) (hi.acked_length u U m h)
      (Nat.succ_le_succ (grew u)) (hi.acked_retained u U m h)

theorem Inv.timeout (hi : Inv term Q s) (v : N) :
    Inv term Q (s.cast v v (s.term v + 1)) := by
  refine hi.cast (by omega) (by omega) ?_ (Or.inl rfl) ?_ ?_ ?_
  · by_contra cast
    obtain ⟨c, hc⟩ := Option.ne_none_iff_exists'.mp cast
    have := hi.ballot_le v _ c hc
    omega
  · simp only [cast_ballotLog, and_self, if_true]
    exact UpToDate.refl term _
  · intro e he
    have := hi.log_term v e he
    omega
  · intro V hV _ _
    omega

theorem Inv.grant (hi : Inv term Q s) {v c : N} {T : ℕ} (current : s.term v ≤ T)
    (free : s.ballot v T = none) (stands : s.ballot c T = some c)
    (recent : UpToDate term (s.ballotLog c T) (s.log v)) : Inv term Q (s.cast v c T) := by
  have pos := hi.ballot_pos c T c stands
  have apart : ¬ (c = v ∧ T = T) := by
    rintro ⟨rfl, _⟩
    simp [free] at stands
  refine hi.cast current pos free (Or.inr stands) ?_ ?_ ?_
  · rwa [cast_ballotLog, if_neg apart]
  · intro e he
    have low := hi.term_le_lastTerm (hi.log_chain v) e he
    have mid := recent.lastTerm_le
    have high : lastTerm term (s.ballotLog c T) < T := by
      rcases List.eq_nil_or_concat (s.ballotLog c T) with empty | ⟨front, last, full⟩
      · simpa [empty] using pos
      · rw [full, List.concat_eq_append, lastTerm_append_singleton]
        exact hi.ballot_earlier c T c stands last (by simp [full])
    omega
  · intro V hV led none
    rcases lt_or_eq_of_le (hV.trans current) with less | rfl
    · exact less
    · exact absurd none led

theorem Inv.append (hi : Inv term Q s) {c : N} {e : α} (leads : s.leader (s.term c) = some c)
    (own : term e = s.term c) : Inv term Q (s.append c e) := by
  have holds := hi.leader_holds c leads
  have grows : Grows s (s.append c e) := by
    intro T hT
    refine ⟨rfl, rfl, ?_⟩
    by_cases h : T = s.term c
    · subst h
      simp [State.append, ← holds]
    · simp [State.append, Function.update_of_ne h]
  have now : (s.append c e).leaderLog (s.term c) = s.log c ++ [e] := by simp [State.append]
  have chained : Chain term (s.append c e) (s.log c ++ [e]) := by
    intro i x hx
    rcases Nat.lt_or_ge i (s.log c).length with hi' | hi'
    · rw [List.getElem?_append_left hi'] at hx
      rw [List.take_append_of_le_length (by omega)]
      exact (hi.log_chain c).grows grows i x hx
    · have hx' : i = (s.log c).length ∧ e = x := by
        rw [List.getElem?_append_right hi'] at hx
        obtain ⟨hlt, hget⟩ := List.getElem?_eq_some_iff.mp hx
        simp only [List.length_singleton] at hlt
        exact ⟨by omega, by simpa using hget⟩
      obtain ⟨rfl, rfl⟩ := hx'
      rw [own, now, List.take_of_length_le (by simp)]
      exact ⟨by simp [State.append, leads], List.prefix_rfl⟩
  have pledged : ∀ {u U d}, s.ballot u U = some d → Pledged s u U → Pledged (s.append c e) u U :=
    fun h hp => hp.confirm hi grows h le_rfl rfl rfl
  refine
    { ballot_pos := hi.ballot_pos
      ballot_le := hi.ballot_le
      ballot_self := hi.ballot_self
      ballot_recent := hi.ballot_recent
      ballot_chain := fun u U d h => (hi.ballot_chain u U d h).grows grows
      ballot_earlier := hi.ballot_earlier
      ballot_pledged := fun u U d h none => pledged h (hi.ballot_pledged u U d h none)
      leader_quorum := ?_
      leader_elected := hi.leader_elected
      leader_extends := ?_
      leader_chain := ?_
      leader_holds := ?_
      log_chain := ?_
      log_term := ?_
      acked_leader := ?_
      acked_length := ?_
      acked_le := ?_
      acked_retained := ?_ }
  · intro T d h
    obtain ⟨voters, quorum, all⟩ := hi.leader_quorum T d h
    exact ⟨voters, quorum, fun u hu => ⟨(all u hu).1, pledged (all u hu).1 (all u hu).2⟩⟩
  · intro T d h
    obtain ⟨tail, split, all⟩ := hi.leader_extends T d h
    by_cases hT : T = s.term c
    · subst hT
      refine ⟨tail ++ [e], ?_, ?_⟩
      · change (s.append c e).leaderLog (s.term c) = s.electLog (s.term c) ++ (tail ++ [e])
        rw [now, holds, split, List.append_assoc]
      · intro x hx
        rcases List.mem_append.mp hx with hx | hx
        · exact all x hx
        · obtain rfl : x = e := by simpa using hx
          exact own
    · refine ⟨tail, ?_, all⟩
      simpa [State.append, Function.update_of_ne hT] using split
  · intro T d h
    by_cases hT : T = s.term c
    · subst hT
      rw [now]
      exact chained
    · have kept : (s.append c e).leaderLog T = s.leaderLog T := by
        simp [State.append, Function.update_of_ne hT]
      rw [kept]
      exact (hi.leader_chain T d h).grows grows
  · intro u hu
    by_cases huc : u = c
    · subst huc
      simp [State.append]
    · have hT : s.term u ≠ s.term c := by
        intro same
        have other : s.leader (s.term u) = some u := hu
        rw [same, leads] at other
        exact huc (Option.some.inj other).symm
      have kept : (s.append c e).leaderLog (s.term u) = s.leaderLog (s.term u) := by
        simp [State.append, Function.update_of_ne hT]
      have mine : (s.append c e).log u = s.log u := by simp [State.append, huc]
      rw [mine]
      exact (hi.leader_holds u hu).trans kept.symm
  · intro u
    by_cases huc : u = c
    · subst huc
      simpa [State.append] using chained
    · have mine : (s.append c e).log u = s.log u := by simp [State.append, huc]
      rw [mine]
      exact (hi.log_chain u).grows grows
  · intro u x hx
    by_cases huc : u = c
    · subst huc
      simp only [State.append, Function.update_self, List.mem_append, List.mem_singleton] at hx
      rcases hx with hx | rfl
      · exact hi.log_term u x hx
      · exact own.le
    · simp only [State.append, Function.update_of_ne huc] at hx
      exact hi.log_term u x hx
  · rintro u U k (h | ⟨rfl, rfl, _⟩)
    · exact hi.acked_leader u U k h
    · simp [State.append, leads]
  · rintro u U k (h | ⟨rfl, rfl, hk⟩)
    · exact (hi.acked_length u U k h).trans (grows U (hi.acked_leader u U k h)).2.2.length_le
    · rw [now]
      exact hk
  · rintro u U k (h | ⟨rfl, rfl, _⟩)
    · exact hi.acked_le u U k h
    · exact le_rfl
  · rintro u U k (h | ⟨rfl, rfl, _⟩)
    · have kept := (hi.acked_retained u U k h).grows grows (hi.acked_leader u U k h)
        (hi.acked_length u U k h) (le_refl (s.term u + 1))
      rcases kept with held | missing
      · refine Or.inl (held.trans ?_)
        by_cases huc : u = c
        · subst huc
          simp [State.append]
        · simp [State.append, huc]
      · exact Or.inr missing
    · refine Or.inl ?_
      rw [now]
      simpa [State.append] using take_initial k (s.log u ++ [e])

theorem Inv.install (hi : Inv term Q s) {v c : N} {T m : ℕ} {result : List α}
    (current : s.term v ≤ T) (leads : s.leader T = some c) (other : v ≠ c)
    (within : m ≤ (s.leaderLog T).length)
    (merged : Merged (s.log v) ((s.leaderLog T).take m) result) :
    Inv term Q (s.install v T m result) := by
  have grows : Grows s (s.install v T m result) := Grows.refl s
  have led : s.leader T ≠ none := by simp [leads]
  have grew := le_update_term current
  have pledged : ∀ {u U d}, s.ballot u U = some d → Pledged s u U →
      Pledged (s.install v T m result) u U :=
    fun h hp => hp.confirm hi grows h current rfl rfl
  refine
    { ballot_pos := hi.ballot_pos
      ballot_le := fun u U d h => (hi.ballot_le u U d h).trans (grew u)
      ballot_self := hi.ballot_self
      ballot_recent := hi.ballot_recent
      ballot_chain := hi.ballot_chain
      ballot_earlier := hi.ballot_earlier
      ballot_pledged := fun u U d h none => pledged h (hi.ballot_pledged u U d h none)
      leader_quorum := ?_
      leader_elected := hi.leader_elected
      leader_extends := hi.leader_extends
      leader_chain := hi.leader_chain
      leader_holds := ?_
      log_chain := ?_
      log_term := ?_
      acked_leader := ?_
      acked_length := ?_
      acked_le := ?_
      acked_retained := ?_ }
  · intro U d h
    obtain ⟨voters, quorum, all⟩ := hi.leader_quorum U d h
    exact ⟨voters, quorum, fun u hu => ⟨(all u hu).1, pledged (all u hu).1 (all u hu).2⟩⟩
  · intro u hu
    by_cases huv : u = v
    · subst huv
      simp only [State.install, Function.update_self, leads, Option.some.injEq] at hu
      exact absurd hu.symm other
    · simp only [State.install, Function.update_of_ne huv] at hu ⊢
      exact hi.leader_holds u hu
  · intro u
    by_cases huv : u = v
    · subst huv
      have mine : (s.install u T m result).log u = result := by simp [State.install]
      rw [mine]
      rcases merged with ⟨_, rfl⟩ | ⟨_, rfl⟩
      · exact (hi.log_chain u).grows grows
      · exact ((hi.leader_chain T c leads).initial (take_initial m _)).grows grows
    · have kept : (s.install v T m result).log u = s.log u := by simp [State.install, huv]
      rw [kept]
      exact (hi.log_chain u).grows grows
  · intro u e he
    by_cases huv : u = v
    · subst huv
      simp only [State.install, Function.update_self] at he ⊢
      rcases merged with ⟨_, rfl⟩ | ⟨_, rfl⟩
      · exact (hi.log_term u e he).trans current
      · exact hi.leaderLog_term led e ((take_initial m _).subset he)
    · simp only [State.install, Function.update_of_ne huv] at he ⊢
      exact hi.log_term u e he
  · rintro u U k (h | ⟨_, rfl, _⟩)
    · exact hi.acked_leader u U k h
    · exact led
  · rintro u U k (h | ⟨_, rfl, hk⟩)
    · exact hi.acked_length u U k h
    · exact hk.trans within
  · rintro u U k (h | ⟨rfl, rfl, _⟩)
    · exact (hi.acked_le u U k h).trans (grew u)
    · simp [State.install]
  · rintro u U k (h | ⟨rfl, rfl, hk⟩)
    · have lead := hi.acked_leader u U k h
      have len := hi.acked_length u U k h
      by_cases huv : u = v
      · subst huv
        have mine : (s.install u T m result).log u = result := by simp [State.install]
        have now : (s.install u T m result).term u = T := by simp [State.install]
        rw [mine, now]
        exact (hi.retains_merged led current merged h).grows grows lead len le_rfl
      · have kept : (s.install v T m result).log u = s.log u := by simp [State.install, huv]
        have still : (s.install v T m result).term u = s.term u := by simp [State.install, huv]
        rw [kept, still]
        exact (hi.acked_retained u U k h).grows grows lead len le_rfl
    · refine Or.inl ?_
      simp only [State.install, Function.update_self]
      have short := List.take_prefix_take_left (l := s.leaderLog U) hk
      rcases merged with ⟨held, rfl⟩ | ⟨_, rfl⟩
      · exact short.trans held
      · exact short

end Operations

theorem Step.inv [DecidableEq N] (hs : Step term Q s t) (hi : Inv term Q s) : Inv term Q t := by
  cases hs with
  | stay => exact hi
  | adopt v T later => exact hi.adopt later
  | timeout v => exact hi.timeout v
  | grant v c T current free stands recent => exact hi.grant current free stands recent
  | elect c vacant same won => exact hi.elect vacant same won
  | append c e leads own => exact hi.append leads own
  | install v c T m result current leads other within merged =>
    exact hi.install current leads other within merged

theorem Step.grows [DecidableEq N] (hs : Step term Q s t) (hi : Inv term Q s) : Grows s t := by
  cases hs with
  | stay => exact Grows.refl s
  | adopt v T later => exact Grows.refl s
  | timeout v => exact Grows.refl s
  | grant v c T current free stands recent => exact Grows.refl s
  | elect c vacant same won =>
    intro T hT
    have off : T ≠ s.term c := by
      rintro rfl
      exact hT vacant
    simp [State.elect, Function.update_of_ne off]
  | append c e leads own =>
    intro T hT
    refine ⟨rfl, rfl, ?_⟩
    by_cases h : T = s.term c
    · subst h
      simp [State.append, ← hi.leader_holds c leads]
    · simp [State.append, Function.update_of_ne h]
  | install v c T m result current leads other within merged => exact Grows.refl s

theorem Step.acked_mono [DecidableEq N] (hs : Step term Q s t) {v : N} {T m : ℕ}
    (h : s.acked v T m) : t.acked v T m := by
  cases hs with
  | stay => exact h
  | adopt v T later => exact h
  | timeout v => exact h
  | grant v c T current free stands recent => exact h
  | elect c vacant same won => exact Or.inl h
  | append c e leads own => exact Or.inl h
  | install v c T m result current leads other within merged => exact Or.inl h

theorem Step.term_le [DecidableEq N] (hs : Step term Q s t) (v : N) : s.term v ≤ t.term v := by
  cases hs with
  | stay => exact le_rfl
  | adopt v T later => exact le_update_term later.le _
  | timeout v => exact le_update_term (by omega) _
  | grant v c T current free stands recent => exact le_update_term current _
  | elect c vacant same won => exact le_rfl
  | append c e leads own => exact le_rfl
  | install v c T m result current leads other within merged => exact le_update_term current _

structure Later (s t : State N α) : Prop where
  grows : Grows s t
  acked : ∀ v T m, s.acked v T m → t.acked v T m
  term : ∀ v, s.term v ≤ t.term v

theorem Later.refl (s : State N α) : Later s s :=
  ⟨Grows.refl s, fun _ _ _ h => h, fun _ => le_rfl⟩

theorem Later.trans {u : State N α} (first : Later s t) (second : Later t u) : Later s u where
  grows := first.grows.trans second.grows
  acked v T m h := second.acked v T m (first.acked v T m h)
  term v := (first.term v).trans (second.term v)

theorem Step.later [DecidableEq N] (hs : Step term Q s t) (hi : Inv term Q s) : Later s t :=
  ⟨hs.grows hi, fun _ _ _ => hs.acked_mono, hs.term_le⟩

theorem Step.ballotLog_kept [DecidableEq N] (hs : Step term Q s t) (hi : Inv term Q s) {v c : N}
    {T : ℕ} (voted : s.ballot v T = some c) : t.ballotLog v T = s.ballotLog v T := by
  cases hs with
  | timeout u =>
    rw [cast_ballotLog, if_neg]
    rintro ⟨rfl, rfl⟩
    have := hi.ballot_le v _ c voted
    omega
  | grant u d U current free stands recent =>
    rw [cast_ballotLog, if_neg]
    rintro ⟨rfl, rfl⟩
    rw [free] at voted
    contradiction
  | _ => rfl

end Zdb.LogReplication
