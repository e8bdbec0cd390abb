import Mathlib.Data.Set.Insert
import Zdb.Delivery
import Zdb.Origin

/-! Index and term name an entry. Only `start` makes entries; in a term only its
one leader runs `start`, and the last index of a log does not fall while its node
leads, whatever is compacted, repeated or lost. So no two entries that were ever
in the cluster share index and term, and what `raft_start` returns identifies the
command for good. -/

namespace Zdb.Raft
open LabelledRun

def nextEntry (n : Node) (command : Command) : LogEntry :=
  ⟨n.mainLog.lastIndex + 1, n.currentTerm, command⟩

inductive Occurs (s : Cluster) (e : LogEntry) : Prop
  | stored (v) (here : e ∈ (s.nodes v).mainLog.entries)
  | leaving (v caller i) (here : (s.nodes v).applyThread = some (caller, .sending i e))
  | delivered (v) (here : .command e ∈ (s.nodes v).stateMachine)
  | sent (arg) (ready : Prepared s arg) (here : e ∈ arg.entries.entries)

theorem Carried.occurs {P : LogEntry → Prop} {s : Cluster} {e : LogEntry} (inv : Carried P s)
    (here : Occurs s e) : P e := by
  cases here with
  | stored v here => exact (inv.node v).log e here
  | leaving v caller i here => exact (inv.node v).sending caller i e here
  | delivered v here => exact (inv.node v).channel e here
  | sent arg ready here => exact inv.sent arg ready e here

theorem atIter_getElem? {entries : List LogEntry} {i k : ℕ} {e : LogEntry}
    (h : Log.atIter entries i = some (k, e)) : entries[k]? = some e := by
  induction entries generalizing k with
  | nil => simp [Log.atIter] at h
  | cons first rest ih =>
    rw [Log.atIter] at h
    split_ifs at h
    · cases h
      rfl
    · obtain ⟨found, later, same⟩ := Option.map_eq_some_iff.mp h
      cases same
      exact ih later

namespace Log
variable {log : Log} {i : ℕ} {e : LogEntry}

theorem lastIndex_append (log : Log) (e : LogEntry) : (log.append e).lastIndex = e.index := by
  simp [lastIndex, append]

theorem lastIndex_trimPrefix (present : log.atIndex i = some e) (t : ℕ) :
    (log.trimPrefix i t).lastIndex = log.lastIndex := by
  obtain ⟨⟨k, e⟩, found, rfl⟩ := Option.map_eq_some_iff.mp present
  have place := atIter_getElem? found
  have index := atIter_index found
  obtain ⟨inside, _⟩ := List.getElem?_eq_some_iff.mp place
  simp only [lastIndex, trimPrefix, found]
  rcases Nat.lt_or_ge (k + 1) log.entries.length with more | done
  · rw [List.getLast?_drop, if_neg (by omega)]
    cases last : log.entries.getLast? with
    | none => simp [List.getLast?_eq_none_iff.mp last] at more
    | some e' => rfl
  · have last : log.entries.getLast? = some e := by
      rw [List.getLast?_eq_getElem?, show log.entries.length - 1 = k by omega, place]
    rw [List.drop_eq_nil_of_le done, last]
    exact index.symm

end Log

section Step
variable {m : Membership} {s : Cluster} {h : History} {v : PeerId} {n' : Node} {a : Action}
  {out : Output}

theorem History.Extends.leader_ne {k : History} {T : ℕ} (past : h.Extends k)
    (known : h.leader T ≠ none) : k.leader T ≠ none := by
  obtain ⟨c, led⟩ := Option.ne_none_iff_exists'.mp known
  simp [past.leader T c led]

theorem Electing.lastIndex_le (votes : Electing m s h) (msgs : Messaging m s h)
    (move : Move m.peers s.network v (s.nodes v) a n' out) (leads : n'.role = .leader) :
    (s.nodes v).mainLog.lastIndex ≤ n'.mainLog.lastIndex := by
  cases move with
  | accept => cases leads
  | install k call control found here current =>
    subst here
    obtain ⟨_, other, led⟩ := msgs.install call (List.mem_of_getElem? found)
    exact absurd leads (votes.roleIn_ne_leader led other current)
  | propose command =>
    rw [Log.lastIndex_append]
    exact Nat.le_succ _
  | compact index data e control clear above within present =>
    rw [Log.lastIndex_trimPrefix present]
  | reboot => cases leads
  | deliverReturn a d caller => cases caller <;> exact le_rfl
  | _ => exact le_rfl

structure Named (s : Cluster) (h : History) (started : Set LogEntry) : Prop where
  carried : Carried (· ∈ started) s
  unique : ∀ e ∈ started, ∀ e' ∈ started, e.index = e'.index → e.term = e'.term → e = e'
  led : ∀ e ∈ started, h.leader e.term ≠ none
  below : ∀ e ∈ started, ∀ v, (s.nodes v).role = .leader → (s.nodes v).currentTerm = e.term →
    e.index ≤ (s.nodes v).mainLog.lastIndex

namespace Named
variable {started : Set LogEntry}

theorem initial : Named Cluster.initial {} ∅ :=
  ⟨Carried.initial _, by simp, by simp, by simp⟩

theorem below_step (named : Named s h started) (votes : Electing m s h) (msgs : Messaging m s h)
    (member : v ∈ m.peers) (move : Move m.peers s.network v (s.nodes v) a n' out) :
    ∀ e ∈ started, ∀ u, ((s.update v n' out).nodes u).role = .leader →
      ((s.update v n' out).nodes u).currentTerm = e.term →
      e.index ≤ ((s.update v n' out).nodes u).mainLog.lastIndex := by
  intro e old
  refine Cluster.forall_nodes_update (P := fun _ n => n.role = .leader → n.currentTerm = e.term →
    e.index ≤ n.mainLog.lastIndex) ?_ fun u _ => named.below e old u
  intro leads term
  have known := named.led e old
  rw [← term] at known
  rcases votes.leader_step member move leads with mine | ⟨none, _⟩
  · have before : (s.nodes v).role = .leader := by
      obtain ⟨same, led | ⟨_, _, _, _, _, _, candidate, _⟩⟩ := move.leader_cases leads
      · exact led
      · rw [same] at mine
        exact absurd mine ((votes.node v).stands candidate).2.2.2
    have same := (move.leader_cases leads).1
    exact (named.below e old v before (same.symm.trans term)).trans
      (votes.lastIndex_le msgs move leads)
  · exact absurd none known

theorem calm (named : Named s h started) (votes : Electing m s h) (msgs : Messaging m s h)
    (member : v ∈ m.peers) (move : Move m.peers s.network v (s.nodes v) a n' out)
    (unchanged : ∀ command, a = .start v command → n'.mainLog = (s.nodes v).mainLog) :
    Named (s.update v n' out) (h.record v n' out) started := by
  refine ⟨named.carried.step move fun command called => Or.inr (unchanged command called),
    named.unique, fun e old => ?_, named.below_step votes msgs member move⟩
  exact (votes.extends_record member move).leader_ne (named.led e old)

theorem propose (named : Named s h started) (votes : Electing m s h) (msgs : Messaging m s h)
    (member : v ∈ m.peers) {command : Command} {control : Control}
    (leads : (s.nodes v).role = .leader) (clear : (s.nodes v).pendingSnapshot = false)
    (made : n' = { s.nodes v with
      mainLog := (s.nodes v).mainLog.append (nextEntry (s.nodes v) command)
      toControl := control }) :
    Named (s.update v n' .nothing) (h.record v n' .nothing)
      (insert (nextEntry (s.nodes v) command) started) := by
  subst made
  have move : Move m.peers s.network v (s.nodes v) (.start v command) _ .nothing :=
    .propose command control leads clear
  -- an entry of this term stands at or below the last index, so the new one is none of them
  have fresh : ∀ e ∈ started, e.index = (s.nodes v).mainLog.lastIndex + 1 →
      e.term ≠ (s.nodes v).currentTerm := by
    intro e old index term
    have := named.below e old v leads term.symm
    omega
  refine ⟨?_, ?_, ?_, ?_⟩
  · refine (named.carried.mono fun e old => Set.mem_insert_of_mem _ old).step move ?_
    intro command' same
    cases same
    exact Or.inl (Set.mem_insert _ _)
  · intro e member e' member' index term
    rcases Set.mem_insert_iff.mp member with rfl | old
    · rcases Set.mem_insert_iff.mp member' with rfl | old'
      · rfl
      · exact absurd term.symm (fresh e' old' index.symm)
    · rcases Set.mem_insert_iff.mp member' with rfl | old'
      · exact absurd term (fresh e old index)
      · exact named.unique e old e' old' index term
  · intro e member'
    refine (votes.extends_record member move).leader_ne ?_
    rcases Set.mem_insert_iff.mp member' with rfl | old
    · simp [nextEntry, (votes.node v).leads leads]
    · exact named.led e old
  · intro e member'
    rcases Set.mem_insert_iff.mp member' with rfl | old
    · refine Cluster.forall_nodes_update (P := fun _ n => n.role = .leader →
        n.currentTerm = (s.nodes v).currentTerm →
        (s.nodes v).mainLog.lastIndex + 1 ≤ n.mainLog.lastIndex) ?_ ?_
      · intro _ _
        exact (Log.lastIndex_append _ (nextEntry (s.nodes v) command)).ge
      · intro u apart leads' term
        have own := (votes.node v).leads leads
        have other := (votes.node u).leads leads'
        rw [term, own] at other
        exact absurd (Option.some.inj other).symm apart
    · exact named.below_step votes msgs member move e old

theorem step (named : Named s h started) (votes : Electing m s h) (msgs : Messaging m s h)
    (member : v ∈ m.peers) (move : Move m.peers s.network v (s.nodes v) a n' out) :
    ∃ started', started ⊆ started' ∧
      Named (s.update v n' out) (h.record v n' out) started' := by
  have whole := move
  cases move with
  | propose command control leads clear =>
    exact ⟨_, Set.subset_insert _ _, named.propose votes msgs member leads clear rfl⟩
  | deliver a d delivers =>
    exact ⟨started, subset_rfl, named.calm votes msgs member whole fun _ _ => rfl⟩
  | deliverReturn a d caller delivers =>
    refine ⟨started, subset_rfl, named.calm votes msgs member whole fun command same => ?_⟩
    subst same
    cases delivers
  | _ =>
    refine ⟨started, subset_rfl, named.calm votes msgs member whole fun command same => ?_⟩
    first | rfl | cases same

end Named

end Step

theorem Named.run {m : Membership} {s t : Cluster} {h k : History} {started : Set LogEntry}
    {actions : List Action} (named : Named s h started) (votes : Electing m s h)
    (msgs : Messaging m s h) (synced : ∀ u, (s.nodes u).Synced)
    (run : exec (observed (Cluster.step m) (History.recordStep m)) (s, h) actions =
      some (t, k)) :
    Electing m t k ∧ Messaging m t k ∧ ∃ started', started ⊆ started' ∧ Named t k started' := by
  refine Cluster.history_invariant (fun _ _ => True) (fun s h => Electing m s h ∧ Messaging m s h ∧
    ∃ started', started ⊆ started' ∧ Named s h started') ?_ synced
    ⟨votes, msgs, started, subset_rfl, named⟩ (along_always s actions) run
  rintro s h a v n out ⟨votes, msgs, started', more, named⟩ _ _ _ member move
  obtain ⟨started'', more', named'⟩ := named.step votes msgs member move
  exact ⟨votes.step member move, msgs.step votes member move, started'', more.trans more', named'⟩

theorem Cluster.exists_names {m : Membership} {first rest : List Action} {s t : Cluster}
    (run : Cluster.run m first = some s) (later : exec (Cluster.step m) s rest = some t) :
    ∃ started : Set LogEntry, (∀ e, Occurs s e ∨ Occurs t e → e ∈ started) ∧
      ∀ e ∈ started, ∀ e' ∈ started, e.index = e'.index → e.term = e'.term → e = e' := by
  obtain ⟨h, runH⟩ := Cluster.exists_runHistory run
  obtain ⟨k, runK⟩ := Cluster.exists_history h later
  obtain ⟨votes, msgs, started, -, named⟩ := Named.initial.run (Electing.initial m)
    (Messaging.initial m) Cluster.initial_synced runH
  obtain ⟨-, -, started', more, named'⟩ := named.run votes msgs (Cluster.run_synced run) runK
  refine ⟨started', fun e held => ?_, named'.unique⟩
  rcases held with before | after
  · exact more (named.carried.occurs before)
  · exact named'.carried.occurs after

/-- Of all entries that are anywhere in the cluster at any two moments of any run,
two with the same index and term are the same. -/
theorem entries_identified {m : Membership} {first rest : List Action} {s t : Cluster}
    (run : Cluster.run m first = some s) (later : exec (Cluster.step m) s rest = some t)
    {e e' : LogEntry} (held : Occurs s e) (held' : Occurs t e') (index : e.index = e'.index)
    (term : e.term = e'.term) : e = e' := by
  obtain ⟨started, all, unique⟩ := Cluster.exists_names run later
  exact unique e (all e (Or.inl held)) e' (all e' (Or.inr held')) index term

theorem entries_identified_after_delivery : ∃ s t e e',
    Cluster.run threePeers (winElection "a" "b" 0 ++ [.start "a" ⟨default, .noOp⟩]) = some s ∧
    exec (Cluster.step threePeers) s (commitOne "a" "b" 0) = some t ∧
    e ∈ (s.nodes "a").mainLog.entries ∧ .command e' ∈ (t.nodes "a").stateMachine ∧ e = e' := by
  obtain ⟨s, t, run, later, stored, given⟩ : ∃ s t,
      Cluster.run threePeers (winElection "a" "b" 0 ++ [.start "a" ⟨default, .noOp⟩]) = some s ∧
      exec (Cluster.step threePeers) s (commitOne "a" "b" 0) = some t ∧
      ⟨1, 1, ⟨default, .noOp⟩⟩ ∈ (s.nodes "a").mainLog.entries ∧
      .command ⟨1, 1, ⟨default, .noOp⟩⟩ ∈ (t.nodes "a").stateMachine := by
    refine ⟨_, _, (Option.some_get (by decide +kernel)).symm,
      (Option.some_get (by decide +kernel)).symm, by decide +kernel, by decide +kernel⟩
  exact ⟨s, t, _, _, run, later, stored, given,
    entries_identified run later (.stored "a" stored) (.delivered "a" given) rfl rfl⟩

theorem Node.start_stores {n : Node} {command : Command} (accepted : (n.start command).2 = true) :
    nextEntry n command ∈ (n.start command).1.mainLog.entries := by
  simp only [Node.start] at accepted ⊢
  split_ifs at accepted ⊢
  simp [Node.persist, Log.append, nextEntry]

/-- Index and term of an accepted `start` stand for its command in every later
state: no other entry ever carries them. -/
theorem start_names_command {m : Membership} {first rest : List Action} {s s' t : Cluster}
    {v : PeerId} {command : Command} (run : Cluster.run m first = some s)
    (accepted : ((s.nodes v).start command).2 = true)
    (called : Cluster.step m s (.start v command) = some s')
    (later : exec (Cluster.step m) s' rest = some t) {e : LogEntry} (held : Occurs t e)
    (index : e.index = (s.nodes v).mainLog.lastIndex + 1)
    (term : e.term = (s.nodes v).currentTerm) : e.command = command := by
  have run' : Cluster.run m (first ++ [.start v command]) = some s' :=
    exec_trans run (exec_singleton called)
  obtain ⟨started, all, unique⟩ := Cluster.exists_names run' later
  obtain ⟨u, n, out, found, -, -, rfl⟩ := Cluster.step_eq_some called
  cases found
  have stored : Occurs (s.update v ((s.nodes v).start command).1 .nothing)
      (nextEntry (s.nodes v) command) :=
    .stored v (by rw [Cluster.update_nodes_self]; exact Node.start_stores accepted)
  have same := unique e (all e (Or.inr held)) _ (all _ (Or.inl stored)) index term
  rw [same]
  rfl

theorem start_names_command_delivered : ∃ s s' t e,
    Cluster.run threePeers (winElection "a" "b" 0) = some s ∧
    Cluster.step threePeers s (.start "a" ⟨default, .size⟩) = some s' ∧
    exec (Cluster.step threePeers) s' (commitOne "a" "b" 0) = some t ∧
    .command e ∈ (t.nodes "a").stateMachine ∧ e.command = ⟨default, .size⟩ := by
  obtain ⟨s, s', t, run, accepted, called, later, given, last, term⟩ : ∃ s s' t,
      Cluster.run threePeers (winElection "a" "b" 0) = some s ∧
      ((s.nodes "a").start ⟨default, .size⟩).2 = true ∧
      Cluster.step threePeers s (.start "a" ⟨default, .size⟩) = some s' ∧
      exec (Cluster.step threePeers) s' (commitOne "a" "b" 0) = some t ∧
      .command ⟨1, 1, ⟨default, .size⟩⟩ ∈ (t.nodes "a").stateMachine ∧
      1 = (s.nodes "a").mainLog.lastIndex + 1 ∧ 1 = (s.nodes "a").currentTerm := by
    refine ⟨_, _, _, (Option.some_get (by decide +kernel)).symm, by decide +kernel,
      (Option.some_get (by decide +kernel)).symm, (Option.some_get (by decide +kernel)).symm,
      by decide +kernel, by decide +kernel, by decide +kernel⟩
  exact ⟨s, s', t, _, run, called, later, given,
    start_names_command run accepted called later (.delivered "a" given) last term⟩

end Zdb.Raft
