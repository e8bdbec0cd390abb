import Zdb.Rsm

/-! What one step of the system can do: to the system, branch by branch, and from
there to a single call and to a single replica. Every invariant of the calls is
derived from these lists. -/

namespace Zdb.Rsm
open Raft LabelledRun Linearizability

inductive Moves (m : Membership) (s : System) : Action → System → Prop
  | raft (a c) (step : Cluster.step m s.cluster a = some c) (other : isStart a = false)
      (free : ∀ v, sends a = some v →
        (s.replicas v).received = (s.cluster.nodes v).stateMachine.length)
      (kept : resets s.cluster a = none) : Moves m s (.raft a) { s with cluster := c }
  | reset (a c v) (step : Cluster.step m s.cluster a = some c) (other : isStart a = false)
      (anew : resets s.cluster a = some v) : Moves m s (.raft a) ({ s with cluster := c }.reset v)
  | invoke (v requestId payload) (known : served payload = true) :
      Moves m s (.invoke v requestId payload)
        { s with
          handles := s.handles ++ [{ node := v, command := ⟨stringToUuidV7 requestId, payload⟩ }]
          history := s.history ++ [.invoke s.handles.length] }
  | started (k h c) (found : s.handles[k]? = some h) (phase : h.phase = .invoked)
      (step : Cluster.step m s.cluster (.start h.node h.command) = some c)
      (accepted : ((s.cluster.nodes h.node).start h.command).2 = true) :
      Moves m s (.start k) ({ s with cluster := c }.setHandle k fun x =>
        { x with
          entry := some ⟨(s.cluster.nodes h.node).mainLog.lastIndex + 1,
            (s.cluster.nodes h.node).currentTerm, h.command⟩
          phase := .started })
  | refused (k h c) (found : s.handles[k]? = some h) (phase : h.phase = .invoked)
      (step : Cluster.step m s.cluster (.start h.node h.command) = some c)
      (rejected : ((s.cluster.nodes h.node).start h.command).2 = false) :
      Moves m s (.start k) ({ s with cluster := c }.respond k (.notLeader "not the leader"))
  | add (k h) (found : s.handles[k]? = some h) (phase : h.phase = .started)
      (vacant : (s.replicas h.node).pending h.command.uuid = none) :
      Moves m s (.add k) ((s.setReplica h.node { s.replicas h.node with
          pending := Function.update (s.replicas h.node).pending h.command.uuid (some k)
        }).setHandle k fun x => { x with phase := .waiting .empty })
  | overwrite (k h j) (found : s.handles[k]? = some h) (phase : h.phase = .started)
      (taken : (s.replicas h.node).pending h.command.uuid = some j) :
      Moves m s (.add k) (((s.setHandle j (Handle.settle .broken)).setReplica h.node
        { s.replicas h.node with
          pending := Function.update (s.replicas h.node).pending h.command.uuid (some k)
        }).setHandle k fun x => { x with phase := .waiting .empty })
  | get (k h r) (found : s.handles[k]? = some h) (phase : h.phase = .waiting (.value r)) :
      Moves m s (.get k) (s.respond k r)
  | threw (k h) (found : s.handles[k]? = some h) (phase : h.phase = .waiting .broken) :
      Moves m s (.get k) (s.setHandle k fun x => { x with phase := .threw })
  | timeout (k h) (found : s.handles[k]? = some h) (phase : h.phase = .waiting .empty) :
      Moves m s (.timeout k) (s.respond k (.notLeader "not the leader"))
  | consume (v item store state) (at_ : (s.replicas v).consumer = .receiving)
      (next : (s.cluster.nodes v).stateMachine[(s.replicas v).received]? = some item)
      (applied : applyItem (s.replicas v).store item = (store, some state)) :
      Moves m s (.consume v) (s.setReplica v { s.replicas v with
        store, received := (s.replicas v).received + 1, consumer := .applied item state })
  | dropped (v item state) (at_ : (s.replicas v).consumer = .applied item state)
      (nobody : ∀ e, item = .command e → (s.replicas v).pending e.command.uuid = none) :
      Moves m s (.complete v) (s.setReplica v { s.replicas v with consumer := .receiving })
  | complete (v e state k) (at_ : (s.replicas v).consumer = .applied (.command e) state)
      (taken : (s.replicas v).pending e.command.uuid = some k) :
      Moves m s (.complete v) ((s.setReplica v { s.replicas v with
          consumer := .receiving
          pending := Function.update (s.replicas v).pending e.command.uuid none }).setHandle k
        (Handle.settle (.value ⟨state, some e⟩)))
  | cancelAll (v) : Moves m s (.cancelAll v)
      { s.setReplica v { s.replicas v with running := false, pending := fun _ => none } with
        handles := s.handles.mapIdx fun k h =>
          if (s.replicas v).pending h.command.uuid = some k then
            h.settle (.value (.notLeader "Changed Leader"))
          else h }

theorem System.moves {m : Membership} {s t : System} {a : Action} (step : s.step m a = some t) :
    Moves m s a t := by
  cases a with
  | raft a =>
    simp only [System.step, System.raft] at step
    split_ifs at step with blocked
    obtain ⟨c, moved, rfl⟩ := Option.map_eq_some_iff.mp step
    simp only [Bool.or_eq_true, not_or, Bool.not_eq_true, Option.any_eq_false,
      bne_eq_false_iff_eq] at blocked
    cases anew : resets s.cluster a with
    | none => exact .raft a c moved blocked.1 (fun v sent => blocked.2 v sent) anew
    | some v => exact .reset a c v moved blocked.1 anew
  | invoke v requestId payload =>
    simp only [System.step, System.invoke] at step
    split_ifs at step with ready
    cases step
    exact .invoke v requestId payload ((Bool.and_eq_true _ _).mp ready).2
  | start k =>
    simp only [System.step, System.start] at step
    split at step
    · rename_i v command entry found
      obtain ⟨c, moved, rfl⟩ := Option.map_eq_some_iff.mp step
      split_ifs with accepted
      · exact .started k _ c found rfl moved accepted
      · exact .refused k _ c found rfl moved (by simpa using accepted)
    · contradiction
  | add k =>
    simp only [System.step, System.add] at step
    split at step
    · rename_i v command entry found
      split_ifs at step
      cases taken : (s.replicas v).pending command.uuid with
      | none =>
        simp only [taken, Option.some.injEq] at step
        subst step
        exact .add k _ found rfl taken
      | some j =>
        simp only [taken, Option.some.injEq] at step
        subst step
        exact .overwrite k _ j found rfl taken
    · contradiction
  | get k =>
    simp only [System.step, System.get] at step
    split at step
    · rename_i v command entry r found
      split_ifs at step
      cases step
      exact .get k _ r found rfl
    · rename_i v command entry found
      split_ifs at step
      cases step
      exact .threw k _ found rfl
    · contradiction
  | timeout k =>
    simp only [System.step, System.timeout] at step
    split at step
    · rename_i v command entry found
      split_ifs at step
      cases step
      exact .timeout k _ found rfl
    · contradiction
  | consume v =>
    simp only [System.step, System.consume] at step
    split at step
    · rename_i item at_ next
      split_ifs at step
      split at step
      · rename_i store state applied
        cases step
        exact .consume v item store state at_ next applied
      · contradiction
    · contradiction
  | complete v =>
    simp only [System.step, System.complete] at step
    split at step
    · contradiction
    · rename_i item state at_
      split_ifs at step
      split at step
      · cases step
        exact .dropped v _ state at_ (by simp)
      · rename_i e
        split at step
        · rename_i vacant
          cases step
          refine .dropped v _ state at_ fun x same => ?_
          cases same
          exact vacant
        · rename_i k taken
          cases step
          exact .complete v e state k at_ taken
  | cancelAll v =>
    simp only [System.step, System.cancelAll] at step
    split_ifs at step
    cases step
    exact .cancelAll v

inductive Advance (s : System) : Action → ℕ → Handle → Handle → Prop
  | same (a k h) : Advance s a k h h
  | started (k h) (phase : h.phase = .invoked)
      (accepted : ((s.cluster.nodes h.node).start h.command).2 = true) :
      Advance s (.start k) k h
        { h with
          entry := some ⟨(s.cluster.nodes h.node).mainLog.lastIndex + 1,
            (s.cluster.nodes h.node).currentTerm, h.command⟩
          phase := .started }
  | refused (k h) (phase : h.phase = .invoked) :
      Advance s (.start k) k h { h with phase := .returned (.notLeader "not the leader") }
  | added (k h) (phase : h.phase = .started) :
      Advance s (.add k) k h { h with phase := .waiting .empty }
  | broken (j k h x) (phase : h.phase = .waiting .empty) (found : s.handles[j]? = some x)
      (adds : x.phase = .started)
      (taken : (s.replicas x.node).pending x.command.uuid = some k) :
      Advance s (.add j) k h { h with phase := .waiting .broken }
  | got (k h r) (phase : h.phase = .waiting (.value r)) :
      Advance s (.get k) k h { h with phase := .returned r }
  | threw (k h) (phase : h.phase = .waiting .broken) :
      Advance s (.get k) k h { h with phase := .threw }
  | timedOut (k h) (phase : h.phase = .waiting .empty) :
      Advance s (.timeout k) k h { h with phase := .returned (.notLeader "not the leader") }
  | completed (v e state k h) (phase : h.phase = .waiting .empty)
      (at_ : (s.replicas v).consumer = .applied (.command e) state)
      (taken : (s.replicas v).pending e.command.uuid = some k) :
      Advance s (.complete v) k h { h with phase := .waiting (.value ⟨state, some e⟩) }
  | cancelled (v k h) (phase : h.phase = .waiting .empty)
      (taken : (s.replicas v).pending h.command.uuid = some k) :
      Advance s (.cancelAll v) k h
        { h with phase := .waiting (.value (.notLeader "Changed Leader")) }
  | gone (a k h) (open_ : h.finished = false) (anew : resets s.cluster a = some h.node) :
      Advance s (.raft a) k h { h with phase := .gone }

theorem System.setHandle_at {s : System} {j k : ℕ} {f : Handle → Handle} {h' : Handle}
    (found : (s.setHandle j f).handles[k]? = some h') :
    ∃ h, s.handles[k]? = some h ∧ h' = if k = j then f h else h := by
  rw [System.setHandle, List.getElem?_modify] at found
  obtain ⟨h, old, same⟩ := Option.map_eq_some_iff.mp found
  refine ⟨h, old, ?_⟩
  rw [← same]
  split_ifs with here other other
  · rfl
  · exact absurd here.symm other
  · exact absurd other.symm here
  · rfl

theorem Advance.at_one {s u : System} {a : Action} {j k : ℕ} {f : Handle → Handle} {x h' : Handle}
    (same : u.handles = s.handles) (at_ : s.handles[j]? = some x) (moves : Advance s a j x (f x))
    (found : (u.setHandle j f).handles[k]? = some h') :
    ∃ h, s.handles[k]? = some h ∧ Advance s a k h h' := by
  obtain ⟨h, old, rfl⟩ := System.setHandle_at found
  rw [same] at old
  refine ⟨h, old, ?_⟩
  split_ifs with here
  · subst here
    cases at_.symm.trans old
    exact moves
  · exact .same _ _ _

theorem Advance.settle {s : System} {a : Action} {k : ℕ} {h : Handle} {f : Future}
    (fills : h.phase = .waiting .empty → Advance s a k h { h with phase := .waiting f }) :
    Advance s a k h (h.settle f) := by
  rw [Handle.settle]
  split
  · rename_i phase
    exact fills phase
  · exact .same _ _ _

theorem Moves.advance {m : Membership} {s t : System} {a : Action} (move : Moves m s a t) {k : ℕ}
    {h' : Handle} (found : t.handles[k]? = some h') :
    (∃ h, s.handles[k]? = some h ∧ Advance s a k h h') ∨
      ∃ v requestId payload, a = .invoke v requestId payload ∧ k = s.handles.length ∧
        h' = { node := v, command := ⟨stringToUuidV7 requestId, payload⟩ } := by
  cases move with
  | raft a c step other free kept => exact Or.inl ⟨h', found, .same _ _ _⟩
  | reset a c v step other anew =>
    left
    obtain ⟨h, old, rfl⟩ := Option.map_eq_some_iff.mp ((List.getElem?_map).symm.trans found)
    refine ⟨h, old, ?_⟩
    rw [Handle.abandon]
    split_ifs with ends
    · obtain ⟨rfl, open_⟩ := ends
      exact .gone a k h open_ anew
    · exact .same _ _ _
  | invoke v requestId payload known =>
    rw [List.getElem?_append] at found
    split_ifs at found with old
    · exact Or.inl ⟨h', found, .same _ _ _⟩
    · right
      rw [List.getElem?_singleton] at found
      split_ifs at found with place
      cases found
      exact ⟨v, requestId, payload, rfl, by omega, rfl⟩
  | started j x c at_ phase step accepted =>
    exact Or.inl (Advance.at_one rfl at_ (.started j x phase accepted) found)
  | refused j x c at_ phase step rejected =>
    exact Or.inl (Advance.at_one rfl at_ (.refused j x phase) found)
  | add j x at_ phase vacant => exact Or.inl (Advance.at_one rfl at_ (.added j x phase) found)
  | overwrite j x i at_ phase taken =>
    left
    obtain ⟨y, middle, rfl⟩ := System.setHandle_at found
    obtain ⟨h, old, rfl⟩ := System.setHandle_at middle
    refine ⟨h, old, ?_⟩
    split_ifs with here other other
    · subst here
      cases at_.symm.trans old
      have kept : x.settle .broken = x := by simp [Handle.settle, phase]
      rw [kept]
      exact .added k x phase
    · subst here
      cases at_.symm.trans old
      exact .added k x phase
    · subst other
      exact .settle fun waits => .broken j k h x waits at_ phase taken
    · exact .same _ _ _
  | get j x r at_ phase => exact Or.inl (Advance.at_one rfl at_ (.got j x r phase) found)
  | threw j x at_ phase => exact Or.inl (Advance.at_one rfl at_ (.threw j x phase) found)
  | timeout j x at_ phase => exact Or.inl (Advance.at_one rfl at_ (.timedOut j x phase) found)
  | consume v item store state at_ next applied => exact Or.inl ⟨h', found, .same _ _ _⟩
  | dropped v item state at_ nobody => exact Or.inl ⟨h', found, .same _ _ _⟩
  | complete v e state j at_ taken =>
    left
    obtain ⟨h, old, rfl⟩ := System.setHandle_at found
    refine ⟨h, old, ?_⟩
    split_ifs with here
    · subst here
      exact .settle fun waits => .completed v e state k h waits at_ taken
    · exact .same _ _ _
  | cancelAll v =>
    left
    obtain ⟨h, old, rfl⟩ := Option.map_eq_some_iff.mp ((List.getElem?_mapIdx).symm.trans found)
    refine ⟨h, old, ?_⟩
    split_ifs with taken
    · exact .settle fun waits => .cancelled v k h waits taken
    · exact .same _ _ _

theorem Moves.kept {m : Membership} {s t : System} {a : Action} (move : Moves m s a t) {k : ℕ}
    {h : Handle} (found : s.handles[k]? = some h) :
    ∃ h', t.handles[k]? = some h' ∧ Advance s a k h h' := by
  have longer : s.handles.length ≤ t.handles.length := by
    cases move <;>
      simp [System.reset, System.respond, System.setHandle, System.setReplica]
  have inside := (List.getElem?_eq_some_iff.mp found).1
  have there := List.getElem?_eq_getElem (show k < t.handles.length by omega)
  refine ⟨_, there, ?_⟩
  rcases move.advance there with ⟨x, old, advance⟩ | ⟨_, _, _, _, new, _⟩
  · cases found.symm.trans old
    exact advance
  · omega

namespace Advance
variable {s : System} {a : Action} {k : ℕ} {h h' : Handle}

theorem node_eq (advance : Advance s a k h h') : h'.node = h.node := by
  cases advance <;> rfl

theorem command_eq (advance : Advance s a k h h') : h'.command = h.command := by
  cases advance <;> rfl

theorem entry_cases (advance : Advance s a k h h') : h'.entry = h.entry ∨
    (a = .start k ∧ h.phase = .invoked ∧
      ((s.cluster.nodes h.node).start h.command).2 = true ∧
      h'.entry = some ⟨(s.cluster.nodes h.node).mainLog.lastIndex + 1,
        (s.cluster.nodes h.node).currentTerm, h.command⟩) := by
  cases advance with
  | started k h phase accepted => exact Or.inr ⟨rfl, phase, accepted, rfl⟩
  | _ => exact Or.inl rfl

theorem returned_kept {r : Result} (advance : Advance s a k h h') (ended : h.phase = .returned r) :
    h'.phase = .returned r := by
  cases advance with
  | same => exact ended
  | gone b k h open_ anew => simp [Handle.finished, ended] at open_
  | broken j k h x phase => simp [ended] at phase
  | completed v e state k h phase => simp [ended] at phase
  | cancelled v k h phase => simp [ended] at phase
  | got k h r phase => simp [ended] at phase
  | _ k h phase => simp [ended] at phase

end Advance

inductive Turn (s : System) : Action → PeerId → Replica → Prop
  | same (a v) : Turn s a v (s.replicas v)
  | reset (a v) (anew : resets s.cluster a = some v) : Turn s (.raft a) v {}
  | added (k h) (found : s.handles[k]? = some h) (phase : h.phase = .started) :
      Turn s (.add k) h.node { s.replicas h.node with
        pending := Function.update (s.replicas h.node).pending h.command.uuid (some k) }
  | consumed (v item store state) (at_ : (s.replicas v).consumer = .receiving)
      (next : (s.cluster.nodes v).stateMachine[(s.replicas v).received]? = some item)
      (applied : applyItem (s.replicas v).store item = (store, some state)) :
      Turn s (.consume v) v { s.replicas v with
        store, received := (s.replicas v).received + 1, consumer := .applied item state }
  | dropped (v item state) (at_ : (s.replicas v).consumer = .applied item state)
      (nobody : ∀ e, item = .command e → (s.replicas v).pending e.command.uuid = none) :
      Turn s (.complete v) v { s.replicas v with consumer := .receiving }
  | completed (v e state k) (at_ : (s.replicas v).consumer = .applied (.command e) state)
      (taken : (s.replicas v).pending e.command.uuid = some k) :
      Turn s (.complete v) v { s.replicas v with
        consumer := .receiving
        pending := Function.update (s.replicas v).pending e.command.uuid none }
  | cancelled (v) : Turn s (.cancelAll v) v
      { s.replicas v with running := false, pending := fun _ => none }

theorem Turn.at_one {s u : System} {a : Action} {v w : PeerId} {r : Replica}
    (same : u.replicas = s.replicas) (turns : Turn s a w r) :
    Turn s a v ((u.setReplica w r).replicas v) := by
  simp only [System.setReplica, same]
  by_cases here : v = w
  · subst here
    rw [Function.update_self]
    exact turns
  · rw [Function.update_of_ne here]
    exact .same a v

theorem Moves.turn {m : Membership} {s t : System} {a : Action} (move : Moves m s a t)
    (v : PeerId) : Turn s a v (t.replicas v) := by
  cases move with
  | reset a c w step other anew =>
    exact Turn.at_one (u := { s with cluster := c }) rfl (.reset a w anew)
  | add k h found phase vacant => exact Turn.at_one rfl (.added k h found phase)
  | overwrite k h j found phase taken =>
    exact Turn.at_one (u := s.setHandle j (Handle.settle .broken)) rfl (.added k h found phase)
  | consume w item store state at_ next applied =>
    exact Turn.at_one rfl (.consumed w item store state at_ next applied)
  | dropped w item state at_ nobody => exact Turn.at_one rfl (.dropped w item state at_ nobody)
  | complete w e state k at_ taken => exact Turn.at_one rfl (.completed w e state k at_ taken)
  | cancelAll w => exact Turn.at_one rfl (.cancelled w)
  | _ => exact .same _ v

theorem Moves.cluster_cases {m : Membership} {s t : System} {a : Action} (move : Moves m s a t) :
    t.cluster = s.cluster ∨ ∃ b, Cluster.step m s.cluster b = some t.cluster ∧
      ((a = .raft b ∧ isStart b = false) ∨ ∃ k h, a = .start k ∧ s.handles[k]? = some h ∧
        h.phase = .invoked ∧ b = .start h.node h.command) := by
  cases move with
  | raft b c step other free kept => exact Or.inr ⟨b, step, Or.inl ⟨rfl, other⟩⟩
  | reset b c v step other anew => exact Or.inr ⟨b, step, Or.inl ⟨rfl, other⟩⟩
  | started k h c found phase step accepted =>
    exact Or.inr ⟨_, step, Or.inr ⟨k, h, rfl, found, phase, rfl⟩⟩
  | refused k h c found phase step rejected =>
    exact Or.inr ⟨_, step, Or.inr ⟨k, h, rfl, found, phase, rfl⟩⟩
  | _ => exact Or.inl rfl

theorem Moves.history_cases {m : Membership} {s t : System} {a : Action} (move : Moves m s a t) :
    (t.history = s.history ++ [.invoke s.handles.length] ∧
      t.handles.length = s.handles.length + 1) ∨
    (t.handles.length = s.handles.length ∧ (t.history = s.history ∨
      ∃ k r h, t.history = s.history ++ [.respond k r.state] ∧ t.handles[k]? = some h ∧
        h.phase = .returned r)) := by
  have answered : ∀ {u : System} {k : ℕ} {h : Handle} (r : Result), u.handles[k]? = some h →
      u.history = s.history → ∃ k' r' h', (u.respond k r).history =
        s.history ++ [.respond k' r'.state] ∧ (u.respond k r).handles[k']? = some h' ∧
        h'.phase = .returned r' := by
    intro u k h r found same
    exact ⟨k, r, { h with phase := .returned r }, by simp [System.respond, same],
      by simp [System.respond, System.setHandle, found], rfl⟩
  cases move with
  | invoke v requestId payload known => exact Or.inl ⟨rfl, by simp⟩
  | refused k h c found phase step rejected =>
    exact Or.inr ⟨by simp [System.respond, System.setHandle],
      Or.inr (answered (u := { s with cluster := c }) _ found rfl)⟩
  | get k h r found phase =>
    exact Or.inr ⟨by simp [System.respond, System.setHandle], Or.inr (answered r found rfl)⟩
  | timeout k h found phase =>
    exact Or.inr ⟨by simp [System.respond, System.setHandle], Or.inr (answered _ found rfl)⟩
  | _ => exact Or.inr ⟨by simp [System.reset, System.setHandle, System.setReplica], Or.inl rfl⟩

end Zdb.Rsm
