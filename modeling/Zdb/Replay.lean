import Zdb.Responses
import Zdb.StartOrder

/-! What replicas have applied, against the one list of decided entries: a store is
what the entries its node has received make of an empty store, and an answer is
what its entry produces at its place in the list. -/

namespace Zdb.Rsm
open Raft LabelledRun Linearizability

def applyEntry (store : KV.InMemoryKVStore) (e : LogEntry) :
    KV.InMemoryKVStore × Option KV.State := applyItem store (.command e)

/-- Entry `e` is decided, and applied where it stands it produces `state`. -/
def Produces (decided : List LogEntry) (e : LogEntry) (state : KV.State) : Prop :=
  ∃ i, decided[i]? = some e ∧ answer applyEntry {} (decided.take i) e = some state

theorem Produces.mono {decided decided' : List LogEntry} {e : LogEntry} {state : KV.State}
    (more : decided <+: decided') (produces : Produces decided e state) :
    Produces decided' e state := by
  obtain ⟨i, found, same⟩ := produces
  have inside := (List.getElem?_eq_some_iff.mp found).1
  refine ⟨i, ?_, ?_⟩
  · rw [← found, List.prefix_iff_getElem?.mp more i inside, List.getElem?_eq_getElem inside]
  · rw [← same, List.prefix_iff_eq_take.mp more, List.take_take, min_eq_left inside.le]

structure Replays (decided : List LogEntry) (r : Replica) : Prop where
  received : r.received ≤ decided.length
  store : r.store = after applyEntry {} (decided.take r.received)
  applied : ∀ item state, r.consumer = .applied item state →
    ∃ e, item = .command e ∧ Produces decided e state

namespace Replays
variable {m : Membership} {s t : System} {a : Action} {v : PeerId} {r : Replica}
  {decided decided' : List LogEntry}

theorem mono (more : decided <+: decided') (replays : Replays decided r) :
    Replays decided' r := by
  obtain ⟨received, store, applied⟩ := replays
  refine ⟨received.trans more.length_le, ?_, fun item state at_ => ?_⟩
  · rw [store, List.prefix_iff_eq_take.mp more, List.take_take, min_eq_left received]
  · obtain ⟨e, same, produces⟩ := applied item state at_
    exact ⟨e, same, produces.mono more⟩

theorem initial (decided : List LogEntry) : Replays decided {} :=
  ⟨Nat.zero_le _, rfl, by simp⟩

theorem consume {item : Item} {store : KV.InMemoryKVStore} {state : KV.State} {n : Node}
    (replays : Replays decided r) (channel : n.stateMachine <+: decided.map .command)
    (next : n.stateMachine[r.received]? = some item)
    (applied : applyItem r.store item = (store, some state)) :
    Replays decided
      { r with store, received := r.received + 1, consumer := .applied item state } := by
  have inside := (List.getElem?_eq_some_iff.mp next).1
  have here := List.prefix_iff_getElem?.mp channel r.received inside
  rw [← List.getElem?_eq_getElem inside, next, List.getElem?_map] at here
  obtain ⟨e, found, rfl⟩ := Option.map_eq_some_iff.mp here
  rw [replays.store] at applied
  refine ⟨(List.getElem?_eq_some_iff.mp found).1, ?_, fun item' state' at_ => ?_⟩
  · rw [List.take_add_one, found, Option.toList_some, after_concat, applyEntry, applied]
  · cases at_
    exact ⟨e, rfl, r.received, found, by rw [answer, applyEntry, applied]⟩

theorem turn (replays : Replays decided (s.replicas v))
    (channel : (s.cluster.nodes v).stateMachine <+: decided.map .command) (turn : Turn s a v r) :
    Replays decided r := by
  obtain ⟨received, store, applied⟩ := id replays
  cases turn with
  | same => exact replays
  | reset => exact initial decided
  | added k h found phase => exact ⟨received, store, applied⟩
  | consumed v item store' state at_ next given => exact replays.consume channel next given
  | dropped v item state at_ nobody => exact ⟨received, store, by simp⟩
  | completed v e state k at_ taken => exact ⟨received, store, by simp⟩
  | cancelled => exact ⟨received, store, applied⟩

end Replays

def Handle.Explained (decided : List LogEntry) (h : Handle) : Prop :=
  ∀ r e, h.phase = .waiting (.value r) ∨ h.phase = .returned r → r.source = some e →
    Produces decided e r.state

theorem Handle.Explained.advance {s : System} {a : Action} {k : ℕ} {h h' : Handle}
    {decided : List LogEntry} (explained : h.Explained decided) (advance : Advance s a k h h')
    (replays : ∀ v, Replays decided (s.replicas v)) : h'.Explained decided := by
  have denied : ∀ what f, f = Future.value (.notLeader what) →
      ({ h with phase := .waiting f } : Handle).Explained decided := by
    rintro what f rfl r e (at_ | at_) source <;> cases at_
    cases source
  have returned : ∀ what,
      ({ h with phase := .returned (.notLeader what) } : Handle).Explained decided := by
    rintro what r e (at_ | at_) source <;> cases at_
    cases source
  cases advance with
  | same => exact explained
  | refused k h phase => exact returned _
  | timedOut k h phase => exact returned _
  | cancelled v k h phase taken => exact denied _ _ rfl
  | got k h r phase =>
    rintro r' e (at_ | at_) source <;> cases at_
    exact explained r e (Or.inl phase) source
  | completed v e state k h phase at_ taken =>
    obtain ⟨e', same, produces⟩ := (replays v).applied _ _ at_
    cases same
    rintro r' e' (here | here) source <;> cases here
    cases source
    exact produces
  | _ => simp [Explained]

end Zdb.Rsm
