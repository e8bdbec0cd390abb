import Zdb.LabelledRun
import Zdb.Backoff
import Zdb.ClientReplies
import Mathlib.Data.List.Dedup

/-! The choice of a service. Each call of `nextService` or `randomService` is read as
the list of the services it has consulted and what they have reported; the exchange of
the call is the exchanges of these `available()` calls and the draws between them, with
nothing left over. The range of the draws comes from the list of addresses, and the map
has no place for an address that is repeated. -/

namespace Zdb.KV.Config
open Resumption LabelledRun ExponentialBackoff

/-- The constructor. `walk` orders the addresses as the map is walked. -/
def make (policy : RetryPolicy) (walk : List String → List String) (addresses : List String) :
    Option Config :=
  if addresses = [] then none
  else
    let services := (walk addresses.dedup).map fun address => { address }
    some { policy, services, addresses := addresses.length, cService := services.length }

inductive Consulted (policy : RetryPolicy) (services : List RPCService) :
    Heard → List (ℕ × Bool) → List RPCService → Prop
  | start : Consulted policy services [] [] services
  | drew {heard : Heard} {reports : List (ℕ × Bool)} {now : List RPCService} (bound : ℕ)
      (i : Fin bound) (before : Consulted policy services heard reports now) :
      Consulted policy services (heard ++ [⟨.draw bound, i⟩]) reports now
  | reported {heard more : Heard} {reports : List (ℕ × Bool)} {now : List RPCService} {i : ℕ}
      {s s' : RPCService} {ok : Bool} (before : Consulted policy services heard reports now)
      (there : now[i]? = some s) (had : (s.available policy).replay more = some (ok, s')) :
      Consulted policy services (heard ++ more) (reports ++ [(i, ok)]) (now.set i s')

/-- A service that is returned has reported that it is available; if there is none, all
have reported that they are not. -/
def NextChosen (c : Config) (heard : Heard) (r : Option ℕ × Config) : Prop :=
  r.2.addresses = c.addresses ∧
  ∃ reports, Consulted c.policy c.services heard reports r.2.services ∧
    match r.1 with
    | some i => (i, true) ∈ reports
    | none => ∀ i < c.services.length, (i, false) ∈ reports

/-- A service that is returned has reported that it is available, and was not current. -/
def RandomChosen (c : Config) (heard : Heard) (r : Option ℕ × Config) : Prop :=
  r.2.addresses = c.addresses ∧
  ∃ reports, Consulted c.policy c.services heard reports r.2.services ∧
    ∀ i, r.1 = some i → (i, true) ∈ reports ∧ i ≠ c.cService

/-- Nothing outside the map is looked at. -/
def Defined (e : Ask) : Prop := e ≠ .undefined

inductive Selection where
  | next (heard : Heard)
  | random (heard : Heard)
  | used (i : ℕ) (circuitBreaker : CircuitBreaker)

def select (c : Config) : Selection → Option Config
  | .next heard => (c.nextService.replay heard).map Prod.snd
  | .random heard => ((c.randomService (10 * c.services.length)).replay heard).map Prod.snd
  | .used i circuitBreaker => c.services[i]?.map fun s => c.setService i { s with circuitBreaker }

def Sound (c : Config) : Prop :=
  ∀ history c', exec select c history = some c' →
    Ensures Defined c'.NextChosen [] c'.nextService ∧
      Ensures Defined c'.RandomChosen [] (c'.randomService (10 * c'.services.length))

section
variable {policy : RetryPolicy} {services now : List RPCService} {heard : Heard}
  {reports : List (ℕ × Bool)} {i : ℕ} {s : RPCService}

theorem Consulted.length_eq (consulted : Consulted policy services heard reports now) :
    now.length = services.length := by
  induction consulted with
  | start => rfl
  | drew _ _ _ ih => exact ih
  | reported _ _ _ ih => rw [List.length_set, ih]

theorem Consulted.available (consulted : Consulted policy services heard reports now)
    (there : now[i]? = some s) :
    Ensures Defined (fun heard' r =>
      Consulted policy services heard' (reports ++ [(i, r.1)]) (now.set i r.2)) heard
      (s.available policy) := by
  have asks : Ensures Defined (fun _ _ => True) heard (s.available policy) :=
    RPCService.available_ensures (by simp [Defined]) (by simp [Defined]) policy s
  refine asks.replays.mono ?_
  rintro _ ⟨ok, s'⟩ ⟨-, more, rfl, had⟩
  exact .reported consulted there had

def Walked (policy : RetryPolicy) (services front rest : List RPCService)
    (reports : List (ℕ × Bool)) (current : ℕ) (heard : Heard) (r : ℕ × List RPCService) : Prop :=
  ∃ reports', reports ⊆ reports' ∧ Consulted policy services heard reports' (front ++ r.2) ∧
    (r.1 < front.length + rest.length ∧ (r.1, true) ∈ reports' ∨
      r.1 = front.length + rest.length ∧
        ∀ j, front.length ≤ j → j < front.length + rest.length → j ≠ current →
          (j, false) ∈ reports')

theorem Walked.cons {front rest : List RPCService} {before : List (ℕ × Bool)} {current : ℕ}
    {r : ℕ × List RPCService}
    (walked : Walked policy services (front ++ [s]) rest reports current heard r)
    (kept : before ⊆ reports) (passed : front.length ≠ current → (front.length, false) ∈ reports) :
    Walked policy services front (s :: rest) before current heard (r.1, s :: r.2) := by
  obtain ⟨reports', more, consulted, found⟩ := walked
  refine ⟨reports', List.Subset.trans kept more, by simpa using consulted, ?_⟩
  simp only [List.length_append, List.length_cons, List.length_nil] at found ⊢
  refine found.imp (fun stopped => ⟨by omega, stopped.2⟩) fun ⟨last, all⟩ => ⟨by omega, ?_⟩
  intro j from_ upTo other
  by_cases first : j = front.length
  · subst first
    exact more (passed other)
  · exact all j (by omega) (by omega) other

theorem Consulted.nextActiveService (front : List RPCService) {rest : List RPCService} (current : ℕ)
    (consulted : Consulted policy services heard reports (front ++ rest))
    (here : i = front.length) :
    Ensures Defined (Walked policy services front rest reports current) heard
      (nextActiveService policy current i rest) := by
  -- `front` are the services behind the iterator
  induction rest generalizing front heard reports i with
  | nil =>
    refine .pure ⟨reports, List.Subset.refl _, consulted, Or.inr ⟨by simp [here], ?_⟩⟩
    intro j from_ upTo
    simp only [List.length_nil] at upTo
    omega
  | cons s rest ih =>
    have next (s : RPCService) : i + 1 = (front ++ [s]).length := by simp [here]
    rw [Config.nextActiveService]
    split
    · have onwards : Consulted policy services heard reports (front ++ [s] ++ rest) := by
        simpa using consulted
      refine Ensures.seq (ih _ onwards (next s)) fun heard' r _ walked => .pure ?_
      exact walked.cons (List.Subset.refl _) fun other => absurd (by omega) other
    have there : (front ++ s :: rest)[i]? = some s := by simp [here]
    refine Ensures.seq (consulted.available there) ?_
    rintro heard' ⟨ok, s'⟩ - consulted'
    have set : (front ++ s :: rest).set i s' = front ++ s' :: rest := by simp [here]
    rw [set] at consulted'
    dsimp only
    split
    · rename_i available
      subst available
      refine .pure ⟨_, List.subset_append_left _ _, consulted', Or.inl ⟨?_, by simp⟩⟩
      simp [here]
    · rename_i unavailable
      have refused : (front.length, false) ∈ reports ++ [(i, ok)] := by simp_all
      have onwards : Consulted policy services heard' (reports ++ [(i, ok)])
          (front ++ [s'] ++ rest) := by simpa using consulted'
      refine Ensures.seq (ih _ onwards (next s')) fun heard'' r _ walked => .pure ?_
      exact walked.cons (List.subset_append_left _ _) fun _ => refused

end

section
variable {c c' : Config} {heard : Heard} {reports : List (ℕ × Bool)}

theorem Walked.nextChosen {r : ℕ × List RPCService}
    (walked : Walked c.policy c.services [] c'.services reports c'.cService heard r)
    (addresses : c'.addresses = c.addresses) (same : c'.services.length = c.services.length)
    (asked : c'.cService < c.services.length → (c'.cService, false) ∈ reports) :
    c.NextChosen heard (if r.1 = r.2.length then none else some r.1,
      { c' with services := r.2, cService := r.1 }) := by
  obtain ⟨reports', more, consulted, found⟩ := walked
  have length := consulted.length_eq
  simp only [List.nil_append, List.length_nil, Nat.zero_add, Nat.zero_le, forall_const]
    at consulted found length
  refine ⟨addresses, reports', consulted, ?_⟩
  rcases found with ⟨within, reported⟩ | ⟨last, all⟩
  · rw [if_neg (by omega)]
    exact reported
  · rw [if_pos (by omega)]
    intro i upTo
    by_cases current : i = c'.cService
    · rw [current] at upTo ⊢
      exact more (asked upTo)
    · exact all i (by omega) current

theorem nextService_chosen (c : Config) : Ensures Defined c.NextChosen [] c.nextService := by
  rw [nextService]
  dsimp only
  split
  · rename_i none
    refine Ensures.seq (Consulted.start.nextActiveService [] c.cService rfl) ?_
    intro heard r _ walked
    have outside := List.getElem?_eq_none_iff.mp none
    exact .pure (walked.nextChosen rfl rfl fun within => absurd within (by omega))
  · rename_i s there
    refine Ensures.seq (Consulted.start.available there) ?_
    rintro heard ⟨ok, s'⟩ - consulted
    dsimp only
    split
    · rename_i available
      subst available
      exact .pure ⟨rfl, _, consulted, by simp [setService]⟩
    · rename_i unavailable
      have asked : (c.cService, false) ∈ [] ++ [(c.cService, ok)] := by simp_all
      have length := consulted.length_eq
      refine Ensures.seq (consulted.nextActiveService [] c.cService rfl) ?_
      intro heard' r _ walked
      exact .pure (walked.nextChosen rfl length fun _ => asked)

theorem Consulted.randomService (tries : ℕ)
    (consulted : Consulted c.policy c.services heard reports c'.services)
    (policy : c'.policy = c.policy) (current : c'.cService = c.cService)
    (addresses : c'.addresses = c.addresses) (range : c.addresses ≤ c.services.length) :
    Ensures Defined c.RandomChosen heard (Config.randomService tries c') := by
  induction tries generalizing heard reports c' with
  | zero => exact .pure ⟨addresses, reports, consulted, by simp⟩
  | succ tries ih =>
    rw [Config.randomService]
    refine Ensures.bind_ask (by simp [Defined]) fun (i : Fin c'.addresses) => ?_
    have drew := consulted.drew c'.addresses i
    have length := consulted.length_eq
    have inside : i.val < c'.services.length := by omega
    rw [if_neg (by omega)]
    split
    · exact ih drew policy current addresses
    rename_i other
    have there := List.getElem?_eq_getElem inside
    rw [there]
    dsimp only
    rw [policy]
    refine Ensures.seq (drew.available there) ?_
    rintro heard' ⟨ok, s'⟩ - consulted'
    dsimp only
    split
    · rename_i available
      subst available
      refine .pure ⟨addresses, _, consulted', fun j same => ?_⟩
      cases same
      exact ⟨by simp, current ▸ other⟩
    · exact ih consulted' policy current addresses

theorem randomService_chosen (range : c.addresses ≤ c.services.length) (tries : ℕ) :
    Ensures Defined c.RandomChosen [] (c.randomService tries) :=
  Consulted.start.randomService tries rfl rfl rfl range

theorem select_range (a : Selection) (range : c.addresses ≤ c.services.length)
    (chosen : c.select a = some c') : c'.addresses ≤ c'.services.length := by
  cases a with
  | next heard =>
    obtain ⟨⟨_, c''⟩, had, rfl⟩ := Option.map_eq_some_iff.mp chosen
    obtain ⟨addresses, _, consulted, _⟩ := c.nextService_chosen.of_replay had
    have length := consulted.length_eq
    dsimp only at addresses length ⊢
    omega
  | random heard =>
    obtain ⟨⟨_, c''⟩, had, rfl⟩ := Option.map_eq_some_iff.mp chosen
    obtain ⟨addresses, _, consulted, _⟩ := (randomService_chosen range _).of_replay had
    have length := consulted.length_eq
    dsimp only at addresses length ⊢
    omega
  | used i circuitBreaker =>
    obtain ⟨s, there, rfl⟩ := Option.map_eq_some_iff.mp chosen
    simpa [setService] using range

theorem sound_of_range (range : c.addresses ≤ c.services.length) : c.Sound := by
  intro history c' run
  have range' := exec_invariant_always (fun c => c.addresses ≤ c.services.length)
    (fun _ a _ => select_range a) range run
  exact ⟨c'.nextService_chosen, randomService_chosen range' _⟩

theorem not_defined_of_draw {post : Heard → Option ℕ × Config → Prop}
    (range : c.services.length < c.addresses) (current : c.cService ≠ c.services.length)
    (tries : ℕ) : ¬ Ensures Defined post heard (c.randomService (tries + 1)) := by
  intro ensures
  rw [randomService] at ensures
  have drawn := ensures.2 ⟨c.services.length, range⟩
  change Ensures Defined post _ (ite _ _ _) at drawn
  simp only [lt_irrefl, if_false, Ne.symm current, List.getElem?_length] at drawn
  exact drawn.1 rfl

theorem available_connected {s : RPCService} (fresh : s.circuitBreaker.state = .closed)
    (policy : RetryPolicy) :
    (s.available policy).replay [⟨.connected s.address, true⟩] = some (true, s) := by
  have closed : (s.circuitBreaker.isOpen policy).replay [] = some (false, s.circuitBreaker) := by
    rw [CircuitBreaker.isOpen, fresh]
    rfl
  refine Program.replay_bind closed ?_
  exact dif_pos rfl

theorem select_first {s : RPCService} {rest : List RPCService} (first : c.services = s :: rest)
    (fresh : s.circuitBreaker.state = .closed) (current : c.cService = c.services.length) :
    c.select (.next [⟨.connected s.address, true⟩]) = some { c with cService := 0 } := by
  have outside : c.services[c.cService]? = none := by simp [current]
  have walked : (Config.nextActiveService c.policy c.cService 0 c.services).replay
      [⟨.connected s.address, true⟩] = some (0, c.services) := by
    rw [first, Config.nextActiveService, if_neg (by simp [current, first])]
    exact Program.replay_bind (available_connected fresh c.policy) rfl
  have found : c.nextService.replay [⟨.connected s.address, true⟩] =
      some (some 0, { c with cService := 0 }) := by
    rw [nextService]
    dsimp only
    rw [outside]
    have inside : 0 ≠ c.services.length := by simp [first]
    refine Program.replay_bind walked ?_
    dsimp only
    rw [if_neg inside]
    rfl
  rw [select, found, Option.map_some]

theorem not_sound_of_repeated {s : RPCService} {rest : List RPCService}
    (first : c.services = s :: rest) (fresh : s.circuitBreaker.state = .closed)
    (current : c.cService = c.services.length) (range : c.services.length < c.addresses) :
    ¬ c.Sound := by
  intro sound
  have run : exec select c [.next [⟨.connected s.address, true⟩]] =
      some { c with cService := 0 } := by
    rw [exec, select_first first fresh current]
    rfl
  obtain ⟨-, random⟩ := sound _ _ run
  have tries : 10 * c.services.length = 10 * rest.length + 9 + 1 := by
    rw [first, List.length_cons]
    omega
  dsimp only at random
  rw [tries] at random
  refine not_defined_of_draw (c := { c with cService := 0 }) range ?_ _ random
  simp [first]

/-- Selection is sound just when no address is repeated. -/
theorem selection_sound_iff (policy : RetryPolicy) (walk : List String → List String)
    (permutes : ∀ names, (walk names).Perm names) (addresses : List String)
    (nonempty : addresses ≠ []) :
    (∀ c, make policy walk addresses = some c → c.Sound) ↔ addresses.Nodup := by
  rw [make, if_neg nonempty]
  dsimp only
  have length : ((walk addresses.dedup).map fun address => ({ address } : RPCService)).length =
      addresses.dedup.length := by rw [List.length_map, (permutes _).length_eq]
  generalize built : (walk addresses.dedup).map (fun address => ({ address } : RPCService)) =
    services at length
  constructor
  · intro sound
    by_contra repeated
    -- with a repetition the draws reach one past the map
    have shorter : addresses.dedup.length < addresses.length := by
      refine lt_of_le_of_ne (List.dedup_sublist addresses).length_le fun same => repeated ?_
      exact (List.dedup_sublist addresses).eq_of_length same ▸ List.nodup_dedup addresses
    have walked : walk addresses.dedup ≠ [] := fun empty => nonempty <| by
      rw [← List.dedup_eq_nil, ← List.nil_perm, ← empty]
      exact permutes _
    obtain ⟨name, names, order⟩ := List.exists_cons_of_ne_nil walked
    rw [order, List.map_cons] at built
    exact not_sound_of_repeated built.symm rfl rfl (by dsimp only; omega) (sound _ rfl)
  · rintro nodup c ⟨⟩
    refine sound_of_range ?_
    dsimp only
    rw [length, nodup.dedup]

end

theorem selection_sound_two : ∃ c, make patientPolicy id ["a", "b"] = some c ∧ c.Sound :=
  ⟨_, rfl, (selection_sound_iff patientPolicy id (fun names => List.Perm.refl names) ["a", "b"]
    (by decide)).mpr (by decide) _ rfl⟩

/-- One address given twice: once its service is current, the end of the map is drawn. -/
theorem selection_repeated :
    ∃ c c', make patientPolicy id ["a", "a"] = some c ∧
      exec select c [.next [⟨.connected "a", true⟩]] = some c' ∧
      ¬ Ensures Defined (fun _ _ => True) [] (c'.randomService (10 * c'.services.length)) := by
  refine ⟨_, ⟨patientPolicy, [{ address := "a" }], 2, 0⟩, rfl, rfl, ?_⟩
  exact not_defined_of_draw (by decide) (by decide) 9

end Zdb.KV.Config
