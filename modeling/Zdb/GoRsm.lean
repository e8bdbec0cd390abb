import Zdb.GoSubmit
import Zdb.LabelledRun

/-! `raft::Rsm` under the Go tester: the calls of `Submit` on one node, the consumer thread
and the `PendingRequests` between them, from `MakeRSM` until `Kill`. What Raft does is left
open: it accepts a command or does not, and it gives any commands to the channel. -/

namespace Zdb.Go
open Object GoChannel LabelledRun

inductive Future where
  | empty
  | value (s : Option KV.State)
  | broken
  deriving DecidableEq, Repr

/-- Where a call of `Rsm::handle` stands. `threw`: `f.get()` has thrown out of it. -/
inductive Phase where
  | invoked
  | started
  | waiting (f : Future)
  | returned (s : Option KV.State)
  | threw
  deriving DecidableEq, Repr

structure Call (α : Type) where
  req : Option α
  command : Object.Command
  phase : Phase := .invoked

/-- Calls are named by their position in `calls`. The consumer thread is between
`applyCommand` and `complete` when `consumer` holds something; `consumed` is what it has
taken off the channel. -/
structure RSM (σ α : Type) where
  machine : σ
  consumer : Option (UUIDV7 × Option KV.State) := none
  pending : UUIDV7 → Option ℕ := fun _ => none
  calls : List (Call α) := []
  consumed : List Object.Command := []

inductive RSM.Action (α : Type) where
  | submit (uuid : UUIDV7) (req : Option α)
  | start (k : ℕ) (accepted : Bool)
  | add (k : ℕ)
  | deliver (c : Object.Command)
  | complete
  | get (k : ℕ)
  | timeout (k : ℕ)

variable {α σ : Type}

def settle (calls : List (Call α)) (k : ℕ) (f : Future) : List (Call α) :=
  match calls[k]? with
  | some ⟨req, command, .waiting .empty⟩ => calls.set k ⟨req, command, .waiting f⟩
  | _ => calls

namespace RSM

def proceed (s : RSM σ α) (k : ℕ) (next : Phase → Option Phase) : Option (RSM σ α) := do
  let call ← s.calls[k]?
  let phase ← next call.phase
  return { s with calls := s.calls.set k { call with phase } }

def startPhase (accepted : Bool) : Phase → Option Phase
  | .invoked => some (if accepted then .started else .returned (some notLeaderState))
  | _ => none

def getPhase : Phase → Option Phase
  | .waiting (.value s) => some (.returned s)
  | .waiting .broken => some .threw
  | _ => none

def timeoutPhase : Phase → Option Phase
  | .waiting .empty => some (.returned (some notLeaderState))
  | _ => none

variable (gob : Labgob α) (doOp : σ → Option α → σ × Option α)

/-- An assignment to an index that has a promise already destroys this one. There is no
step after a write behind the end of a buffer, nor after an exception in the consumer. -/
def step (s : RSM σ α) : Action α → Option (RSM σ α)
  | .submit uuid req => do
      let command ← commandFactory (Proto.commandMessage.serialize (submitMessage gob uuid req))
      return { s with calls := s.calls ++ [{ req, command }] }
  | .start k accepted => s.proceed k (startPhase accepted)
  | .add k => do
      let call ← s.calls[k]?
      if call.phase = .started then
        let calls := (s.pending call.command.uuid).elim s.calls fun old =>
          settle s.calls old .broken
        return { s with
          pending := fun uuid => if uuid = call.command.uuid then some k else s.pending uuid
          calls := calls.set k { call with phase := .waiting .empty } }
      else none
  | .deliver c =>
      if s.consumer.isSome then none
      else match deliver gob doOp s.machine c with
        | .ok (machine, consumer) =>
            some { s with machine, consumer, consumed := s.consumed ++ [c] }
        | _ => none
  | .complete => do
      let (uuid, state) ← s.consumer
      match s.pending uuid with
      | none => return { s with consumer := none }
      | some k => return { s with
          consumer := none
          pending := fun other => if other = uuid then none else s.pending other
          calls := settle s.calls k (.value state) }
  | .get k => s.proceed k getPhase
  | .timeout k => s.proceed k timeoutPhase

/-- Every call has a UUID of its own, and Raft gives nothing to the channel but commands of
the replicated state machine, under the UUID of a call the command of this call. -/
def Unmixed (s : RSM σ α) : Action α → Prop
  | .submit uuid _ => (∀ call ∈ s.calls, call.command.uuid ≠ uuid) ∧
      ∀ c ∈ s.consumed, c.uuid ≠ uuid
  | .deliver c => c.payload.kind = .rmsCommand ∧ ∀ call ∈ s.calls,
      c.uuid = call.command.uuid → c = { call.command with index := c.index }
  | _ => True

instance (s : RSM σ α) (a : Action α) : Decidable (Unmixed s a) := by
  cases a <;> unfold Unmixed <;> infer_instance

def replay (machine : σ) (commands : List Object.Command) : σ :=
  commands.foldl (fun machine c => match deliver gob doOp machine c with
    | .ok (machine', _) => machine'
    | _ => machine) machine

/-- `state` is what the machine has made of the request of `call`, at the place of its
command among all that were consumed. -/
def Earned (machine : σ) (consumed : List Object.Command) (call : Call α)
    (state : Option KV.State) : Prop :=
  ∃ before index after, consumed = before ++ { call.command with index } :: after ∧
    ({ call.command with index } : Object.Command).serialize.length ≤ bufferSize ∧
    (replyMessage gob (doOp (replay gob doOp machine before) call.req).2).length ≤
      GoStateMachine.maxSize ∧
    state = some (replyState gob (doOp (replay gob doOp machine before) call.req).2)

def Handed (earned : Option KV.State → Prop) : Phase → Prop
  | .waiting (.value s) => earned s
  | .waiting .broken => False
  | .returned s => s = some notLeaderState ∨ earned s
  | .threw => False
  | _ => True

structure Sound (machine : σ) (s : RSM σ α) : Prop where
  replayed : s.machine = replay gob doOp machine s.consumed
  made : ∀ call ∈ s.calls, call.command = submitted gob call.command.uuid call.req 0
  distinct : ∀ (i j : ℕ) (a b : Call α), s.calls[i]? = some a → s.calls[j]? = some b →
    a.command.uuid = b.command.uuid → i = j
  consumer : ∀ uuid state, s.consumer = some (uuid, state) →
    (∃ c ∈ s.consumed, c.uuid = uuid) ∧
    ∀ call ∈ s.calls, call.command.uuid = uuid → Earned gob doOp machine s.consumed call state
  handed : ∀ call ∈ s.calls, Handed (Earned gob doOp machine s.consumed call) call.phase
  named : ∀ uuid k, s.pending uuid = some k →
    ∃ call, s.calls[k]? = some call ∧ call.command.uuid = uuid
  registered : ∀ k call, s.calls[k]? = some call → call.phase = .waiting .empty →
    s.pending call.command.uuid = some k

section
variable {gob : Labgob α} {doOp : σ → Option α → σ × Option α} {machine : σ} {s t : RSM σ α}
  {consumed : List Object.Command} {call : Call α} {state : Option KV.State}

theorem replay_concat (machine : σ) (commands : List Object.Command) (c : Object.Command) :
    replay gob doOp machine (commands ++ [c]) =
      match Go.deliver gob doOp (replay gob doOp machine commands) c with
      | .ok (machine', _) => machine'
      | _ => replay gob doOp machine commands :=
  List.foldl_concat ..

theorem settle_of_found {calls : List (Call α)} {k : ℕ} (found : calls[k]? = some call)
    (f : Future) :
    settle calls k f = calls.set k { call with
      phase := if call.phase = .waiting .empty then .waiting f else call.phase } := by
  obtain ⟨req, command, phase⟩ := call
  by_cases waits : phase = .waiting .empty
  · subst waits
    simp [settle, found]
  · obtain ⟨inside, same⟩ := List.getElem?_eq_some_iff.mp found
    have kept : settle calls k f = calls := by
      rw [settle, found]
      split
      · simp_all
      · rfl
    simp only [waits, if_false, kept]
    rw [← same, List.set_getElem_self]

theorem getElem?_set_of_found {calls : List (Call α)} {k : ℕ} (found : calls[k]? = some call)
    (new : Call α) (j : ℕ) :
    (calls.set k new)[j]? = if j = k then some new else calls[j]? := by
  obtain ⟨inside, -⟩ := List.getElem?_eq_some_iff.mp found
  rw [List.getElem?_set]
  by_cases here : j = k
  · simp [here, inside]
  · simp [here, Ne.symm here]

theorem Earned.later (earned : Earned gob doOp machine consumed call state)
    (c : Object.Command) : Earned gob doOp machine (consumed ++ [c]) call state := by
  obtain ⟨before, index, after, rfl, rest⟩ := earned
  exact ⟨before, index, after ++ [c], by simp, rest⟩

theorem Handed.mono {earned earned' : Option KV.State → Prop} {phase : Phase}
    (handed : Handed earned phase) (more : ∀ state, earned state → earned' state) :
    Handed earned' phase := by
  rcases phase with _ | _ | (_ | state | _) | state | _
  case waiting.value => exact more _ handed
  case returned => exact handed.imp_right (more _)
  all_goals exact handed

theorem Sound.turn (sound : Sound gob doOp machine s) {k : ℕ} {phase : Phase}
    {pending : UUIDV7 → Option ℕ} (found : s.calls[k]? = some call)
    (handed : Handed (Earned gob doOp machine s.consumed call) phase)
    (same : ∀ uuid, uuid ≠ call.command.uuid → pending uuid = s.pending uuid)
    (own : ∀ j, pending call.command.uuid = some j → j = k)
    (self : phase = .waiting .empty → pending call.command.uuid = some k) :
    Sound gob doOp machine { s with pending, calls := s.calls.set k { call with phase } } := by
  have mem : call ∈ s.calls := List.mem_of_getElem? found
  have lookup := getElem?_set_of_found found { call with phase }
  -- a position keeps its command
  have kept : ∀ (j : ℕ) (other : Call α), (s.calls.set k { call with phase })[j]? = some other →
      ∃ old, s.calls[j]? = some old ∧ old.command = other.command := by
    intro j other at_
    rw [lookup] at at_
    split_ifs at at_ with here
    · cases at_
      exact ⟨call, here ▸ found, rfl⟩
    · exact ⟨other, at_, rfl⟩
  refine ⟨sound.replayed, ?made, ?distinct, ?consumer, ?handed, ?named, ?registered⟩
  case made =>
    intro other listed
    rcases List.mem_or_eq_of_mem_set listed with old | rfl
    · exact sound.made other old
    · exact sound.made call mem
  case distinct =>
    intro i j a b atI atJ uuids
    obtain ⟨a', atI, sameA⟩ := kept i a atI
    obtain ⟨b', atJ, sameB⟩ := kept j b atJ
    exact sound.distinct i j a' b' atI atJ (by rw [sameA, sameB, uuids])
  case consumer =>
    intro uuid state holds
    obtain ⟨taken, earned⟩ := sound.consumer uuid state holds
    refine ⟨taken, fun other listed its => ?_⟩
    rcases List.mem_or_eq_of_mem_set listed with old | rfl
    · exact earned other old its
    · exact earned call mem its
  case handed =>
    intro other listed
    rcases List.mem_or_eq_of_mem_set listed with old | rfl
    · exact sound.handed other old
    · exact handed
  case named =>
    intro uuid j names
    by_cases its : uuid = call.command.uuid
    · cases own j (its ▸ names)
      exact ⟨_, (lookup k).trans (if_pos rfl), its.symm⟩
    · obtain ⟨other, at_, named⟩ := sound.named uuid j ((same uuid its).symm.trans names)
      have elsewhere : j ≠ k := by
        rintro rfl
        rw [found] at at_
        cases at_
        exact its named.symm
      exact ⟨other, (lookup j).trans ((if_neg elsewhere).trans at_), named⟩
  case registered =>
    intro j other at_ waits
    rw [lookup] at at_
    split_ifs at at_ with here
    · cases at_
      exact here ▸ self waits
    · have differs : other.command.uuid ≠ call.command.uuid := fun equal =>
        here (sound.distinct j k other call at_ found equal)
      exact (same _ differs).trans (sound.registered j other at_ waits)

theorem Sound.proceed (sound : Sound gob doOp machine s) {k : ℕ} {next : Phase → Option Phase}
    (fair : ∀ earned phase phase', Handed earned phase → next phase = some phase' →
      Handed earned phase' ∧ phase' ≠ .waiting .empty)
    (moved : s.proceed k next = some t) : Sound gob doOp machine t := by
  obtain ⟨call, found, moved⟩ := Option.bind_eq_some_iff.mp moved
  obtain ⟨phase, turns, moved⟩ := Option.bind_eq_some_iff.mp moved
  cases moved
  obtain ⟨handed, empty⟩ := fair _ _ _ (sound.handed call (List.mem_of_getElem? found)) turns
  refine sound.turn found handed (fun _ _ => rfl) (fun j names => ?_) fun waits =>
    absurd waits empty
  obtain ⟨other, at_, its⟩ := sound.named _ j names
  exact sound.distinct j k other call at_ found its

theorem Sound.submit (sound : Sound gob doOp machine s) {uuid : UUIDV7} {req : Option α}
    (fresh : Unmixed s (.submit uuid req)) (moved : step gob doOp s (.submit uuid req) = some t) :
    Sound gob doOp machine t := by
  rw [step, commandFactory_submitMessage] at moved
  cases moved
  obtain ⟨unused, unseen⟩ := fresh
  have old : ∀ (j : ℕ) (other : Call α),
      (s.calls ++ [{ req, command := submitted gob uuid req 0 }])[j]? = some other →
      s.calls[j]? = some other ∨ j = s.calls.length ∧
        other = { req, command := submitted gob uuid req 0 } := by
    intro j other at_
    rcases Nat.lt_trichotomy j s.calls.length with before | rfl | after
    · exact Or.inl (by rwa [List.getElem?_append_left before] at at_)
    · simp only [List.getElem?_concat_length, Option.some.injEq] at at_
      exact Or.inr ⟨rfl, at_.symm⟩
    · rw [List.getElem?_eq_none (by simpa using Nat.succ_le_of_lt after)] at at_
      cases at_
  refine ⟨sound.replayed, ?made, ?distinct, ?consumer, ?handed, ?named, ?registered⟩
  case made =>
    intro other listed
    rcases List.mem_append.mp listed with earlier | new
    · exact sound.made other earlier
    · cases List.mem_singleton.mp new
      rfl
  case distinct =>
    intro i j a b atI atJ uuids
    rcases old i a atI with atI | ⟨rfl, rfl⟩ <;> rcases old j b atJ with atJ | ⟨rfl, rfl⟩
    · exact sound.distinct i j a b atI atJ uuids
    · exact absurd uuids (unused a (List.mem_of_getElem? atI))
    · exact absurd uuids.symm (unused b (List.mem_of_getElem? atJ))
    · rfl
  case consumer =>
    intro other state holds
    obtain ⟨⟨c, taken, its⟩, earned⟩ := sound.consumer other state holds
    refine ⟨⟨c, taken, its⟩, fun call listed same => ?_⟩
    rcases List.mem_append.mp listed with earlier | new
    · exact earned call earlier same
    · cases List.mem_singleton.mp new
      exact absurd (its.trans same.symm) (unseen c taken)
  case handed =>
    intro other listed
    rcases List.mem_append.mp listed with earlier | new
    · exact sound.handed other earlier
    · cases List.mem_singleton.mp new
      trivial
  case named =>
    intro other k names
    obtain ⟨call, at_, its⟩ := sound.named other k names
    have inside : k < s.calls.length := (List.getElem?_eq_some_iff.mp at_).1
    exact ⟨call, (List.getElem?_append_left inside).trans at_, its⟩
  case registered =>
    intro k other at_ waits
    rcases old k other at_ with at_ | ⟨_, rfl⟩
    · exact sound.registered k other at_ waits
    · cases waits

theorem Sound.add (sound : Sound gob doOp machine s) {k : ℕ}
    (moved : step gob doOp s (.add k) = some t) : Sound gob doOp machine t := by
  obtain ⟨call, found, moved⟩ := Option.bind_eq_some_iff.mp moved
  split_ifs at moved with started
  cases moved
  -- nothing is registered under the UUID but this call, which does not wait yet
  have unbroken : (s.pending call.command.uuid).elim s.calls
      (fun old => settle s.calls old .broken) = s.calls := by
    cases names : s.pending call.command.uuid with
    | none => rfl
    | some old =>
      obtain ⟨other, at_, its⟩ := sound.named _ old names
      cases sound.distinct old k other call at_ found its
      obtain ⟨req, command, phase⟩ := call
      cases started
      simp [settle, found]
  simp only [unbroken]
  exact sound.turn found trivial (fun uuid differs => if_neg differs)
    (fun j names => by simpa using names.symm) fun _ => if_pos rfl

theorem Sound.deliver (sound : Sound gob doOp machine s) {c : Object.Command}
    (own : Unmixed s (.deliver c)) (moved : step gob doOp s (.deliver c) = some t) :
    Sound gob doOp machine t := by
  rw [step] at moved
  split_ifs at moved with idle
  cases delivered : Go.deliver gob doOp s.machine c with
  | ok result =>
    obtain ⟨machine', done⟩ := result
    simp only [delivered, Option.some.injEq] at moved
    cases moved
    obtain ⟨state, rfl⟩ := deliver_uuid gob doOp own.1 delivered
    refine ⟨?_, sound.made, sound.distinct, ?_, fun call listed =>
      (sound.handed call listed).mono fun _ earned => earned.later c, sound.named,
      sound.registered⟩
    · rw [replay_concat, ← sound.replayed, delivered]
    · intro uuid state' holds
      cases holds
      refine ⟨⟨c, by simp, rfl⟩, fun call listed its => ?_⟩
      have made := sound.made call listed
      have whole : c = submitted gob call.command.uuid call.req c.index := by
        rw [own.2 call listed its.symm, made]
        rfl
      rw [whole, deliver_submitted] at delivered
      split_ifs at delivered with fits
      simp only [Outcome.ok.injEq, Prod.mk.injEq, Option.some.injEq] at delivered
      rw [not_or, Nat.not_lt, Nat.not_lt] at fits
      have indexed : ({ call.command with index := c.index } : Object.Command) = c :=
        (own.2 call listed its.symm).symm
      refine ⟨s.consumed, c.index, [], by rw [indexed], ?_, ?_, ?_⟩
      · rw [indexed, whole]
        exact fits.1
      · rw [← sound.replayed]
        exact fits.2
      · rw [← sound.replayed]
        exact delivered.2.2.symm
  | _ => simp [delivered] at moved

theorem Sound.complete (sound : Sound gob doOp machine s)
    (moved : step gob doOp s .complete = some t) : Sound gob doOp machine t := by
  obtain ⟨⟨uuid, state⟩, holds, moved⟩ := Option.bind_eq_some_iff.mp moved
  have idle : Sound gob doOp machine { s with consumer := none } :=
    { sound with consumer := fun _ _ nothing => by cases nothing }
  cases names : s.pending uuid with
  | none =>
    simp only [names] at moved
    cases moved
    exact idle
  | some k =>
    simp only [names] at moved
    cases moved
    obtain ⟨call, found, rfl⟩ := sound.named uuid k names
    have mem : call ∈ s.calls := List.mem_of_getElem? found
    rw [settle_of_found found]
    refine idle.turn found ?_ (fun other differs => if_neg differs)
      (fun j gone => by simp at gone) fun waits => ?_
    · split_ifs
      · exact (sound.consumer _ state holds).2 call mem rfl
      · exact sound.handed call mem
    · split_ifs at waits with empty
      · cases waits
      · exact absurd waits empty

theorem Sound.step (sound : Sound gob doOp machine s) {a : Action α} (own : Unmixed s a)
    (moved : step gob doOp s a = some t) : Sound gob doOp machine t := by
  cases a with
  | submit uuid req => exact sound.submit own moved
  | start k accepted =>
    refine sound.proceed (fun earned phase phase' _ next => ?_) moved
    cases phase <;> cases next
    cases accepted
    · exact ⟨Or.inl rfl, by simp⟩
    · exact ⟨trivial, by simp⟩
  | add k => exact sound.add moved
  | deliver c => exact sound.deliver own moved
  | complete => exact sound.complete moved
  | get k =>
    refine sound.proceed (fun earned phase phase' handed next => ?_) moved
    rcases phase with _ | _ | (_ | state | _) | state | _ <;> cases next
    · exact ⟨Or.inr handed, by simp⟩
    · exact handed.elim
  | timeout k =>
    refine sound.proceed (fun earned phase phase' _ next => ?_) moved
    rcases phase with _ | _ | (_ | state | _) | state | _ <;> cases next
    exact ⟨Or.inl rfl, by simp⟩

theorem Sound.initial (gob : Labgob α) (doOp : σ → Option α → σ × Option α) (machine : σ) :
    Sound gob doOp machine { machine } where
  replayed := rfl
  made := by simp
  distinct := by simp
  consumer := by simp
  handed := by simp
  named := by simp
  registered := by simp

end

end RSM

/-- A call of `Submit` that returns has the reply to its own request, made where its command
stands among all that the machine has executed, or it is told to find another leader. As
long as it waits for a value it is registered, so that the completion of its command reaches
it, and the value it then has is that reply; what is completed before `add` is lost on it. -/
theorem submit_answered (gob : Labgob α) (doOp : σ → Option α → σ × Option α) (machine : σ)
    (actions : List (RSM.Action α)) (s : RSM σ α)
    (run : exec (RSM.step gob doOp) { machine } actions = some s)
    (own : Along (RSM.step gob doOp) RSM.Unmixed { machine } actions)
    (k : ℕ) (call : Call α) (found : s.calls[k]? = some call) :
    call.phase ≠ .threw ∧
    (call.phase = .waiting .empty → s.pending call.command.uuid = some k) ∧
    (∀ state, call.phase = .waiting (.value state) →
      RSM.Earned gob doOp machine s.consumed call state) ∧
    ∀ state, call.phase = .returned state →
      submitResult gob state = .ok (.errWrongLeader, none) ∨
      ∃ before index after, s.consumed = before ++ { call.command with index } :: after ∧
        ({ call.command with index } : Object.Command).serialize.length ≤ bufferSize ∧
        (replyMessage gob (doOp (RSM.replay gob doOp machine before) call.req).2).length ≤
          GoStateMachine.maxSize ∧
        submitResult gob state =
          .ok (.ok, (doOp (RSM.replay gob doOp machine before) call.req).2) := by
  have sound : RSM.Sound gob doOp machine s :=
    exec_invariant (RSM.Sound gob doOp machine) (fun _ _ _ sound own => sound.step own)
      (.initial gob doOp machine) own run
  have handed := sound.handed call (List.mem_of_getElem? found)
  refine ⟨fun threw => ?_, sound.registered k call found, fun state ready => ?_,
    fun state returned => ?_⟩
  · rw [threw] at handed
    exact handed
  · rw [ready] at handed
    exact handed
  · rw [returned] at handed
    rcases handed with rfl | ⟨before, index, after, listed, short, fits, rfl⟩
    · exact Or.inl (submitResult_notLeader gob)
    · exact Or.inr ⟨before, index, after, listed, short, fits, submitResult_reply gob fits⟩

section Runs

def byte : Option Bool → UInt8
  | none => 0
  | some false => 1
  | some true => 2

def bit (b : UInt8) : Option Bool := if b = 0 then none else some (b = 2)

def bits : Labgob Bool where
  encode op := [byte op.req, byte op.rep]
  decode
    | [req, rep] => some ⟨bit req, bit rep⟩
    | _ => none
  encode_ne_nil op := by simp
  decode_encode := by rintro ⟨_ | _ | _, _ | _ | _⟩ <;> rfl

def lastBit (machine : Option Bool) (req : Option Bool) : Option Bool × Option Bool :=
  (req, machine)

/-- The command of the second call is executed first, and before this call is registered. -/
def overtaken : List (RSM.Action Bool) :=
  [.submit (Vector.replicate 16 0) (some true), .submit (Vector.replicate 16 1) (some false),
    .start 0 true, .start 1 true, .add 0,
    .deliver (submitted bits (Vector.replicate 16 1) (some false) 1), .complete, .add 1,
    .deliver (submitted bits (Vector.replicate 16 0) (some true) 2), .complete, .get 0,
    .timeout 1]

theorem submit_answered_overtaken : ∃ s first second,
    exec (RSM.step bits lastBit) { machine := none } overtaken = some s ∧
    s.calls[0]? = some first ∧ s.calls[1]? = some second ∧
    first.phase = .returned (some (replyState bits (some false))) ∧
    second.phase = .returned (some notLeaderState) ∧
    (submitResult bits (some (replyState bits (some false))) = .ok (.errWrongLeader, none) ∨
      ∃ before index after, s.consumed = before ++ { first.command with index } :: after ∧
        ({ first.command with index } : Object.Command).serialize.length ≤ bufferSize ∧
        (replyMessage bits (lastBit (RSM.replay bits lastBit none before) first.req).2).length ≤
          GoStateMachine.maxSize ∧
        submitResult bits (some (replyState bits (some false))) =
          .ok (.ok, (lastBit (RSM.replay bits lastBit none before) first.req).2)) := by
  have own : Along (RSM.step bits lastBit) RSM.Unmixed { machine := none } overtaken := by
    decide +kernel
  obtain ⟨s, first, second, run, found, found', returned, returned'⟩ : ∃ s first second,
      exec (RSM.step bits lastBit) { machine := none } overtaken = some s ∧
      s.calls[0]? = some first ∧ s.calls[1]? = some second ∧
      first.phase = .returned (some (replyState bits (some false))) ∧
      second.phase = .returned (some notLeaderState) := by
    refine ⟨_, _, _, (Option.some_get (by decide +kernel)).symm,
      (Option.some_get (by decide +kernel)).symm, (Option.some_get (by decide +kernel)).symm,
      by decide +kernel, by decide +kernel⟩
  exact ⟨s, first, second, run, found, found', returned, returned',
    (submit_answered bits lastBit none overtaken s run own 0 first found).2.2.2 _ returned⟩

end Runs

end Zdb.Go
