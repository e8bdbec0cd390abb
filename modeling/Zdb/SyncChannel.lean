import Mathlib.Data.Finset.Card
import Zdb.LabelledRun

/-! The channel between Raft and the state machine: one slot, one mutex and one
condition variable for all callers. The stretches between two releases of the mutex
are the steps; which waiter `notify_one` picks, when a waiter wakes up without being
notified and when a deadline passes is up to the run. -/

namespace Zdb.SyncChannel
open LabelledRun

inductive ChannelError where
  | closed
  deriving DecidableEq, Repr

inductive Call (T : Type) where
  | send (cmd : T)
  | sendUntil (cmd : T)
  | receive
  | receiveUntil
  deriving DecidableEq, Repr

inductive Reply (T : Type) where
  | void
  | bool (sent : Bool)
  | optional (value : Option T)
  | expected (value : Except ChannelError (Option T))

variable {ι T : Type}

/-- `calls` holds the calls that are inside a `cv.wait`, `waiting` the callers among
them that nobody has notified since. -/
structure Channel (ι T : Type) where
  value : Option T := none
  closed : Bool := false
  calls : ι → Option (Call T) := fun _ => none
  waiting : List ι := []

/-- What a caller got, and whether the channel was closed by then. -/
structure Return (ι T : Type) where
  thread : ι
  call : Call T
  reply : Reply T
  closed : Bool

def Return.accepted (r : Return ι T) : Option T :=
  match r.call, r.reply with
  | .send cmd, _ => if r.closed then none else some cmd
  | .sendUntil cmd, .bool true => some cmd
  | _, _ => none

def Return.received (r : Return ι T) : Option T :=
  match r.reply with
  | .optional value => value
  | .expected (.ok value) => value
  | _ => none

namespace Channel

def mustWait (c : Channel ι T) : Call T → Bool
  | .send _ | .sendUntil _ => c.value.isSome && !c.closed
  | .receive | .receiveUntil => c.value.isNone && !c.closed

/-- `notify_one` picks the `k`-th waiter, if there is any. -/
def notifyOne (c : Channel ι T) (k : ℕ) : Channel ι T :=
  { c with waiting := c.waiting.eraseIdx k }

def put (c : Channel ι T) (k : ℕ) (cmd : T) (dropped done : Reply T) : Channel ι T × Reply T :=
  if c.closed then (c, dropped) else (({ c with value := some cmd }).notifyOne k, done)

def take (c : Channel ι T) (k : ℕ) (found : T → Reply T) (empty : Reply T) :
    Channel ι T × Reply T :=
  match c.value with
  | some cmd => (({ c with value := none }).notifyOne k, found cmd)
  | none => (c, empty)

def send (c : Channel ι T) (k : ℕ) (cmd : T) := c.put k cmd .void .void

def sendUntil (c : Channel ι T) (k : ℕ) (cmd : T) := c.put k cmd (.bool false) (.bool true)

def receive (c : Channel ι T) (k : ℕ) := c.take k (fun cmd => .optional (some cmd)) (.optional none)

def receiveUntil (c : Channel ι T) (k : ℕ) :=
  c.take k (fun cmd => .expected (.ok (some cmd))) (.expected (.error .closed))

def body (c : Channel ι T) (k : ℕ) : Call T → Channel ι T × Reply T
  | .send cmd => c.send k cmd
  | .sendUntil cmd => c.sendUntil k cmd
  | .receive => c.receive k
  | .receiveUntil => c.receiveUntil k

def timeoutReply : Call T → Option (Reply T)
  | .sendUntil _ => some (.bool false)
  | .receiveUntil => some (.expected (.ok none))
  | _ => none

end Channel

structure System (ι T : Type) extends Channel ι T where
  returned : List (Return ι T) := []

inductive Action (ι T : Type) where
  | call (thread : ι) (call : Call T) (k : ℕ)
  | wake (thread : ι)
  | resume (thread : ι) (k : ℕ)
  | expire (thread : ι)
  | close

namespace System
variable [DecidableEq ι]

def loop (s : System ι T) (thread : ι) (call : Call T) (k : ℕ) : Option (System ι T) :=
  if s.mustWait call then
    some { s with
      calls := Function.update s.calls thread (some call)
      waiting := s.waiting ++ [thread] }
  else if s.waiting ≠ [] ∧ s.waiting.length ≤ k then none
  else
    let (c, reply) := s.body k call
    some { c with
      calls := Function.update c.calls thread none
      returned := s.returned ++ [⟨thread, call, reply, s.closed⟩] }

def step (s : System ι T) : Action ι T → Option (System ι T)
  | .call thread call k => if s.calls thread = none then s.loop thread call k else none
  | .wake thread =>
      if thread ∈ s.waiting then some { s with waiting := s.waiting.erase thread } else none
  | .resume thread k =>
      if thread ∈ s.waiting then none
      else (s.calls thread).bind fun call => s.loop thread call k
  | .expire thread =>
      if thread ∈ s.waiting then none
      else (s.calls thread).bind fun call => (Channel.timeoutReply call).map fun reply =>
        { s with
          calls := Function.update s.calls thread none
          returned := s.returned ++ [⟨thread, call, reply, s.closed⟩] }
  | .close => some { s with closed := true, waiting := [] }

def run (actions : List (Action ι T)) : Option (System ι T) := exec step {} actions

end System

/-- `thread` holds the mutex in the loop of `call`: it has just called, or it has been
woken up. -/
def Holds (s : System ι T) (a : Action ι T) (thread : ι) (call : Call T) : Prop :=
  (s.calls thread = none ∧ ∃ k, a = .call thread call k) ∨
    (s.calls thread = some call ∧ thread ∉ s.waiting)

def Call.sends : Call T → Bool
  | .send _ | .sendUntil _ => true
  | .receive | .receiveUntil => false

section Moves
variable [DecidableEq ι] {s t : System ι T} {a : Action ι T}

inductive Move (s : System ι T) (a : Action ι T) : System ι T → Prop
  | sleep (thread call) (holds : Holds s a thread call) (waits : s.mustWait call = true) :
      Move s a { s with
        calls := Function.update s.calls thread (some call)
        waiting := s.waiting ++ [thread] }
  | put (thread call cmd k r) (holds : Holds s a thread call) (sends : call.sends = true)
      (empty : s.value = none) (opened : s.closed = false)
      (picks : s.waiting = [] ∨ k < s.waiting.length) (accepted : r.accepted = some cmd)
      (received : r.received = none) :
      Move s a { s with
        value := some cmd
        calls := Function.update s.calls thread none
        waiting := s.waiting.eraseIdx k
        returned := s.returned ++ [r] }
  | take (thread call cmd k r) (holds : Holds s a thread call) (receives : call.sends = false)
      (full : s.value = some cmd) (picks : s.waiting = [] ∨ k < s.waiting.length)
      (accepted : r.accepted = none) (received : r.received = some cmd) :
      Move s a { s with
        value := none
        calls := Function.update s.calls thread none
        waiting := s.waiting.eraseIdx k
        returned := s.returned ++ [r] }
  | fail (thread r) (awake : thread ∉ s.waiting ∨ s.calls thread = none)
      (accepted : r.accepted = none) (received : r.received = none) :
      Move s a { s with
        calls := Function.update s.calls thread none
        returned := s.returned ++ [r] }
  | wake (thread) : Move s a { s with waiting := s.waiting.erase thread }
  | close : Move s a { s with closed := true, waiting := [] }

omit [DecidableEq ι] in
theorem Holds.awake {thread : ι} {call : Call T} (holds : Holds s a thread call) :
    thread ∉ s.waiting ∨ s.calls thread = none :=
  holds.elim (fun idle => Or.inr idle.1) fun woken => Or.inl woken.2

theorem put_move {thread : ι} {call : Call T} {k : ℕ} {cmd : T} {dropped done : Reply T}
    (holds : Holds s a thread call) (sends : call.sends = true)
    (waits : s.closed = false → s.value = none) (picks : s.waiting = [] ∨ k < s.waiting.length)
    (refused : s.closed = true → (Return.mk thread call dropped s.closed).accepted = none)
    (given : s.closed = false → (Return.mk thread call done s.closed).accepted = some cmd)
    (silent : ∀ b, (Return.mk thread call dropped b).received = none ∧
      (Return.mk thread call done b).received = none) :
    Move s a { (s.put k cmd dropped done).1 with
      calls := Function.update (s.put k cmd dropped done).1.calls thread none
      returned := s.returned ++ [⟨thread, call, (s.put k cmd dropped done).2, s.closed⟩] } := by
  rcases Bool.eq_false_or_eq_true s.closed with shut | shut
  · rw [show s.put k cmd dropped done = (s.toChannel, dropped) by simp [Channel.put, shut]]
    exact .fail thread _ holds.awake (refused shut) (silent _).1
  · rw [show s.put k cmd dropped done =
      (({ s.toChannel with value := some cmd }).notifyOne k, done) by simp [Channel.put, shut]]
    exact .put thread call cmd k _ holds sends (waits shut) shut picks (given shut) (silent _).2

theorem take_move {thread : ι} {call : Call T} {k : ℕ} {found : T → Reply T} {empty : Reply T}
    (holds : Holds s a thread call) (receives : call.sends = false)
    (picks : s.waiting = [] ∨ k < s.waiting.length)
    (given : ∀ reply b, (Return.mk thread call reply b).accepted = none)
    (got : ∀ cmd b, (Return.mk thread call (found cmd) b).received = some cmd)
    (nothing : ∀ b, (Return.mk thread call empty b).received = none) :
    Move s a { (s.take k found empty).1 with
      calls := Function.update (s.take k found empty).1.calls thread none
      returned := s.returned ++ [⟨thread, call, (s.take k found empty).2, s.closed⟩] } := by
  rcases full : s.value with _ | cmd
  · rw [show s.take k found empty = (s.toChannel, empty) by simp [Channel.take, full]]
    exact .fail thread _ holds.awake (given _ _) (nothing _)
  · rw [show s.take k found empty =
      (({ s.toChannel with value := none }).notifyOne k, found cmd) by simp [Channel.take, full]]
    exact .take thread call cmd k _ holds receives full picks (given _ _) (got cmd _)

theorem loop_move {thread : ι} {call : Call T} {k : ℕ} (holds : Holds s a thread call)
    (goes : s.loop thread call k = some t) : Move s a t := by
  unfold System.loop at goes
  split_ifs at goes with waits unpicked
  · cases goes
    exact .sleep thread call holds waits
  rw [not_and_or, not_not, not_le] at unpicked
  cases goes
  cases call with
  | send cmd =>
    refine put_move holds rfl (fun opened => ?_) unpicked ?_ ?_ fun _ => ⟨rfl, rfl⟩
    · simpa [Channel.mustWait, opened] using waits
    · exact fun shut => by simp [Return.accepted, shut]
    · exact fun opened => by simp [Return.accepted, opened]
  | sendUntil cmd =>
    refine put_move holds rfl (fun opened => ?_) unpicked ?_ ?_ fun _ => ⟨rfl, rfl⟩
    · simpa [Channel.mustWait, opened] using waits
    · exact fun _ => rfl
    · exact fun _ => rfl
  | receive =>
    exact take_move holds rfl unpicked (fun _ _ => rfl) (fun _ _ => rfl) fun _ => rfl
  | receiveUntil =>
    exact take_move holds rfl unpicked (fun _ _ => rfl) (fun _ _ => rfl) fun _ => rfl

theorem step_move (goes : s.step a = some t) : Move s a t := by
  cases a with
  | call thread call k =>
    simp only [System.step, Option.ite_none_right_eq_some] at goes
    exact loop_move (Or.inl ⟨goes.1, k, rfl⟩) goes.2
  | wake thread =>
    simp only [System.step, Option.ite_none_right_eq_some] at goes
    cases goes.2
    exact .wake thread
  | resume thread k =>
    simp only [System.step, Option.ite_none_left_eq_some, Option.bind_eq_some_iff] at goes
    obtain ⟨awake, call, inside, goes⟩ := goes
    exact loop_move (Or.inr ⟨inside, awake⟩) goes
  | expire thread =>
    simp only [System.step, Option.ite_none_left_eq_some, Option.bind_eq_some_iff,
      Option.map_eq_some_iff] at goes
    obtain ⟨awake, call, inside, reply, timed, rfl⟩ := goes
    refine .fail thread _ (Or.inl awake) ?_ ?_
    · cases call <;> cases timed <;> rfl
    · cases call <;> cases timed <;> rfl
  | close =>
    cases goes
    exact .close

end Moves

section Order
variable [DecidableEq ι] {s t : System ι T} {a : Action ι T}

theorem Move.balanced (move : Move s a t)
    (before : s.returned.filterMap Return.received ++ s.value.toList =
      s.returned.filterMap Return.accepted) :
    t.returned.filterMap Return.received ++ t.value.toList =
      t.returned.filterMap Return.accepted := by
  cases move with
  | put thread call cmd k r holds sends empty opened picks accepted received =>
    rw [empty, Option.toList_none, List.append_nil] at before
    simp [List.filterMap_append, accepted, received, before]
  | take thread call cmd k r holds receives full picks accepted received =>
    rw [full, Option.toList_some] at before
    simp [List.filterMap_append, accepted, received, before]
  | fail thread r awake accepted received =>
    simp [List.filterMap_append, accepted, received, before]
  | sleep => exact before
  | wake => exact before
  | close => exact before

/-- With any number of senders and receivers, closed or not: what has been received is
what was sent, in that order and once each, except for the command in the slot. -/
theorem channel_fifo {actions : List (Action ι T)} (run : System.run actions = some s) :
    s.returned.filterMap Return.received ++ s.value.toList =
      s.returned.filterMap Return.accepted :=
  exec_invariant_always
    (fun s : System ι T => s.returned.filterMap Return.received ++ s.value.toList =
      s.returned.filterMap Return.accepted)
    (fun _ _ _ before goes => (step_move goes).balanced before) rfl run

theorem channel_fifo_two_senders : ∃ s : System ℕ ℕ,
    System.run [.call 0 (.send 5) 0, .call 1 (.sendUntil 6) 0, .call 2 .receive 0, .resume 1 0,
      .close, .call 0 (.send 7) 0, .call 2 .receiveUntil 0] = some s ∧
    s.returned.filterMap Return.received = [5, 6] ∧
    s.returned.filterMap Return.received ++ s.value.toList =
      s.returned.filterMap Return.accepted := by
  obtain ⟨s, run, got⟩ : ∃ s : System ℕ ℕ,
      System.run [.call 0 (.send 5) 0, .call 1 (.sendUntil 6) 0, .call 2 .receive 0, .resume 1 0,
        .close, .call 0 (.send 7) 0, .call 2 .receiveUntil 0] = some s ∧
      s.returned.filterMap Return.received = [5, 6] :=
    ⟨_, (Option.some_get (by decide)).symm, by decide⟩
  exact ⟨s, run, got, channel_fifo run⟩

omit [DecidableEq ι] in
theorem open_of_mustWait {call : Call T} (waits : s.mustWait call = true) : s.closed = false := by
  cases call
  all_goals
    simp only [Channel.mustWait, Bool.and_eq_true, Bool.not_eq_true'] at waits
    exact waits.2

theorem Move.closed_empty (move : Move s a t) (before : s.closed = true → s.waiting = [])
    (shut : t.closed = true) : t.waiting = [] := by
  cases move with
  | sleep thread call holds waits => exact absurd shut (by simp [open_of_mustWait waits])
  | put thread call cmd k r holds sends empty opened => simp [opened] at shut
  | take => simp [before shut]
  | fail => exact before shut
  | wake => simp [before shut]
  | close => rfl

theorem Move.closed_kept (move : Move s a t) (shut : s.closed = true) : t.closed = true ∧
    t.returned.filterMap Return.accepted = s.returned.filterMap Return.accepted := by
  cases move with
  | put thread call cmd k r holds sends empty opened => simp [opened] at shut
  | take thread call cmd k r holds receives full picks accepted =>
    exact ⟨shut, by simp [List.filterMap_append, accepted]⟩
  | fail thread r awake accepted =>
    exact ⟨shut, by simp [List.filterMap_append, accepted]⟩
  | close => exact ⟨rfl, rfl⟩
  | sleep => exact ⟨shut, rfl⟩
  | wake => exact ⟨shut, rfl⟩

theorem loop_closed (shut : s.closed = true) (empty : s.waiting = []) (thread : ι)
    (call : Call T) (k : ℕ) : ∃ t, s.loop thread call k = some t ∧ t.calls thread = none := by
  have goes : s.mustWait call = false := by cases call <;> simp [Channel.mustWait, shut]
  simp [System.loop, goes, empty]

/-- From `close` on nothing is accepted any more, nobody is left waiting, and every
call that is still inside can return without another thread. -/
theorem closed_channel_frees {first rest : List (Action ι T)} (run : System.run first = some s)
    (shut : s.closed = true) (later : exec System.step s rest = some t) :
    t.returned.filterMap Return.accepted = s.returned.filterMap Return.accepted ∧
      t.waiting = [] ∧ ∀ thread, t.calls thread ≠ none → ∀ k, ∃ u,
        t.step (.resume thread k) = some u ∧ u.calls thread = none := by
  have empty := exec_invariant_always
    (fun s : System ι T => s.closed = true → s.waiting = [])
    (fun _ _ _ before goes => (step_move goes).closed_empty before) (fun _ => rfl) run
  obtain ⟨shut', empty', same⟩ := exec_invariant_always
    (fun t : System ι T => t.closed = true ∧ t.waiting = [] ∧
      t.returned.filterMap Return.accepted = s.returned.filterMap Return.accepted)
    (fun u a t before goes => by
      obtain ⟨shut, empty, same⟩ := before
      obtain ⟨shut', same'⟩ := (step_move goes).closed_kept shut
      exact ⟨shut', (step_move goes).closed_empty (fun _ => empty) shut', same'.trans same⟩)
    ⟨shut, empty shut, rfl⟩ later
  refine ⟨same, empty', fun thread inside k => ?_⟩
  obtain ⟨call, at_⟩ := Option.ne_none_iff_exists'.mp inside
  obtain ⟨u, goes, out⟩ := loop_closed shut' empty' thread call k
  exact ⟨u, by simp [System.step, empty', at_, goes], out⟩

theorem closed_channel_frees_sender : ∃ s t : System ℕ ℕ,
    System.run [.call 0 (.send 5) 0, .call 1 (.send 6) 0, .close] = some s ∧
    exec System.step s [.call 2 .receive 0] = some t ∧ t.calls 1 ≠ none ∧
    t.returned.filterMap Return.accepted = s.returned.filterMap Return.accepted ∧
    t.waiting = [] ∧ ∀ thread, t.calls thread ≠ none → ∀ k, ∃ u,
      t.step (.resume thread k) = some u ∧ u.calls thread = none := by
  obtain ⟨s, t, run, later, shut, inside⟩ : ∃ s t : System ℕ ℕ,
      System.run [.call 0 (.send 5) 0, .call 1 (.send 6) 0, .close] = some s ∧
      exec System.step s [.call 2 .receive 0] = some t ∧ s.closed = true ∧ t.calls 1 ≠ none :=
    ⟨_, _, (Option.some_get (by decide)).symm, (Option.some_get (by decide)).symm, by decide,
      by decide⟩
  exact ⟨s, t, run, later, inside, closed_channel_frees run shut later⟩

end Order

/-- `thread` sleeps and nobody has notified it, although its loop would let it go on. -/
def Asleep (s : System ι T) (thread : ι) : Prop :=
  thread ∈ s.waiting ∧ ∃ call, s.calls thread = some call ∧ s.mustWait call = false

/-- A lost wake-up: `thread` is asleep, and every caller that is awake has to wait again, so
that without a further call nobody notifies it. -/
def Overlooked (s : System ι T) (thread : ι) : Prop :=
  Asleep s thread ∧
    ∀ other call, s.calls other = some call → other ∉ s.waiting → s.mustWait call = true

def Action.Plays (senders receivers : Finset ι) : Action ι T → Prop
  | .call thread c _ => thread ∈ bif c.sends then senders else receivers
  | _ => True

section Wakeups
variable {senders receivers : Finset ι} {s t : System ι T} {a : Action ι T}

structure Attended (senders receivers : Finset ι) (s : System ι T) : Prop where
  role : ∀ thread call, s.calls thread = some call →
    thread ∈ bif call.sends then senders else receivers
  inside : ∀ thread ∈ s.waiting, ∃ call, s.calls thread = some call
  nodup : s.waiting.Nodup
  kept : ∀ thread, ¬ Asleep s thread

namespace Attended
variable (inv : Attended senders receivers s)
include inv

theorem holds_role (plays : a.Plays senders receivers) {thread : ι} {call : Call T}
    (holds : Holds s a thread call) : thread ∈ bif call.sends then senders else receivers := by
  rcases holds with ⟨-, k, rfl⟩ | ⟨inside, -⟩
  · exact plays
  · exact inv.role thread call inside

theorem not_waiting {thread : ι} (awake : thread ∉ s.waiting ∨ s.calls thread = none) :
    thread ∉ s.waiting := by
  rcases awake with out | idle
  · exact out
  · intro listed
    obtain ⟨call, inside⟩ := inv.inside thread listed
    simp [idle] at inside

variable [DecidableEq ι]

theorem waiting_subset (sends : Bool)
    (other : ∀ call : Call T, call.sends = sends → s.mustWait call = false) :
    s.waiting.toFinset ⊆ bif sends then receivers else senders := by
  intro thread listed
  rw [List.mem_toFinset] at listed
  obtain ⟨call, inside⟩ := inv.inside thread listed
  have kind : call.sends = !sends := by
    by_contra same
    refine inv.kept thread ⟨listed, call, inside, other call ?_⟩
    cases sends <;> simpa using same
  have role := inv.role thread call inside
  rw [kind] at role
  cases sends <;> exact role

theorem notified {group : Finset ι} {k : ℕ} (covers : s.waiting.toFinset ⊆ group)
    (few : group.card ≤ 1) (picks : s.waiting = [] ∨ k < s.waiting.length) :
    s.waiting.eraseIdx k = [] := by
  have length := (Finset.card_le_card covers).trans few
  rw [List.toFinset_card_of_nodup inv.nodup] at length
  rcases picks with empty | inRange
  · simp [empty]
  · rw [← List.length_eq_zero_iff, List.length_eraseIdx_of_lt inRange]
    omega

theorem role_update {thread : ι} (u : ι) (call : Call T)
    (inside : Function.update s.calls thread none u = some call) :
    u ∈ bif call.sends then senders else receivers := by
  by_cases same : u = thread
  · simp [same] at inside
  · rw [Function.update_of_ne same] at inside
    exact inv.role u call inside

theorem step (plays : a.Plays senders receivers)
    (few : (senders.Nonempty → receivers.card ≤ 1) ∧ (receivers.Nonempty → senders.card ≤ 1))
    (move : Move s a t) : Attended senders receivers t := by
  cases move with
  | sleep thread call holds waits =>
    have out := inv.not_waiting holds.awake
    refine ⟨fun u other inside => ?_, fun u listed => ?_, ?_, ?_⟩
    · by_cases same : u = thread
      · subst same
        cases (Function.update_self u (some call) s.calls).symm.trans inside
        exact inv.holds_role plays holds
      · exact inv.role u other ((Function.update_of_ne same _ _).symm.trans inside)
    · rcases List.mem_append.mp listed with old | new
      · by_cases same : u = thread
        · exact absurd (same ▸ old) out
        · obtain ⟨other, inside⟩ := inv.inside u old
          exact ⟨other, (Function.update_of_ne same _ _).trans inside⟩
      · rw [List.mem_singleton.mp new]
        exact ⟨call, Function.update_self ..⟩
    · exact List.nodup_append_comm.mp (List.nodup_cons.mpr ⟨out, inv.nodup⟩)
    · rintro u ⟨listed, other, inside, goes⟩
      by_cases same : u = thread
      · subst same
        cases (Function.update_self u (some call) s.calls).symm.trans inside
        have stays : s.mustWait call = false := goes
        simp [stays] at waits
      · have old : u ∈ s.waiting := by simpa [same] using listed
        have inside := (Function.update_of_ne same _ _).symm.trans inside
        exact inv.kept u ⟨old, other, inside, goes⟩
  | put thread call cmd k r holds sends empty opened picks =>
    have covers := inv.waiting_subset true fun call kind => by
      cases call <;> simp [Channel.mustWait, empty, Call.sends] at kind ⊢
    have role := inv.holds_role plays holds
    rw [sends] at role
    have none := inv.notified covers (few.1 ⟨thread, role⟩) picks
    exact ⟨inv.role_update, by simp [none], by simp [none], by simp [Asleep, none]⟩
  | take thread call cmd k r holds receives full picks =>
    have covers := inv.waiting_subset false fun call kind => by
      cases call <;> simp [Channel.mustWait, full, Call.sends] at kind ⊢
    have role := inv.holds_role plays holds
    rw [receives] at role
    have none := inv.notified covers (few.2 ⟨thread, role⟩) picks
    exact ⟨inv.role_update, by simp [none], by simp [none], by simp [Asleep, none]⟩
  | fail thread r awake =>
    have out := inv.not_waiting awake
    have apart : ∀ u ∈ s.waiting, u ≠ thread := fun u listed same => out (same ▸ listed)
    refine ⟨inv.role_update, fun u listed => ?_, inv.nodup, ?_⟩
    · obtain ⟨call, inside⟩ := inv.inside u listed
      exact ⟨call, (Function.update_of_ne (apart u listed) _ _).trans inside⟩
    · rintro u ⟨listed, call, inside, goes⟩
      have inside := (Function.update_of_ne (apart u listed) _ _).symm.trans inside
      exact inv.kept u ⟨listed, call, inside, goes⟩
  | wake thread =>
    refine ⟨inv.role, fun u listed => inv.inside u (List.mem_of_mem_erase listed),
      inv.nodup.erase thread, ?_⟩
    rintro u ⟨listed, call, inside, goes⟩
    exact inv.kept u ⟨List.mem_of_mem_erase listed, call, inside, goes⟩
  | close => exact ⟨inv.role, by simp, by simp, by simp [Asleep]⟩

end Attended

variable [DecidableEq ι]

/-- Two senders and a receiver: the receiver makes room for one sender and goes to sleep
behind the other, which is then notified in its place and finds the slot full. -/
theorem receiver_overlooked {a b r : ι} (ab : a ≠ b) (ar : a ≠ r) (br : b ≠ r) (cmd : T) : ∃ s,
    System.run [.call a (.send cmd) 0, .call a (.send cmd) 0, .call b (.send cmd) 0,
      .call r .receive 0, .call r .receive 0, .resume a 0] = some s ∧ Overlooked s r := by
  refine ⟨_, by
    simp only [System.run, exec, System.step, System.loop, Channel.mustWait, Channel.body,
      Channel.send, Channel.put, Channel.receive, Channel.take, Channel.notifyOne]
    simp [ab, ar, ab.symm, ar.symm, br.symm]
    rfl, ?_⟩
  refine ⟨⟨by simp, .receive, by simp [ar.symm], rfl⟩, fun other call inside awake => ?_⟩
  by_cases here : other = b
  · subst here
    cases (show some (Call.send cmd) = some call by simpa [ab.symm, br] using inside)
    rfl
  · have out : other ≠ r := fun same => awake (by simp [same])
    simp only [Function.update_apply, here, out, if_false] at inside
    split_ifs at inside

theorem sender_overlooked {p q a : ι} (pq : p ≠ q) (pa : p ≠ a) (qa : q ≠ a) (cmd : T) : ∃ s,
    System.run [.call p .receive 0, .call q .receive 0, .call a (.send cmd) 0,
      .call a (.send cmd) 0, .resume p 0] = some s ∧ Overlooked s a := by
  refine ⟨_, by
    simp only [System.run, exec, System.step, System.loop, Channel.mustWait, Channel.body,
      Channel.send, Channel.put, Channel.receive, Channel.take, Channel.notifyOne]
    simp [pq, pa, pq.symm, pa.symm, qa.symm]
    rfl, ?_⟩
  refine ⟨⟨by simp, .send cmd, by simp [pa.symm], rfl⟩, fun other call inside awake => ?_⟩
  by_cases here : other = q
  · subst here
    cases (show some Call.receive = some call by simpa [pq.symm, qa] using inside)
    rfl
  · have out : other ≠ a := fun same => awake (by simp [same])
    simp only [Function.update_apply, here, out, if_false] at inside
    split_ifs at inside

/-- No wake-up is lost exactly if at most one thread sends and at most one receives (or
nobody does the one or the other). Raft has two sending threads, the one that applies
entries and the one that installs snapshots. -/
theorem wakeups_kept_iff [Inhabited T] (apart : Disjoint senders receivers) :
    (∀ (actions : List (Action ι T)) (s : System ι T),
      (∀ a ∈ actions, a.Plays senders receivers) → System.run actions = some s →
        ∀ thread, ¬ Overlooked s thread) ↔
      senders = ∅ ∨ receivers = ∅ ∨ senders.card = 1 ∧ receivers.card = 1 := by
  have ne : ∀ {u w}, u ∈ senders → w ∈ receivers → u ≠ w := fun hu hw same =>
    Finset.disjoint_left.mp apart hu (same ▸ hw)
  constructor
  · intro kept
    by_contra many
    rw [not_or, not_or, ← ne_eq, ← Finset.nonempty_iff_ne_empty, ← ne_eq,
      ← Finset.nonempty_iff_ne_empty, not_and_or] at many
    obtain ⟨⟨u, hu⟩, ⟨w, hw⟩, two⟩ := many
    rcases two with two | two
    · obtain ⟨a, ha, b, hb, ab⟩ : ∃ a ∈ senders, ∃ b ∈ senders, a ≠ b :=
        Finset.one_lt_card.mp (by have := Finset.card_pos.mpr ⟨u, hu⟩; omega)
      obtain ⟨s, run, lost⟩ := receiver_overlooked ab (ne ha hw) (ne hb hw) (default : T)
      exact kept _ s (by simp [Action.Plays, Call.sends, ha, hb, hw]) run w lost
    · obtain ⟨p, hp, q, hq, pq⟩ : ∃ p ∈ receivers, ∃ q ∈ receivers, p ≠ q :=
        Finset.one_lt_card.mp (by have := Finset.card_pos.mpr ⟨w, hw⟩; omega)
      obtain ⟨s, run, lost⟩ := sender_overlooked pq (ne hu hp).symm (ne hu hq).symm (default : T)
      exact kept _ s (by simp [Action.Plays, Call.sends, hp, hq, hu]) run u lost
  · intro few actions s plays run
    have few : (senders.Nonempty → receivers.card ≤ 1) ∧
        (receivers.Nonempty → senders.card ≤ 1) := by
      rcases few with rfl | rfl | ⟨one, one'⟩
      · simp
      · simp
      · exact ⟨fun _ => one'.le, fun _ => one.le⟩
    have good : Along System.step (fun _ a => a.Plays senders receivers) ({} : System ι T)
        actions :=
      along_of_invariant (fun _ => True) (fun a : Action ι T => a.Plays senders receivers)
        (fun _ _ _ _ _ _ => trivial) (fun _ _ _ plays => plays) trivial plays
    have inv := exec_invariant (Attended senders receivers)
      (fun _ _ _ inv plays goes => inv.step plays few (step_move goes))
      ⟨by simp, by simp, List.nodup_nil, by simp [Asleep]⟩ good run
    exact fun thread lost => inv.kept thread lost.1

theorem wakeups_kept_one_each : Disjoint ({0} : Finset ℕ) {1} ∧
    ((∀ (actions : List (Action ℕ ℕ)) (s : System ℕ ℕ),
      (∀ a ∈ actions, a.Plays {0} {1}) → System.run actions = some s →
        ∀ thread, ¬ Overlooked s thread) ↔
      ({0} : Finset ℕ) = ∅ ∨ ({1} : Finset ℕ) = ∅ ∨
        ({0} : Finset ℕ).card = 1 ∧ ({1} : Finset ℕ).card = 1) :=
  ⟨by decide, wakeups_kept_iff (by decide)⟩

end Wakeups

end Zdb.SyncChannel
