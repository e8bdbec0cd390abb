import Mathlib.Data.Nat.Notation
import Mathlib.Tactic.SplitIfs
import Zdb.LabelledRun

/-! The timer behind elections and heartbeats: a worker thread that calls back after
each interval, and the thread that starts and stops it. A callback must not stop its
own timer, as the worker would then join itself; no callback of Raft does. -/

namespace Zdb.AsyncTimer
open LabelledRun

/-- Where the worker is: at the top of its loop, inside `cv.wait_for`, between its unlock
and the callback, inside the callback, or past its loop and not joined yet. -/
inductive Worker where
  | top
  | waiting (notified : Bool)
  | due
  | calling
  | finished
  deriving DecidableEq, Repr

/-- Where the caller of `start` and `stop` is; `again` says that this `stop` is the first
line of a `start`. -/
inductive Controller where
  | idle
  | flagged (again : Bool)
  | joining (again : Bool)
  | stopped
  | armed
  deriving DecidableEq, Repr

/-- `worker` is `none` when the thread is not joinable, and `callbacks` counts the
callbacks that have begun. -/
structure Timer where
  running : Bool := false
  worker : Option Worker := none
  controller : Controller := .idle
  callbacks : ℕ := 0
  deriving DecidableEq, Repr

inductive Action where
  | stop (again : Bool)
  | notify
  | join
  | arm
  | spawn
  | check
  | wake (timeout : Bool)
  | call
  | done
  deriving DecidableEq, Repr

def notifyAll : Option Worker → Option Worker
  | some (.waiting _) => some (.waiting true)
  | worker => worker

def step (t : Timer) : Action → Option Timer
  | .stop again =>
      if t.controller = .idle then
        some { t with running := false, controller := .flagged again }
      else none
  | .notify =>
      match t.controller with
      | .flagged again =>
          some { t with worker := notifyAll t.worker, controller := .joining again }
      | _ => none
  | .join =>
      match t.controller, t.worker with
      | .joining again, none | .joining again, some .finished =>
          some { t with worker := none, controller := if again then .stopped else .idle }
      | _, _ => none
  | .arm =>
      if t.controller = .stopped then some { t with running := true, controller := .armed }
      else none
  | .spawn =>
      if t.controller = .armed then some { t with worker := some .top, controller := .idle }
      else none
  | .check =>
      if t.worker = some .top then
        some { t with worker := some (if t.running then .waiting false else .finished) }
      else none
  | .wake timeout =>
      match t.worker with
      | some (.waiting _) =>
          if t.running then
            if timeout then some { t with worker := some .due }
            else some { t with worker := some (.waiting false) }
          else some { t with worker := some .finished }
      | _ => none
  | .call =>
      if t.worker = some .due then
        some { t with worker := some .calling, callbacks := t.callbacks + 1 }
      else none
  | .done => if t.worker = some .calling then some { t with worker := some .top } else none

def run (actions : List Action) : Option Timer := exec step {} actions

def Sound (t : Timer) : Prop :=
  match t.controller with
  | .idle => t.worker = none ∧ t.running = false ∨
      t.running = true ∧ ∃ w, t.worker = some w ∧ w ≠ .finished
  | .flagged _ => t.running = false
  | .joining _ => t.running = false ∧ t.worker ≠ some (.waiting false)
  | .stopped => t.running = false ∧ t.worker = none
  | .armed => t.running = true ∧ t.worker = none

variable {s t : Timer} {a : Action}

theorem Sound.step (sound : Sound s) (goes : step s a = some t) : Sound t := by
  obtain ⟨running, worker, controller, callbacks⟩ := s
  cases a with
  | stop again =>
    simp only [AsyncTimer.step, Option.ite_none_right_eq_some] at goes
    cases goes.2
    rfl
  | notify =>
    cases controller <;> simp only [AsyncTimer.step, reduceCtorEq] at goes
    cases goes
    refine ⟨sound, ?_⟩
    rcases worker with _ | (_ | _ | _ | _ | _) <;> simp [notifyAll]
  | join =>
    cases controller <;> rcases worker with _ | (_ | _ | _ | _ | _) <;>
      simp only [AsyncTimer.step, reduceCtorEq] at goes
    all_goals
      rename_i again
      cases goes
      cases again
    · exact Or.inl ⟨rfl, sound.1⟩
    · exact ⟨sound.1, rfl⟩
    · exact Or.inl ⟨rfl, sound.1⟩
    · exact ⟨sound.1, rfl⟩
  | arm =>
    simp only [AsyncTimer.step, Option.ite_none_right_eq_some] at goes
    obtain ⟨rfl, goes⟩ := goes
    cases goes
    exact ⟨rfl, sound.2⟩
  | spawn =>
    simp only [AsyncTimer.step, Option.ite_none_right_eq_some] at goes
    obtain ⟨rfl, goes⟩ := goes
    cases goes
    exact Or.inr ⟨sound.1, .top, rfl, by simp⟩
  | check =>
    simp only [AsyncTimer.step, Option.ite_none_right_eq_some] at goes
    obtain ⟨rfl, goes⟩ := goes
    cases goes
    cases controller <;> cases running <;> simp_all [Sound]
  | wake timeout =>
    rcases worker with _ | (_ | notified | _ | _ | _) <;>
      simp only [AsyncTimer.step, reduceCtorEq] at goes
    split_ifs at goes with going elapsed
    all_goals
      cases goes
      cases controller <;> simp_all [Sound]
  | call =>
    simp only [AsyncTimer.step, Option.ite_none_right_eq_some] at goes
    obtain ⟨rfl, goes⟩ := goes
    cases goes
    cases controller <;> simp_all [Sound]
  | done =>
    simp only [AsyncTimer.step, Option.ite_none_right_eq_some] at goes
    obtain ⟨rfl, goes⟩ := goes
    cases goes
    cases controller <;> simp_all [Sound]

theorem sound_initial : Sound {} := Or.inl ⟨rfl, rfl⟩

theorem run_sound {actions : List Action} (ran : run actions = some t) : Sound t :=
  exec_invariant_always Sound (fun _ _ _ sound goes => sound.step goes) sound_initial ran

/-- The callback that the worker can no longer be kept from. -/
def Timer.owed (t : Timer) : ℕ := if t.worker = some .due then 1 else 0

theorem step_halted (sound : Sound s) (halted : s.running = false) (other : a ≠ .arm)
    (goes : step s a = some t) : t.running = false ∧ s.callbacks ≤ t.callbacks ∧
      t.callbacks + t.owed = s.callbacks + s.owed := by
  obtain ⟨running, worker, controller, callbacks⟩ := s
  obtain rfl : running = false := halted
  cases a with
  | arm => exact absurd rfl other
  | stop again =>
    simp only [step, Option.ite_none_right_eq_some] at goes
    cases goes.2
    exact ⟨rfl, Nat.le_refl _, rfl⟩
  | notify =>
    cases controller <;> simp only [step, reduceCtorEq] at goes
    cases goes
    refine ⟨rfl, Nat.le_refl _, ?_⟩
    rcases worker with _ | (_ | _ | _ | _ | _) <;> rfl
  | join =>
    cases controller <;> rcases worker with _ | (_ | _ | _ | _ | _) <;>
      simp only [step, reduceCtorEq] at goes
    all_goals
      cases goes
      exact ⟨rfl, Nat.le_refl _, rfl⟩
  | spawn =>
    simp only [step, Option.ite_none_right_eq_some] at goes
    obtain ⟨rfl, -⟩ := goes
    cases sound.1
  | check =>
    simp only [step, Option.ite_none_right_eq_some] at goes
    obtain ⟨rfl, goes⟩ := goes
    cases goes
    exact ⟨rfl, Nat.le_refl _, rfl⟩
  | wake timeout =>
    rcases worker with _ | (_ | notified | _ | _ | _) <;>
      simp only [step, reduceCtorEq, Bool.false_eq_true, if_false] at goes
    cases goes
    exact ⟨rfl, Nat.le_refl _, rfl⟩
  | call =>
    simp only [step, Option.ite_none_right_eq_some] at goes
    obtain ⟨rfl, goes⟩ := goes
    cases goes
    exact ⟨rfl, Nat.le_succ _, rfl⟩
  | done =>
    simp only [step, Option.ite_none_right_eq_some] at goes
    obtain ⟨rfl, goes⟩ := goes
    cases goes
    exact ⟨rfl, Nat.le_refl _, rfl⟩

/-- From the moment `stop` clears `running`, and until the timer is armed again, no callback
begins but the one whose worker had passed its test by then. When `stop` has returned
there is no worker, and no callback begins at all. -/
theorem timer_stops {first rest : List Action} (ran : run first = some s)
    (halted : s.running = false) (later : exec step s rest = some t) (unarmed : .arm ∉ rest) :
    (t.callbacks = s.callbacks ∨ s.worker = some .due ∧ t.callbacks = s.callbacks + 1) ∧
      (s.controller = .idle → t.callbacks = s.callbacks) ∧
      (t.controller = .idle → t.worker = none) := by
  have good : Along step (fun _ a => a ≠ .arm) s rest :=
    along_of_invariant (fun _ => True) (fun a => a ≠ Action.arm) (fun _ _ _ _ _ _ => trivial)
      (fun _ _ _ other => other) trivial fun a listed same => unarmed (same ▸ listed)
  obtain ⟨sound, still, more, kept⟩ := exec_invariant
    (fun t => Sound t ∧ t.running = false ∧ s.callbacks ≤ t.callbacks ∧
      t.callbacks + t.owed = s.callbacks + s.owed)
    (fun u a t before other goes => by
      obtain ⟨sound, halted, more, kept⟩ := before
      obtain ⟨still, more', kept'⟩ := step_halted sound halted other goes
      exact ⟨sound.step goes, still, Nat.le_trans more more', kept'.trans kept⟩)
    ⟨run_sound ran, halted, Nat.le_refl _, rfl⟩ good later
  have gone : ∀ {u : Timer}, Sound u → u.running = false → u.controller = .idle →
      u.worker = none := by
    intro u sound halted idle
    rw [Sound, idle] at sound
    rcases sound with ⟨none, -⟩ | ⟨going, -⟩
    · exact none
    · simp [halted] at going
  have begun : t.callbacks = s.callbacks ∨
      s.worker = some .due ∧ t.callbacks = s.callbacks + 1 := by
    by_cases due : s.worker = some .due
    · have owes : s.owed = 1 := if_pos due
      have few : t.callbacks = s.callbacks ∨ t.callbacks = s.callbacks + 1 := by omega
      exact few.imp_right fun one => ⟨due, one⟩
    · have owes : s.owed = 0 := if_neg due
      exact Or.inl (by omega)
  refine ⟨begun, fun idle => ?_, gone sound still⟩
  rcases begun with same | ⟨due, -⟩
  · exact same
  · simp [gone (run_sound ran) halted idle] at due

/-- The timer is stopped when its worker has just passed the test: the callback begins
after that, and `stop` returns when it is over. -/
theorem timer_stops_when_due : ∃ s t,
    run [.stop true, .notify, .join, .arm, .spawn, .check, .wake true, .stop false] = some s ∧
    exec step s [.notify, .call, .done, .check, .join] = some t ∧ s.running = false ∧
    t.controller = .idle ∧ t.callbacks = s.callbacks + 1 ∧
    (t.callbacks = s.callbacks ∨ s.worker = some .due ∧ t.callbacks = s.callbacks + 1) ∧
    (s.controller = .idle → t.callbacks = s.callbacks) ∧
    (t.controller = .idle → t.worker = none) := by
  obtain ⟨s, t, ran, later, halted, idle, begun⟩ : ∃ s t,
      run [.stop true, .notify, .join, .arm, .spawn, .check, .wake true, .stop false] = some s ∧
      exec step s [.notify, .call, .done, .check, .join] = some t ∧ s.running = false ∧
      t.controller = .idle ∧ t.callbacks = s.callbacks + 1 :=
    ⟨_, _, (Option.some_get (by decide)).symm, (Option.some_get (by decide)).symm, by decide,
      by decide, by decide⟩
  exact ⟨s, t, ran, later, halted, idle, begun, timer_stops ran halted later (by decide)⟩

/-- A step of the worker for which neither an interval has to elapse nor a waiter to wake up
of its own accord. -/
def Timer.prompt (t : Timer) : Action → Prop
  | .check | .call | .done => True
  | .wake false => t.worker = some (.waiting true)
  | _ => False

theorem leaves (halted : t.running = false) (top : t.worker = some .top) :
    Reaches step Timer.prompt t { t with worker := some .finished } :=
  .single (a := .check) (by simp [step, top, halted]) trivial

theorem returns (calling : t.worker = some .calling) :
    Reaches step Timer.prompt t { t with worker := some .top } :=
  .single (a := .done) (by simp [step, calling]) trivial

/-- `stop` waits for the callback at most, never for the rest of an interval: a worker that
waits has been notified. `start` never assigns to a thread that is still joinable. -/
theorem stop_returns {actions : List Action} (ran : run actions = some t) :
    (t.controller = .armed → t.worker = none) ∧
      ∀ again, t.controller = .joining again → ∃ u,
        Reaches step Timer.prompt t u ∧ (step u .join).isSome = true := by
  have sound := run_sound ran
  refine ⟨fun armed => ?_, fun again joining => ?_⟩
  · rw [Sound, armed] at sound
    exact sound.2
  · rw [Sound, joining] at sound
    obtain ⟨halted, awake⟩ := sound
    cases at_ : t.worker with
    | none => exact ⟨t, .refl t, by simp [step, joining, at_]⟩
    | some w =>
      cases w with
      | finished => exact ⟨t, .refl t, by simp [step, joining, at_]⟩
      | top => exact ⟨_, leaves halted at_, by simp [step, joining]⟩
      | waiting notified =>
        cases notified with
        | false => exact absurd at_ awake
        | true =>
          refine ⟨{ t with worker := some .finished }, .single (a := .wake false) ?_ at_, ?_⟩
          · simp [step, at_, halted]
          · simp [step, joining]
      | due =>
        have begins : Reaches step Timer.prompt t
            { t with worker := some .calling, callbacks := t.callbacks + 1 } :=
          .single (a := .call) (by simp [step, at_]) trivial
        exact ⟨_, begins.trans ((returns rfl).trans (leaves halted rfl)), by simp [step, joining]⟩
      | calling =>
        exact ⟨_, (returns at_).trans (leaves halted rfl), by simp [step, joining]⟩

theorem stop_returns_from_wait : ∃ t,
    run [.stop true, .notify, .join, .arm, .spawn, .check, .stop false, .notify] = some t ∧
    t.controller = .joining false ∧ (t.controller = .armed → t.worker = none) ∧
    ∀ again, t.controller = .joining again → ∃ u,
      Reaches step Timer.prompt t u ∧ (step u .join).isSome = true := by
  obtain ⟨t, ran, joining⟩ : ∃ t,
      run [.stop true, .notify, .join, .arm, .spawn, .check, .stop false, .notify] = some t ∧
      t.controller = .joining false := ⟨_, (Option.some_get (by decide)).symm, by decide⟩
  exact ⟨t, ran, joining, stop_returns ran⟩

end Zdb.AsyncTimer
