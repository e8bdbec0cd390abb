import Mathlib.Data.Option.Basic

/-! Runs of a deterministic labelled transition function. A label that is not
enabled gives `none`. Side conditions on steps are read in the state before the
step, and history variables are carried by pairing, so that neither changes
which runs exist. -/

namespace Zdb.LabelledRun

variable {σ α γ : Type*}

def exec (step : σ → α → Option σ) : σ → List α → Option σ
  | s, [] => some s
  | s, a :: rest => (step s a).bind fun t => exec step t rest

/-- Every step of the run meets `ok`, which sees the state before the step. -/
def Along (step : σ → α → Option σ) (ok : σ → α → Prop) : σ → List α → Prop
  | _, [] => True
  | s, a :: rest => ok s a ∧ ∀ t ∈ step s a, Along step ok t rest

instance Along.decidable (step : σ → α → Option σ) (ok : σ → α → Prop)
    [∀ s a, Decidable (ok s a)] : ∀ s labels, Decidable (Along step ok s labels)
  | _, [] => inferInstanceAs (Decidable True)
  | s, a :: rest =>
      have _ := fun t => Along.decidable step ok t rest
      inferInstanceAs (Decidable (ok s a ∧ ∀ t ∈ step s a, Along step ok t rest))

variable {step : σ → α → Option σ} {ok : σ → α → Prop}

theorem exec_append (s : σ) (first rest : List α) :
    exec step s (first ++ rest) = (exec step s first).bind fun t => exec step t rest := by
  induction first generalizing s with
  | nil => rfl
  | cons a first ih =>
    simp only [List.cons_append, exec, Option.bind_assoc]
    congr 1
    funext t
    exact ih t

theorem exec_trans {s t u : σ} {first rest : List α} (run : exec step s first = some t)
    (later : exec step t rest = some u) : exec step s (first ++ rest) = some u := by
  rw [exec_append, run, Option.bind_some, later]

theorem exec_singleton {s t : σ} {a : α} (move : step s a = some t) :
    exec step s [a] = some t := by
  simp [exec, move]

theorem exec_invariant (P : σ → Prop)
    (preserved : ∀ s a t, P s → ok s a → step s a = some t → P t)
    {s t : σ} {labels : List α} (start : P s) (good : Along step ok s labels)
    (run : exec step s labels = some t) : P t := by
  induction labels generalizing s with
  | nil =>
    obtain rfl : s = t := by simpa [exec] using run
    exact start
  | cons a rest ih =>
    obtain ⟨here, later⟩ := good
    cases move : step s a with
    | none => simp [exec, move] at run
    | some u =>
      simp only [exec, move, Option.bind_some] at run
      exact ih (preserved s a u start here move) (later u move) run

theorem along_always (s : σ) (labels : List α) : Along step (fun _ _ => True) s labels := by
  induction labels generalizing s with
  | nil => trivial
  | cons a rest ih => exact ⟨trivial, fun t _ => ih t⟩

theorem exec_invariant_always (P : σ → Prop)
    (preserved : ∀ s a t, P s → step s a = some t → P t)
    {s t : σ} {labels : List α} (start : P s) (run : exec step s labels = some t) : P t :=
  exec_invariant P (fun s a t inv _ move => preserved s a t inv move) start
    (along_always s labels) run

theorem along_of_invariant (P : σ → Prop) (allowed : α → Prop)
    (preserved : ∀ s a t, P s → allowed a → step s a = some t → P t)
    (enough : ∀ s a, P s → allowed a → ok s a)
    {s : σ} {labels : List α} (start : P s) (all : ∀ a ∈ labels, allowed a) :
    Along step ok s labels := by
  induction labels generalizing s with
  | nil => trivial
  | cons a rest ih =>
    have first := all a (by simp)
    refine ⟨enough s a start first, fun t move => ?_⟩
    exact ih (preserved s a t start first move) (fun b hb => all b (by simp [hb]))

theorem Along.left {s : σ} {first rest : List α}
    (good : Along step ok s (first ++ rest)) : Along step ok s first := by
  induction first generalizing s with
  | nil => trivial
  | cons a first ih =>
    obtain ⟨here, later⟩ := good
    exact ⟨here, fun t move => ih (later t move)⟩

theorem Along.right {s t : σ} {first rest : List α}
    (good : Along step ok s (first ++ rest)) (run : exec step s first = some t) :
    Along step ok t rest := by
  induction first generalizing s with
  | nil =>
    obtain rfl : s = t := by simpa [exec] using run
    exact good
  | cons a first ih =>
    obtain ⟨_, later⟩ := good
    cases move : step s a with
    | none => simp [exec, move] at run
    | some u =>
      simp only [exec, move, Option.bind_some] at run
      exact ih (later u move) run

theorem Along.append {s : σ} {first rest : List α} (good : Along step ok s first)
    (later : ∀ t, exec step s first = some t → Along step ok t rest) :
    Along step ok s (first ++ rest) := by
  induction first generalizing s with
  | nil => exact later s rfl
  | cons a first ih =>
    obtain ⟨here, after⟩ := good
    refine ⟨here, fun t move => ih (after t move) fun u run => later u ?_⟩
    simpa only [exec, Option.mem_def.mp move, Option.bind_some] using run

/-- Some run of steps that meet `ok` leads from `s` to `t`. -/
def Reaches (step : σ → α → Option σ) (ok : σ → α → Prop) (s t : σ) : Prop :=
  ∃ labels, exec step s labels = some t ∧ Along step ok s labels

namespace Reaches

theorem refl (s : σ) : Reaches step ok s s := ⟨[], rfl, trivial⟩

theorem trans {s t u : σ} (first : Reaches step ok s t) (rest : Reaches step ok t u) :
    Reaches step ok s u := by
  obtain ⟨labels, run, good⟩ := first
  obtain ⟨more, later, good'⟩ := rest
  refine ⟨labels ++ more, exec_trans run later, good.append fun v reached => ?_⟩
  cases run.symm.trans reached
  exact good'

theorem single {s t : σ} {a : α} (move : step s a = some t) (meets : ok s a) :
    Reaches step ok s t := ⟨[a], exec_singleton move, meets, fun _ _ => trivial⟩

theorem invariant {P : σ → Prop}
    (preserved : ∀ s a t, P s → ok s a → step s a = some t → P t) {s t : σ}
    (reaches : Reaches step ok s t) (start : P s) : P t := by
  obtain ⟨labels, run, good⟩ := reaches
  exact exec_invariant P preserved start good run

end Reaches

theorem Along.and_invariant {P : σ → Prop} {s : σ} {labels : List α}
    (good : Along step ok s labels) (preserved : ∀ s a t, P s → step s a = some t → P t)
    (start : P s) : Along step (fun s a => ok s a ∧ P s) s labels := by
  induction labels generalizing s with
  | nil => trivial
  | cons a rest ih =>
    obtain ⟨here, later⟩ := good
    exact ⟨⟨here, start⟩, fun t move => ih (later t move) (preserved s a t start move)⟩

/-- Carry a history variable beside the state. -/
def observed (step : σ → α → Option σ) (record : γ → σ → α → σ → γ) :
    σ × γ → α → Option (σ × γ)
  | (s, g), a => (step s a).map fun t => (t, record g s a t)

variable {record : γ → σ → α → σ → γ}

theorem observed_eq_some {s t : σ} {g k : γ} {a : α} :
    observed step record (s, g) a = some (t, k) ↔ step s a = some t ∧ k = record g s a t := by
  cases move : step s a with
  | none => simp [observed, move]
  | some u =>
    simp only [observed, move, Option.map_some, Option.some.injEq, Prod.mk.injEq]
    constructor
    · rintro ⟨rfl, rfl⟩
      exact ⟨rfl, rfl⟩
    · rintro ⟨rfl, rfl⟩
      exact ⟨rfl, rfl⟩

theorem exec_of_observed {s t : σ} {g k : γ} {labels : List α}
    (run : exec (observed step record) (s, g) labels = some (t, k)) :
    exec step s labels = some t := by
  induction labels generalizing s g with
  | nil =>
    simp only [exec, Option.some.injEq, Prod.mk.injEq] at run
    simp [exec, run.1]
  | cons a rest ih =>
    cases move : step s a with
    | none => simp [exec, observed, move] at run
    | some u =>
      simp only [exec, observed, move, Option.map_some, Option.bind_some] at run
      simpa only [exec, move, Option.bind_some] using ih run

theorem exists_observed {s t : σ} (g : γ) {labels : List α}
    (run : exec step s labels = some t) :
    ∃ k, exec (observed step record) (s, g) labels = some (t, k) := by
  induction labels generalizing s g with
  | nil =>
    obtain rfl : s = t := by simpa [exec] using run
    exact ⟨g, rfl⟩
  | cons a rest ih =>
    cases move : step s a with
    | none => simp [exec, move] at run
    | some u =>
      simp only [exec, move, Option.bind_some] at run
      obtain ⟨k, later⟩ := ih (record g s a u) run
      exact ⟨k, by simpa only [exec, observed, move, Option.map_some, Option.bind_some] using later⟩

theorem along_observed {s : σ} {g : γ} {labels : List α} (good : Along step ok s labels) :
    Along (observed step record) (fun s a => ok s.1 a) (s, g) labels := by
  induction labels generalizing s g with
  | nil => trivial
  | cons a rest ih =>
    obtain ⟨here, later⟩ := good
    refine ⟨here, ?_⟩
    rintro ⟨t, k⟩ both
    exact ih (later t (observed_eq_some.mp both).1)

end Zdb.LabelledRun
