import Mathlib.Data.List.Infix

/-! Programs that ask their environment. `ε` is what can be asked, `ρ e` are the
answers to `e`, and a program ends whatever it is answered. Assertions speak of the
exchange so far, so that what a part of a program has heard is still known later. -/

namespace Zdb.Resumption

inductive Program (ε : Type) (ρ : ε → Type) (α : Type) where
  | done (a : α)
  | ask (e : ε) (next : ρ e → Program ε ρ α)

variable {ε : Type} {ρ : ε → Type} {α β : Type}

def Program.bind : Program ε ρ α → (α → Program ε ρ β) → Program ε ρ β
  | .done a, f => f a
  | .ask e next, f => .ask e fun r => (next r).bind f

instance : Monad (Program ε ρ) where
  pure := .done
  bind := Program.bind

abbrev Exchange (ε : Type) (ρ : ε → Type) := Σ e, ρ e

/-- Whatever it is answered after `heard`, the program asks only what it `may` and
ends with `post`. -/
def Ensures (may : ε → Prop) (post : List (Exchange ε ρ) → α → Prop) :
    List (Exchange ε ρ) → Program ε ρ α → Prop
  | heard, .done a => post heard a
  | heard, .ask e next => may e ∧ ∀ r, Ensures may post (heard ++ [⟨e, r⟩]) (next r)

namespace Ensures
variable {may : ε → Prop} {heard : List (Exchange ε ρ)}
  {post post' : List (Exchange ε ρ) → α → Prop} {last : List (Exchange ε ρ) → β → Prop}

theorem pure {a : α} (holds : post heard a) :
    Ensures may post heard (Pure.pure a : Program ε ρ α) := holds

theorem mono {program : Program ε ρ α} (ensures : Ensures may post heard program)
    (weaker : ∀ heard a, post heard a → post' heard a) : Ensures may post' heard program := by
  induction program generalizing heard with
  | done a => exact weaker heard a ensures
  | ask e next ih => exact ⟨ensures.1, fun r => ih r (ensures.2 r)⟩

theorem weaken {may' : ε → Prop} {program : Program ε ρ α}
    (ensures : Ensures may post heard program) (weaker : ∀ e, may e → may' e) :
    Ensures may' post heard program := by
  induction program generalizing heard with
  | done a => exact ensures
  | ask e next ih => exact ⟨weaker e ensures.1, fun r => ih r (ensures.2 r)⟩

theorem bind {program : Program ε ρ α} {f : α → Program ε ρ β}
    (ensures : Ensures may (fun heard a => Ensures may last heard (f a)) heard program) :
    Ensures may last heard (program >>= f) := by
  induction program generalizing heard with
  | done a => exact ensures
  | ask e next ih => exact ⟨ensures.1, fun r => ih r (ensures.2 r)⟩

theorem bind_ask {e : ε} {f : ρ e → Program ε ρ β} (allowed : may e)
    (ensures : ∀ r, Ensures may last (heard ++ [⟨e, r⟩]) (f r)) :
    Ensures may last heard (.ask e .done >>= f) := ⟨allowed, ensures⟩

theorem extends_heard {program : Program ε ρ α} (ensures : Ensures may post heard program) :
    Ensures may (fun heard' a => heard <+: heard' ∧ post heard' a) heard program := by
  induction program generalizing heard with
  | done a => exact ⟨List.prefix_rfl, ensures⟩
  | ask e next ih =>
    refine ⟨ensures.1, fun r => ?_⟩
    refine (ih r (ensures.2 r)).mono fun heard' a holds => ⟨?_, holds.2⟩
    exact (List.prefix_append heard _).trans holds.1

theorem frame_from {before : List (Exchange ε ρ)} {program : Program ε ρ α}
    (ensures : Ensures may post before program) (allowed : ∀ x ∈ before, may x.1)
    (heard : List (Exchange ε ρ)) :
    Ensures may (fun heard' a => ∃ more, heard' = heard ++ more ∧ (∀ x ∈ more, may x.1) ∧
      post more a) (heard ++ before) program := by
  induction program generalizing before with
  | done a => exact ⟨before, rfl, allowed, ensures⟩
  | ask e next ih =>
    refine ⟨ensures.1, fun r => ?_⟩
    rw [List.append_assoc]
    refine ih r (ensures.2 r) fun x mem => ?_
    rcases List.mem_append.mp mem with old | new
    · exact allowed x old
    · rw [List.mem_singleton.mp new]
      exact ensures.1

/-- The frame rule: what a program does does not depend on what was heard before. -/
theorem frame {program : Program ε ρ α} (ensures : Ensures may post [] program)
    (heard : List (Exchange ε ρ)) :
    Ensures may (fun heard' a => ∃ more, heard' = heard ++ more ∧ (∀ x ∈ more, may x.1) ∧
      post more a) heard program := by
  simpa using ensures.frame_from (by simp) heard

theorem seq {program : Program ε ρ α} {f : α → Program ε ρ β}
    (ensures : Ensures may post heard program)
    (rest : ∀ heard' a, heard <+: heard' → post heard' a → Ensures may last heard' (f a)) :
    Ensures may last heard (program >>= f) :=
  bind (ensures.extends_heard.mono fun heard' a holds => rest heard' a holds.1 holds.2)

end Ensures

/-- The result of a program that has had just this exchange, if it can have it. -/
def Program.replay [DecidableEq ε] : Program ε ρ α → List (Exchange ε ρ) → Option α
  | .done a, [] => some a
  | .done _, _ :: _ => none
  | .ask _ _, [] => none
  | .ask e next, ⟨e', r⟩ :: heard =>
      if same : e' = e then (next (same ▸ r)).replay heard else none

theorem Program.replay_bind [DecidableEq ε] {program : Program ε ρ α} {f : α → Program ε ρ β}
    {heard more : List (Exchange ε ρ)} {a : α} {b : β} (first : program.replay heard = some a)
    (second : (f a).replay more = some b) : (program >>= f).replay (heard ++ more) = some b := by
  induction program generalizing heard with
  | done a' =>
    cases heard with
    | nil =>
      cases first
      exact second
    | cons _ _ => cases first
  | ask e next ih =>
    cases heard with
    | nil => cases first
    | cons answer rest =>
      obtain ⟨e', r⟩ := answer
      rw [Program.replay] at first
      split_ifs at first with same
      subst same
      change (Program.ask e' fun r => next r >>= f).replay (⟨e', r⟩ :: (rest ++ more)) = some b
      rw [Program.replay, dif_pos rfl]
      exact ih r first

namespace Ensures
variable [DecidableEq ε] {may : ε → Prop} {heard : List (Exchange ε ρ)}
  {post : List (Exchange ε ρ) → α → Prop}

theorem of_replay {program : Program ε ρ α} {more : List (Exchange ε ρ)} {a : α}
    (ensures : Ensures may post heard program) (had : program.replay more = some a) :
    post (heard ++ more) a := by
  induction program generalizing heard more with
  | done b =>
    cases more with
    | nil =>
      cases had
      rw [List.append_nil]
      exact ensures
    | cons first rest => cases had
  | ask e next ih =>
    cases more with
    | nil => cases had
    | cons first rest =>
      obtain ⟨e', r⟩ := first
      rw [Program.replay] at had
      split_ifs at had with same
      subst same
      have later := ih r (ensures.2 r) had
      rwa [List.append_assoc] at later

theorem replays {program : Program ε ρ α} (ensures : Ensures may post heard program) :
    Ensures may (fun heard' a => post heard' a ∧
      ∃ more, heard' = heard ++ more ∧ program.replay more = some a) heard program := by
  induction program generalizing heard with
  | done a => exact ⟨ensures, [], by simp, rfl⟩
  | ask e next ih =>
    refine ⟨ensures.1, fun r => (ih r (ensures.2 r)).mono ?_⟩
    rintro heard' a ⟨holds, more, same, had⟩
    refine ⟨holds, ⟨e, r⟩ :: more, by simp [same], ?_⟩
    rw [Program.replay, dif_pos rfl]
    exact had

end Ensures

def Program.serve {σ : Type} (answer : (e : ε) → σ → Option (ρ e × σ)) :
    Program ε ρ α → σ → Option (α × σ)
  | .done a, s => some (a, s)
  | .ask e next, s => (answer e s).bind fun (r, s) => (next r).serve answer s

theorem Program.serve_bind {σ : Type} (answer : (e : ε) → σ → Option (ρ e × σ))
    (program : Program ε ρ α) (f : α → Program ε ρ β) (s : σ) :
    (program >>= f).serve answer s =
      (program.serve answer s).bind fun (a, s) => (f a).serve answer s := by
  induction program generalizing s with
  | done a => rfl
  | ask e next ih =>
    change (answer e s).bind (fun (r, s) => (next r >>= f).serve answer s) = _
    rw [Program.serve, Option.bind_assoc]
    exact congrArg _ (funext fun (r, s) => ih r s)

theorem Program.serve_seq {σ : Type} {answer : (e : ε) → σ → Option (ρ e × σ)}
    {program : Program ε ρ α} {f : α → Program ε ρ β} {s s' : σ} {a : α}
    (first : program.serve answer s = some (a, s')) :
    (program >>= f).serve answer s = (f a).serve answer s' := by
  rw [serve_bind, first, Option.bind_some]

end Zdb.Resumption
