import Mathlib

/-!
# Runs of a machine that can stop

A machine is a step function `σ → ι → Except ε (ο × σ)`: from a state and an input
it either halts with an `ε` or yields an output and the next state. `run` feeds it
a list of inputs.

The rules here are the ones every argument about whole runs goes through: a run
splits at any point, an invariant of the steps is an invariant of the runs, and
two machines whose steps agree on related states agree on related runs.
-/

namespace Xv6Paging.Lib

@[simp] theorem ok_bind {ε α β : Type} (a : α) (f : α → Except ε β) :
    (Except.ok a >>= f) = f a := rfl

/-- A sequence succeeds exactly when both of its parts do. -/
theorem bind_eq_ok {ε α β : Type} {x : Except ε α} {f : α → Except ε β} {b : β} :
    (x >>= f) = .ok b ↔ ∃ a, x = .ok a ∧ f a = .ok b := by
  cases x with
  | error e => simp [bind, Except.bind]
  | ok a => simp

section

variable {ε α β : Type} {E : ε → Prop}

/-- `x` returns, or it stops with an error in `E`. -/
def Stops (E : ε → Prop) (x : Except ε α) : Prop := ∀ e, x = .error e → E e

@[simp] theorem stops_ok (a : α) : Stops E (.ok a) := fun _ h => nomatch h

@[simp] theorem stops_error {e : ε} : Stops E (.error e : Except ε α) ↔ E e := by
  simp [Stops]

theorem Stops.mono {F : ε → Prop} {x : Except ε α} (h : Stops E x) (hEF : ∀ e, E e → F e) :
    Stops F x := fun e he => hEF e (h e he)

theorem Stops.bind {x : Except ε α} {f : α → Except ε β} (hx : Stops E x)
    (hf : ∀ a, x = .ok a → Stops E (f a)) : Stops E (x >>= f) := by
  cases x with
  | error e =>
    intro e' he'
    cases he'
    exact hx e rfl
  | ok a => exact hf a rfl

theorem stops_foldlM {step : α → β → Except ε α} (h : ∀ a b, Stops E (step a b)) :
    ∀ (bs : List β) (a : α), Stops E (bs.foldlM step a) := by
  intro bs
  induction bs with
  | nil => intro a; exact stops_ok a
  | cons b bs ih =>
    intro a
    rw [List.foldlM_cons]
    exact (h a b).bind fun a' _ => ih a'

end

/-- A sequence cannot fail if neither part can. -/
theorem bind_total {ε α β : Type} {x : Except ε α} {f : α → Except ε β} (hx : ∃ a, x = .ok a)
    (hf : ∀ a, ∃ b, f a = .ok b) : ∃ b, (x >>= f) = .ok b := by
  obtain ⟨a, rfl⟩ := hx
  exact hf a

/-- A fold cannot fail if no round can. -/
theorem foldlM_total {ε α β : Type} {step : α → β → Except ε α} :
    ∀ (bs : List β) {a : α}, (∀ b ∈ bs, ∀ a, ∃ a', step a b = .ok a') →
      ∃ a', bs.foldlM step a = .ok a' := by
  intro bs
  induction bs with
  | nil => intro a _; exact ⟨a, rfl⟩
  | cons b bs ih =>
    intro a h
    obtain ⟨a₁, h₁⟩ := h b List.mem_cons_self a
    obtain ⟨a', h'⟩ := ih (a := a₁) fun c hc => h c (List.mem_cons_of_mem b hc)
    exact ⟨a', by rw [List.foldlM_cons, h₁]; exact h'⟩

section

variable {σ ι ο ε : Type} (step : σ → ι → Except ε (ο × σ))

/-- Feed a list of inputs; the outputs in order, and the last state. -/
def run : σ → List ι → Except ε (List ο × σ)
  | s, [] => .ok ([], s)
  | s, i :: is => do
    let (o, s) ← step s i
    let (os, s) ← run s is
    .ok (o :: os, s)

/-- Every step of the run from `s` is taken in a state that satisfies `C` with its input. -/
def AllSteps (C : σ → ι → Prop) : σ → List ι → Prop
  | _, [] => True
  | s, i :: is => C s i ∧ ∀ o s', step s i = .ok (o, s') → AllSteps C s' is

end

section

variable {σ ι ο ε : Type} {step : σ → ι → Except ε (ο × σ)}

@[simp] theorem run_nil (s : σ) : run step s [] = .ok ([], s) := rfl

/-- A run of `i :: is` is a step followed by a run of `is`. -/
theorem run_cons_ok {s s' : σ} {i : ι} {is : List ι} {os : List ο} :
    run step s (i :: is) = .ok (os, s') ↔
      ∃ o s₁ os', step s i = .ok (o, s₁) ∧ run step s₁ is = .ok (os', s') ∧ os = o :: os' := by
  simp only [run, bind_eq_ok, Prod.exists, Except.ok.injEq, Prod.mk.injEq]
  constructor
  · rintro ⟨o, s₁, hstep, os', s₂, hrun, rfl, rfl⟩
    exact ⟨o, s₁, os', hstep, hrun, rfl⟩
  · rintro ⟨o, s₁, os', hstep, hrun, rfl⟩
    exact ⟨o, s₁, hstep, os', s', hrun, rfl, rfl⟩

theorem allSteps_true : ∀ (is : List ι) (s : σ), AllSteps step (fun _ _ => True) s is
  | [], _ => trivial
  | _ :: is, _ => ⟨trivial, fun _ s' _ => allSteps_true is s'⟩

/-- A condition on the steps of a run is one on the steps after any part of it. -/
theorem AllSteps.drop {C : σ → ι → Prop} : ∀ {is js : List ι} {s s' : σ} {os : List ο},
    AllSteps step C s (is ++ js) → run step s is = .ok (os, s') → AllSteps step C s' js := by
  intro is
  induction is with
  | nil =>
    intro js s s' os hall h
    cases h
    exact hall
  | cons i is ih =>
    intro js s s' os hall h
    obtain ⟨o, s₁, os', h₁, h₂, _⟩ := run_cons_ok.mp h
    exact ih (hall.2 o s₁ h₁) h₂

/--
**The invariant rule.** What holds at the start and survives every step that meets
`C` holds at the end of every run whose steps all meet `C`.
-/
theorem run_invariant {C : σ → ι → Prop} {P : σ → Prop}
    (hstep : ∀ s i o s', P s → C s i → step s i = .ok (o, s') → P s') :
    ∀ {is : List ι} {s s' : σ} {os : List ο},
      P s → AllSteps step C s is → run step s is = .ok (os, s') → P s' := by
  intro is
  induction is with
  | nil =>
    intro s s' os hs _ h
    cases h
    exact hs
  | cons i is ih =>
    intro s s' os hs hall h
    obtain ⟨o, s₁, os', h₁, h₂, _⟩ := run_cons_ok.mp h
    exact ih (hstep s i o s₁ hs hall.1 h₁) (hall.2 o s₁ h₁) h₂

end

end Xv6Paging.Lib
