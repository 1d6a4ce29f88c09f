import Mathlib

/-!
# Machines that step under a condition

A machine is a step function `σ → ι → Option σ` that need not be defined everywhere.
`Reach` is what it can get to when every step on the way meets a condition `C`;
`replay` evaluates one run, so that a state can be shown to be reachable by
computing it.
-/

namespace Xv6Paging.Lib

variable {σ ι : Type}

/-- The states reached from `init` by steps that meet `C`. -/
inductive Reach (step : σ → ι → Option σ) (init : σ → Prop) (C : σ → ι → Prop) : σ → Prop where
  | init {s : σ} : init s → Reach step init C s
  | step {s s' : σ} {i : ι} : Reach step init C s → C s i → step s i = some s' →
    Reach step init C s'

section

variable {step : σ → ι → Option σ} {init : σ → Prop} {C : σ → ι → Prop}

/-- **Invariant rule.** -/
theorem Reach.keeps {P : σ → Prop} (hinit : ∀ s, init s → P s)
    (hstep : ∀ s i s', P s → C s i → step s i = some s' → P s') {s : σ}
    (h : Reach step init C s) : P s := by
  induction h with
  | init h => exact hinit _ h
  | step _ hC hs ih => exact hstep _ _ _ ih hC hs

/-- A weaker condition allows more runs. -/
theorem Reach.mono {C' : σ → ι → Prop} (hC : ∀ s i, C s i → C' s i) {s : σ}
    (h : Reach step init C s) : Reach step init C' s := by
  induction h with
  | init h => exact .init h
  | step _ hs hstep ih => exact .step ih (hC _ _ hs) hstep

end

/-- Run through a list of inputs, as long as they are allowed. -/
def replay (step : σ → ι → Option σ) (allowed : σ → ι → Bool) : σ → List ι → Option σ
  | s, [] => some s
  | s, i :: is => if allowed s i then (step s i).bind fun s' => replay step allowed s' is else none

theorem replay_append {step : σ → ι → Option σ} {allowed : σ → ι → Bool} (is js : List ι) :
    ∀ s, replay step allowed s (is ++ js) =
      (replay step allowed s is).bind (replay step allowed · js) := by
  induction is with
  | nil => exact fun _ => rfl
  | cons i is ih =>
    intro s
    rw [List.cons_append, replay, replay]
    split
    · rw [Option.bind_assoc]
      exact Option.bind_congr fun s' _ => ih s'
    · rfl

/-- The states a list of inputs goes through. -/
def passed (step : σ → ι → Option σ) (allowed : σ → ι → Bool) (s : σ) (is : List ι) (k : Nat) : σ :=
  (replay step allowed s (is.take k)).getD s

section

variable {step : σ → ι → Option σ} {allowed : σ → ι → Bool} {s t : σ} {is js : List ι}

theorem passed_eq (k : Nat) (h : replay step allowed s (is.take k) = some t) :
    passed step allowed s is k = t := by
  rw [passed, h]
  rfl

theorem passed_step (h : (replay step allowed s is).isSome) {k : Nat} (hk : k < is.length) :
    allowed (passed step allowed s is k) (is.get ⟨k, hk⟩) ∧
      step (passed step allowed s is k) (is.get ⟨k, hk⟩) =
        some (passed step allowed s is (k + 1)) := by
  obtain ⟨t, ht⟩ := Option.isSome_iff_exists.mp h
  rw [← List.take_append_drop k is, List.drop_eq_getElem_cons hk, replay_append] at ht
  obtain ⟨u, hu, hrest⟩ := Option.bind_eq_some_iff.mp ht
  rw [replay] at hrest
  split at hrest
  swap
  · cases hrest
  rename_i hallowed
  obtain ⟨v, hv, -⟩ := Option.bind_eq_some_iff.mp hrest
  have hnext : replay step allowed s (is.take (k + 1)) = some v := by
    rw [← List.take_append_getElem hk, replay_append, hu]
    simp [replay, hallowed, hv]
  rw [passed_eq k hu, passed_eq (k + 1) hnext]
  exact ⟨hallowed, hv⟩

theorem passed_append {u : σ} (k : Nat) (h : replay step allowed s is = some t)
    (hrest : replay step allowed t (js.take k) = some u) :
    passed step allowed s (is ++ js) (is.length + k) = u := by
  refine passed_eq _ ?_
  rw [List.take_length_add_append, replay_append, h]
  exact hrest

/-- A run whose states are known. -/
theorem replay_range (f : Nat → σ) (act : Nat → ι) {n : Nat}
    (h : ∀ i < n, allowed (f i) (act i) ∧ step (f i) (act i) = some (f (i + 1))) :
    replay step allowed (f 0) ((List.range n).map act) = some (f n) := by
  induction n with
  | zero => rfl
  | succ n ih =>
    have hlast := h n (Nat.lt_succ_self n)
    rw [List.range_succ, List.map_append, replay_append, ih fun i hi => h i (by omega)]
    simp [replay, hlast.1, hlast.2]

end

/-- What every allowed step keeps, a replayed run keeps. -/
theorem replay_keeps {step : σ → ι → Option σ} {allowed : σ → ι → Bool} {P : σ → Prop}
    (hstep : ∀ s i s', P s → allowed s i = true → step s i = some s' → P s') {is : List ι}
    {s s' : σ} (hs : P s) (h : replay step allowed s is = some s') : P s' := by
  induction is generalizing s with
  | nil =>
    cases h
    exact hs
  | cons i is ih =>
    rw [replay] at h
    split at h
    · rename_i hi
      obtain ⟨s₁, h₁, hrest⟩ := Option.bind_eq_some_iff.mp h
      exact ih (hstep s i s₁ hs hi h₁) hrest
    · simp at h

/-- **A replayed run is a run.** -/
theorem replay_reach {step : σ → ι → Option σ} {init : σ → Prop} {C : σ → ι → Prop}
    {allowed : σ → ι → Bool} (hC : ∀ s i, allowed s i = true → C s i) {is : List ι} {s s' : σ}
    (hs : Reach step init C s) (h : replay step allowed s is = some s') : Reach step init C s' :=
  replay_keeps (fun s i _ hs hi h => .step hs (hC s i hi) h) hs h

end Xv6Paging.Lib
