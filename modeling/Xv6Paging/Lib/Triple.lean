import Mathlib

/-!
# Programs that may stop, and triples for them

A program over a state `σ` is a function that gives a result and a new state, or stops
without one. `Triple P m Q` says that from a state with `P` a program that does not stop
ends in a state with `Q`. The rules follow the structure of a program.
-/

namespace Xv6Paging.Lib

variable {σ α β : Type}

/-- A program. -/
abbrev Prog (σ α : Type) : Type := StateT σ Option α

/-- From `P`, to `Q` unless it stops. -/
def Triple (P : σ → Prop) (m : Prog σ α) (Q : α → σ → Prop) : Prop :=
  ∀ s, P s → ∀ a s', m s = some (a, s') → Q a s'

/-- A program that runs through has run through its parts. -/
theorem bind_run {m : Prog σ α} {f : α → Prog σ β} {s s' : σ} {b : β} :
    (m >>= f) s = some (b, s') ↔ ∃ a t, m s = some (a, t) ∧ f a t = some (b, s') := by
  change (m s).bind (fun x => f x.1 x.2) = some (b, s') ↔ _
  rw [Option.bind_eq_some_iff]
  exact ⟨fun ⟨x, h, h'⟩ => ⟨x.1, x.2, h, h'⟩, fun ⟨a, t, h, h'⟩ => ⟨(a, t), h, h'⟩⟩

section

variable {P P' : σ → Prop} {Q Q' : α → σ → Prop} {R : β → σ → Prop}

theorem Triple.pure {a : α} (h : ∀ s, P s → Q a s) : Triple P (pure a) Q := by
  intro s hs b s' he
  obtain ⟨rfl, rfl⟩ := Prod.mk.inj (Option.some.inj he)
  exact h s hs

theorem Triple.bind {m : Prog σ α} {f : α → Prog σ β} (hm : Triple P m Q)
    (hf : ∀ a, Triple (Q a) (f a) R) : Triple P (m >>= f) R := by
  intro s hs b s' he
  obtain ⟨a, t, hma, hfb⟩ := bind_run.mp he
  exact hf a t (hm s hs a t hma) b s' hfb

/-- What a program reads from the state is known of the state. -/
theorem Triple.get {f : σ → Prog σ β} (hf : ∀ s, P s → Triple (fun t => t = s) (f s) R) :
    Triple P (get >>= f) R := by
  intro s hs b s' he
  exact hf s hs s rfl b s' he

theorem Triple.modify {f : σ → σ} {Q : PUnit → σ → Prop} (h : ∀ s, P s → Q ⟨⟩ (f s)) :
    Triple P (modify f) Q := by
  intro s hs b s' he
  obtain ⟨rfl, rfl⟩ := Prod.mk.inj (Option.some.inj he)
  exact h s hs

/-- A program that stops. -/
theorem Triple.failure : Triple P (failure : Prog σ α) Q := by
  intro s _ a s' he
  cases he

theorem Triple.ite {c : Prop} [Decidable c] {m n : Prog σ α} (hm : c → Triple P m Q)
    (hn : ¬ c → Triple P n Q) : Triple P (if c then m else n) Q := by
  split
  · exact hm ‹_›
  · exact hn ‹_›

theorem Triple.conseq {m : Prog σ α} (h : Triple P' m Q') (hP : ∀ s, P s → P' s)
    (hQ : ∀ a s, Q' a s → Q a s) : Triple P m Q :=
  fun s hs a s' he => hQ a s' (h s (hP s hs) a s' he)

theorem Triple.pre {m : Prog σ α} (h : Triple P' m Q) (hP : ∀ s, P s → P' s) : Triple P m Q :=
  h.conseq hP fun _ _ hq => hq

theorem Triple.post {m : Prog σ α} (h : Triple P m Q') (hQ : ∀ a s, Q' a s → Q a s) :
    Triple P m Q :=
  h.conseq (fun _ hp => hp) hQ

/-- What follows from the precondition may be used. -/
theorem Triple.fact {c : Prop} {m : Prog σ α} (hc : ∀ s, P s → c) (h : c → Triple P m Q) :
    Triple P m Q :=
  fun s hs => h (hc s hs) s hs

theorem Triple.exists {ι : Type} {P : ι → σ → Prop} {m : Prog σ α} (h : ∀ i, Triple (P i) m Q) :
    Triple (fun s => ∃ i, P i s) m Q :=
  fun s ⟨i, hi⟩ a s' he => h i s hi a s' he

theorem Triple.and {m : Prog σ α} (h : Triple P m Q) (h' : Triple P' m Q') :
    Triple (fun s => P s ∧ P' s) m fun a s => Q a s ∧ Q' a s :=
  fun s hs a s' he => ⟨h s hs.1 a s' he, h' s hs.2 a s' he⟩

end

end Xv6Paging.Lib
