import Mathlib

/-!
# One owner each

Places that hold the name of a thing or 0. No thing is held in two places, and every thing
that is held has a property: it has been handed out.
-/

namespace Xv6Paging.Lib

variable {κ β : Type} [Zero β] {own own' : κ → β} {P Q : β → Prop}

/-- No two places hold the same thing, and what they hold satisfies `P`. -/
structure Owns (own : κ → β) (P : β → Prop) : Prop where
  inj : ∀ {a b : κ}, own a ≠ 0 → own a = own b → a = b
  mem : ∀ {a : κ}, own a ≠ 0 → P (own a)

theorem Owns.mono (h : Owns own P) (hPQ : ∀ a, own a ≠ 0 → P (own a) → Q (own a)) : Owns own Q :=
  ⟨h.inj, fun ha => hPQ _ ha (h.mem ha)⟩

/-- Some places let go. -/
theorem Owns.drop (h : Owns own P) (hown : ∀ a, own' a = 0 ∨ own' a = own a) : Owns own' P := by
  have held : ∀ {a}, own' a ≠ 0 → own' a = own a := fun {a} ha => (hown a).resolve_left ha
  constructor
  · intro a b ha hab
    have ha' := held ha
    have hb' := held (a := b) (hab ▸ ha)
    exact h.inj (ha' ▸ ha) (by rw [← ha', ← hb', hab])
  · intro a ha
    have ha' := held ha
    rw [ha'] at ha ⊢
    exact h.mem ha

/-- A place takes a thing nobody holds. -/
theorem Owns.take [DecidableEq κ] (h : Owns own P) {a : κ} {x : β} (hfree : ∀ b, own b ≠ x)
    (hx : P x) (hown : ∀ b, own' b = if b = a then x else own b) : Owns own' P := by
  constructor
  · intro b c hb hbc
    rw [hown] at hb
    rw [hown, hown] at hbc
    by_cases hba : b = a
    · by_cases hca : c = a
      · rw [hba, hca]
      · rw [if_pos hba, if_neg hca] at hbc
        exact absurd hbc.symm (hfree c)
    · rw [if_neg hba] at hb hbc
      by_cases hca : c = a
      · rw [if_pos hca] at hbc
        exact absurd hbc (hfree b)
      · rw [if_neg hca] at hbc
        exact h.inj hb hbc
  · intro b hb
    rw [hown] at hb ⊢
    by_cases hba : b = a
    · rw [if_pos hba]
      exact hx
    · rw [if_neg hba] at hb ⊢
      exact h.mem hb

/-- What a place holds it held before, or nobody did. -/
def Fresh (own own' : κ → β) : Prop := ∀ a, own' a ≠ 0 → own' a = own a ∨ ∀ b, own b ≠ own' a

theorem Fresh.of_drop (h : ∀ a, own' a = 0 ∨ own' a = own a) : Fresh own own' :=
  fun a ha => .inl ((h a).resolve_left ha)

/-- Nothing is let go of, and still nothing is held twice. -/
theorem Owns.fresh (h : Owns own' P) (hkept : ∀ a, own a ≠ 0 → own' a = own a) :
    Fresh own own' := by
  intro a ha
  by_cases hold : own a = 0
  · refine .inr fun b hb => ?_
    have hb0 : own b ≠ 0 := hb ▸ ha
    obtain rfl := h.inj ha (hb.symm.trans (hkept b hb0).symm)
    exact hb0 hold
  · exact .inl (hkept a hold)

end Xv6Paging.Lib
