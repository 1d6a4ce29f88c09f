import Mathlib

/-!
# Who holds what

A resource is free, or some slot holds it, or it is held outside the slots being
looked at. `Ledger` says these three never overlap, no two slots hold the same
resource, and every resource of a given collection is in one of the three places.
The rules move one resource at a time: from the free ones to the outside and back,
and from the outside into a slot and back. Nothing is lost on the way.

Frames and page tables are one instance; nothing here is about them.
-/

namespace Xv6Paging.Lib

/--
`own` maps slots to what they hold, `S` is held elsewhere, `Free` by nobody. `U` is
the collection that has to be accounted for; with `U` empty only the overlaps are
ruled out.
-/
structure Ledger {κ φ : Type} (U : Set φ) (Free : φ → Prop) (own : κ → Option φ) (S : Set φ) :
    Prop where
  held : ∀ s f, own s = some f → ¬ Free f ∧ f ∉ S
  out : ∀ f ∈ S, ¬ Free f
  inj : ∀ s t f, own s = some f → own t = some f → s = t
  all : ∀ f ∈ U, Free f ∨ f ∈ S ∨ ∃ s, own s = some f

namespace Ledger

variable {κ φ : Type} {U : Set φ} {Free Free' : φ → Prop} {own : κ → Option φ} {S T : Set φ}
  {f : φ} {s : κ}

/-- Only which resources are free matters. -/
theorem congr_free (h : Ledger U Free own S) (hf : ∀ g, Free' g ↔ Free g) :
    Ledger U Free' own S :=
  ⟨fun s f hs => ⟨fun hx => (h.held s f hs).1 ((hf f).mp hx), (h.held s f hs).2⟩,
    fun f hS hx => h.out f hS ((hf f).mp hx), h.inj,
    fun f hU => (h.all f hU).imp_left (hf f).mpr⟩

/-- A free resource is taken. -/
theorem take (h : Ledger U Free own S) (hfree : Free f) (hf : ∀ g, Free' g ↔ Free g ∧ g ≠ f) :
    Ledger U Free' own (insert f S) := by
  refine ⟨fun s g hs => ⟨fun hx => (h.held s g hs).1 ((hf g).mp hx).1, ?_⟩, ?_, h.inj, ?_⟩
  · rintro (rfl | hg)
    · exact (h.held s g hs).1 hfree
    · exact (h.held s g hs).2 hg
  · rintro g (rfl | hg) hx
    · exact ((hf g).mp hx).2 rfl
    · exact h.out g hg ((hf g).mp hx).1
  · intro g hU
    by_cases hg : g = f
    · exact Or.inr (Or.inl (Or.inl hg))
    · rcases h.all g hU with hx | hx | hx
      · exact Or.inl ((hf g).mpr ⟨hx, hg⟩)
      · exact Or.inr (Or.inl (Or.inr hx))
      · exact Or.inr (Or.inr hx)

/-- A resource held outside is given back. -/
theorem give (h : Ledger U Free own S) (hS : f ∈ S) (hf : ∀ g, Free' g ↔ Free g ∨ g = f) :
    Ledger U Free' own (S \ {f}) := by
  refine ⟨fun s g hs => ⟨fun hx => ?_, fun hg => (h.held s g hs).2 hg.1⟩, ?_, h.inj, ?_⟩
  · rcases (hf g).mp hx with hx | rfl
    · exact (h.held s g hs).1 hx
    · exact (h.held s g hs).2 hS
  · intro g hg hx
    rcases (hf g).mp hx with hx | rfl
    · exact h.out g hg.1 hx
    · exact hg.2 rfl
  · intro g hU
    by_cases hg : g = f
    · exact Or.inl ((hf g).mpr (Or.inr hg))
    · rcases h.all g hU with hx | hx | hx
      · exact Or.inl ((hf g).mpr (Or.inl hx))
      · exact Or.inr (Or.inl ⟨hx, hg⟩)
      · exact Or.inr (Or.inr hx)

/-- Taking something and getting rid of it again leaves the outside as it was. -/
theorem restore (h : Ledger U Free own (insert f S \ {f})) (hf : f ∉ S) : Ledger U Free own S := by
  have heq : insert f S \ {f} = S := by
    rw [Set.insert_sdiff_of_mem _ (Set.mem_singleton f), Set.sdiff_singleton_eq_self hf]
  rwa [heq] at h

/--
**The other side of the ledger.** If the outside of `own` is what `own'` holds and
`T`, then the outside of `own'` is what `own` holds and `T`.
-/
theorem mirror {own' : κ → Option φ} (h : Ledger U Free own (T ∪ {f | ∃ s, own' s = some f}))
    (hinj : ∀ s t f, own' s = some f → own' t = some f → s = t)
    (hapart : ∀ s f, own' s = some f → f ∉ T) :
    Ledger U Free own' (T ∪ {f | ∃ s, own s = some f}) := by
  refine ⟨fun s f hs => ⟨h.out f (Or.inr ⟨s, hs⟩), ?_⟩, ?_, hinj, ?_⟩
  · rintro (hf | ⟨t, ht⟩)
    · exact hapart s f hs hf
    · exact (h.held t f ht).2 (Or.inr ⟨s, hs⟩)
  · rintro f (hf | ⟨t, ht⟩)
    · exact h.out f (Or.inl hf)
    · exact (h.held t f ht).1
  · intro f hU
    rcases h.all f hU with hx | (hx | hx) | hx
    · exact Or.inl hx
    · exact Or.inr (Or.inl (Or.inl hx))
    · exact Or.inr (Or.inr hx)
    · exact Or.inr (Or.inl (Or.inr hx))

variable [DecidableEq κ]

/-- A resource held outside moves into an empty slot. -/
theorem graft (h : Ledger U Free own S) (hS : f ∈ S) (hs : own s = none) :
    Ledger U Free (Function.update own s (some f)) (S \ {f}) := by
  have cases : ∀ t g, Function.update own s (some f) t = some g →
      (t = s ∧ g = f) ∨ (t ≠ s ∧ own t = some g) := by
    intro t g ht
    by_cases hts : t = s
    · subst hts
      rw [Function.update_self] at ht
      exact Or.inl ⟨rfl, (Option.some.inj ht).symm⟩
    · rw [Function.update_of_ne hts] at ht
      exact Or.inr ⟨hts, ht⟩
  have apart : ∀ t, own t ≠ some f := fun t ht => (h.held t f ht).2 hS
  refine ⟨fun t g ht => ?_, fun g hg => h.out g hg.1, fun t u g ht hu => ?_, fun g hU => ?_⟩
  · rcases cases t g ht with ⟨_, rfl⟩ | ⟨_, ht⟩
    · exact ⟨h.out g hS, fun hg => hg.2 rfl⟩
    · exact ⟨(h.held t g ht).1, fun hg => (h.held t g ht).2 hg.1⟩
  · rcases cases t g ht with ⟨hts, hgf⟩ | ⟨_, ht'⟩ <;>
      rcases cases u g hu with ⟨hus, hgf'⟩ | ⟨_, hu'⟩
    · rw [hts, hus]
    · exact absurd (hgf ▸ hu') (apart u)
    · exact absurd (hgf' ▸ ht') (apart t)
    · exact h.inj t u g ht' hu'
  · by_cases hg : g = f
    · exact Or.inr (Or.inr ⟨s, by rw [Function.update_self, hg]⟩)
    · rcases h.all g hU with hx | hx | ⟨t, ht⟩
      · exact Or.inl hx
      · exact Or.inr (Or.inl ⟨hx, hg⟩)
      · have hts : t ≠ s := fun he => by rw [he, hs] at ht; simp at ht
        exact Or.inr (Or.inr ⟨t, by rw [Function.update_of_ne hts]; exact ht⟩)

/-- What a slot holds moves outside. -/
theorem prune (h : Ledger U Free own S) (hs : own s = some f) :
    Ledger U Free (Function.update own s none) (insert f S) := by
  have keep : ∀ t g, Function.update own s none t = some g → t ≠ s ∧ own t = some g := by
    intro t g ht
    by_cases hts : t = s
    · subst hts; simp at ht
    · rw [Function.update_of_ne hts] at ht; exact ⟨hts, ht⟩
  refine ⟨fun t g ht => ?_, ?_, fun t u g ht hu => h.inj t u g (keep t g ht).2 (keep u g hu).2,
    fun g hU => ?_⟩
  · obtain ⟨hne, ht⟩ := keep t g ht
    refine ⟨(h.held t g ht).1, ?_⟩
    rintro (rfl | hg)
    · exact hne (h.inj t s g ht hs)
    · exact (h.held t g ht).2 hg
  · rintro g (rfl | hg)
    · exact (h.held s g hs).1
    · exact h.out g hg
  · rcases h.all g hU with hx | hx | ⟨t, ht⟩
    · exact Or.inl hx
    · exact Or.inr (Or.inl (Or.inr hx))
    · by_cases hts : t = s
      · rw [hts, hs] at ht
        exact Or.inr (Or.inl (Or.inl (Option.some.inj ht).symm))
      · exact Or.inr (Or.inr ⟨t, by rw [Function.update_of_ne hts]; exact ht⟩)

/-- What a slot holds is given back. -/
theorem release (h : Ledger U Free own S) (hs : own s = some f)
    (hf : ∀ g, Free' g ↔ Free g ∨ g = f) : Ledger U Free' (Function.update own s none) S :=
  ((h.prune hs).give (Set.mem_insert f S) hf).restore (h.held s f hs).2

end Ledger

end Xv6Paging.Lib
