import Mathlib

/-!
# Counting pointers

How many of finitely many places point to a thing, and what writing one of the places
does to that number. A place may hold several pointers: it then has a weight.
-/

namespace Xv6Paging.Lib

/-! ## A pointer -/

section

variable {κ : Type} [DecidableEq κ]

/-- Whether a pointer `v` points to `k`, as a number. -/
def points (v : Option κ) (k : κ) : Nat := if v = some k then 1 else 0

@[simp] theorem points_none (k : κ) : points none k = 0 := rfl

@[simp] theorem points_self (k : κ) : points (some k) k = 1 := if_pos rfl

theorem points_ne {v : Option κ} {k : κ} (h : v ≠ some k) : points v k = 0 := if_neg h

end

/-! ## All of them -/

section

variable {ι α : Type} [Fintype ι] {w : α → Nat}

/-- The weight of all places together. -/
def total (w : α → Nat) (g : ι → α) : Nat := ∑ i, w (g i)

theorem total_update [DecidableEq ι] (g : ι → α) (i : ι) (v : α) :
    total w (Function.update g i v) + w (g i) = total w g + w v := by
  unfold total
  rw [← Finset.add_sum_erase _ _ (Finset.mem_univ i),
    ← Finset.add_sum_erase _ (fun j => w (g j)) (Finset.mem_univ i)]
  have hrest : ∑ j ∈ Finset.univ.erase i, w (Function.update g i v j) =
      ∑ j ∈ Finset.univ.erase i, w (g j) := by
    refine Finset.sum_congr rfl fun j hj => ?_
    rw [Function.update_of_ne (Finset.ne_of_mem_erase hj)]
  rw [hrest, Function.update_self]
  omega

theorem le_total (g : ι → α) (i : ι) : w (g i) ≤ total w g :=
  Finset.single_le_sum (f := fun i => w (g i)) (fun _ _ => Nat.zero_le _) (Finset.mem_univ i)

theorem total_eq_zero {g : ι → α} (h : ∀ i, w (g i) = 0) : total w g = 0 :=
  Finset.sum_eq_zero fun i _ => h i

theorem total_congr {w' : α → Nat} {g : ι → α} (h : ∀ i, w (g i) = w' (g i)) :
    total w g = total w' g :=
  Finset.sum_congr rfl fun i _ => h i

theorem total_single {g : ι → α} (i : ι) (h : ∀ j, j ≠ i → w (g j) = 0) : total w g = w (g i) :=
  Fintype.sum_eq_single i h

end

end Xv6Paging.Lib
