import Mathlib

/-!
# The latest occurrence in a log

A log only grows at its end, so the number of entries before an event is a
time stamp for it. `LastAt` is the stamp of the last event of a kind.
-/

namespace Xv6Paging.Lib

variable {α : Type}

/-- Place `n` is the last one at which `v` stands in the log. -/
structure LastAt (log : List α) (v : α) (n : Nat) : Prop where
  here : log[n]? = some v
  later : ∀ j, n < j → log[j]? ≠ some v

namespace LastAt

variable {log : List α} {v w : α} {n : Nat}

theorem lt_length (h : LastAt log v n) : n < log.length := by
  by_contra hn
  have hout := List.getElem?_eq_none (Nat.le_of_not_lt hn)
  rw [h.here] at hout
  simp at hout

/-- Two things do not happen at one place. -/
theorem value_eq (hv : LastAt log v n) (hw : LastAt log w n) : v = w :=
  Option.some.inj (hv.here.symm.trans hw.here)

theorem push_self (log : List α) (v : α) : LastAt (log ++ [v]) v log.length := by
  refine ⟨by simp, fun j hj => ?_⟩
  rw [List.getElem?_eq_none (by simp; omega)]
  simp

theorem push_other (h : LastAt log v n) (hne : v ≠ w) : LastAt (log ++ [w]) v n := by
  have hn := h.lt_length
  refine ⟨by rw [List.getElem?_append_left hn]; exact h.here, fun j hj => ?_⟩
  by_cases hlt : j < log.length
  · rw [List.getElem?_append_left hlt]
    exact h.later j hj
  · rw [List.getElem?_append_right (Nat.le_of_not_lt hlt), List.getElem?_singleton]
    split
    · exact fun he => hne (Option.some.inj he).symm
    · simp

end LastAt

end Xv6Paging.Lib
