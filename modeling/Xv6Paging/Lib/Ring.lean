import Mathlib

/-!
# Ring buffers with free-running counters

A buffer of `N` cells with a read counter `r` and a write counter `w`, both counted
modulo `M`, a multiple of `N`. The cells in between are the elements of a queue,
oldest first.
-/

namespace Xv6Paging.Lib

variable {α : Type} {N : Nat} [NeZero N]

/-- How many elements there are. -/
def ringCount (M r w : Nat) : Nat := (w + M - r) % M

/-- The `c` elements from `r` on. -/
def ringItems (data : Fin N → α) (r c : Nat) : List α :=
  (List.range c).map fun k => data (Fin.ofNat N (r + k))

theorem ringItems_length (data : Fin N → α) (r c : Nat) : (ringItems data r c).length = c := by
  simp [ringItems]

/-- The oldest element is at the read counter. -/
theorem ringItems_succ (data : Fin N → α) (r c : Nat) :
    ringItems data r (c + 1) = data (Fin.ofNat N r) :: ringItems data (r + 1) c := by
  unfold ringItems
  rw [List.range_succ_eq_map, List.map_cons, List.map_map]
  congr 1
  refine List.map_congr_left fun k _ => ?_
  simp only [Function.comp_apply]
  congr 2
  omega

theorem ofNat_ne {a b : Nat} (hlt : a < b) (hN : b < a + N) : Fin.ofNat N a ≠ Fin.ofNat N b := by
  intro he
  have hmod : a % N = b % N := congrArg Fin.val he
  have hdvd : N ∣ b - a := (Nat.modEq_iff_dvd' (Nat.le_of_lt hlt)).mp hmod
  have := Nat.le_of_dvd (by omega) hdvd
  omega

/-- A write behind the newest element is an element more, and disturbs none of the others. -/
theorem ringItems_push (data : Fin N → α) (r : Nat) {c : Nat} (a : α) (h : c < N) :
    ringItems (Function.update data (Fin.ofNat N (r + c)) a) r (c + 1) =
      ringItems data r c ++ [a] := by
  unfold ringItems
  rw [List.range_succ, List.map_append, List.map_singleton, Function.update_self]
  congr 1
  refine List.map_congr_left fun k hk => ?_
  have hk : k < c := List.mem_range.mp hk
  exact Function.update_of_ne (ofNat_ne (by omega) (by omega)) ..

/-- Only the remainder of a counter matters. -/
theorem ofNat_eq {M a b : Nat} (hM : N ∣ M) (h : a % M = b % M) :
    Fin.ofNat N a = Fin.ofNat N b := by
  refine Fin.ext ?_
  have hmod : a % M % N = b % M % N := by rw [h]
  rw [Nat.mod_mod_of_dvd _ hM, Nat.mod_mod_of_dvd _ hM] at hmod
  exact hmod

theorem ringItems_mod {M : Nat} (hM : N ∣ M) (data : Fin N → α) (r c : Nat) :
    ringItems data (r % M) c = ringItems data r c := by
  refine List.map_congr_left fun k _ => ?_
  rw [ofNat_eq hM (b := r + k) (Nat.mod_add_mod ..)]

section

variable {M r w : Nat}

theorem ringCount_zero (hr : r < M) (hw : w < M) : ringCount M r w = 0 ↔ r = w := by
  unfold ringCount
  rcases Nat.lt_or_ge w r with h | h
  · rw [Nat.mod_eq_of_lt (by omega)]
    omega
  · rw [show w + M - r = (w - r) + M by omega, Nat.add_mod_right, Nat.mod_eq_of_lt (by omega)]
    omega

/-- The write counter is as far ahead of the read counter as there are elements. -/
theorem ringCount_eq (hr : r < M) (hw : w < M) (c : Nat) (hc : c < M) :
    ringCount M r w = c ↔ w = (r + c) % M := by
  unfold ringCount
  rcases Nat.lt_or_ge w r with h | h
  · rw [Nat.mod_eq_of_lt (by omega)]
    rcases Nat.lt_or_ge (r + c) M with h' | h'
    · rw [Nat.mod_eq_of_lt h']
      omega
    · rw [Nat.mod_eq_sub_mod h', Nat.mod_eq_of_lt (by omega)]
      omega
  · rw [show w + M - r = (w - r) + M by omega, Nat.add_mod_right, Nat.mod_eq_of_lt (by omega)]
    rcases Nat.lt_or_ge (r + c) M with h' | h'
    · rw [Nat.mod_eq_of_lt h']
      omega
    · rw [Nat.mod_eq_sub_mod h', Nat.mod_eq_of_lt (by omega)]
      omega

end

/-- The elements between the counters. -/
def ringQueue (M : Nat) (data : Fin N → α) (r w : Nat) : List α :=
  ringItems data r (ringCount M r w)

section

variable {M r w : Nat} {data : Fin N → α}

theorem ringQueue_self (hr : r < M) : ringQueue M data r r = [] := by
  unfold ringQueue
  rw [(ringCount_zero hr hr).mpr rfl]
  rfl

/-- Writing at the write counter, which then goes on, is an element more. -/
theorem ringQueue_push (hM : N ∣ M) (hNM : N < M) (hr : r < M) (hw : w < M) (a : α)
    (hroom : (ringQueue M data r w).length < N) :
    ringQueue M (Function.update data (Fin.ofNat N w) a) r ((w + 1) % M) =
      ringQueue M data r w ++ [a] := by
  unfold ringQueue at hroom ⊢
  rw [ringItems_length] at hroom
  have hpos : 0 < M := Nat.lt_of_le_of_lt (Nat.zero_le r) hr
  have heq : w = (r + ringCount M r w) % M := (ringCount_eq hr hw _ (by omega)).mp rfl
  have hcount : ringCount M r ((w + 1) % M) = ringCount M r w + 1 := by
    refine (ringCount_eq hr (Nat.mod_lt _ hpos) _ (by omega)).mpr ?_
    rw [← Nat.add_assoc, ← Nat.mod_add_mod (r + ringCount M r w), ← heq]
  have hcell : Fin.ofNat N w = Fin.ofNat N (r + ringCount M r w) :=
    ofNat_eq hM ((Nat.mod_eq_of_lt hw).trans heq)
  rw [hcount, hcell]
  exact ringItems_push data r a hroom

/-- The element at the read counter is the first. -/
theorem ringQueue_pop (hM : N ∣ M) (hr : r < M) (hw : w < M) (hne : r ≠ w) :
    ringQueue M data r w = data (Fin.ofNat N r) :: ringQueue M data ((r + 1) % M) w := by
  unfold ringQueue
  have hpos : 0 < M := Nat.lt_of_le_of_lt (Nat.zero_le r) hr
  have hlt : ringCount M r w < M := Nat.mod_lt _ hpos
  obtain ⟨c, hc⟩ : ∃ c, ringCount M r w = c + 1 :=
    Nat.exists_eq_add_one_of_ne_zero fun hzero => hne ((ringCount_zero hr hw).mp hzero)
  have hrest : ringCount M ((r + 1) % M) w = c := by
    refine (ringCount_eq (Nat.mod_lt _ hpos) hw c (by omega)).mpr ?_
    rw [Nat.mod_add_mod, (ringCount_eq hr hw _ hlt).mp rfl, hc]
    congr 1
    omega
  rw [hc, hrest, ringItems_succ, ringItems_mod hM]

end

end Xv6Paging.Lib
