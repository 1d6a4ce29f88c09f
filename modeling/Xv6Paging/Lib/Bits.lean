import Mathlib

/-!
# Bits in a block of bytes

A block of `n` bytes as an array of `8 * n` bits, the lowest bit of each byte first.
-/

namespace Xv6Paging.Lib

variable {n : Nat}

/-- The mask `1 << (i % 8)`. -/
def bitMask (i : Nat) : UInt8 := 1 <<< UInt8.ofNat (i % 8)

/-- Bit `i`. -/
def bit (b : Fin n → UInt8) (i : Nat) : Bool :=
  if h : i / 8 < n then decide (b ⟨i / 8, h⟩ &&& bitMask i ≠ 0) else false

/-- `b[i/8] |= 1 << (i%8)`. -/
def setBit (b : Fin n → UInt8) (i : Nat) : Fin n → UInt8 := fun k =>
  if k.val = i / 8 then b k ||| bitMask i else b k

/-- `b[i/8] &= ~(1 << (i%8))`. -/
def clearBit (b : Fin n → UInt8) (i : Nat) : Fin n → UInt8 := fun k =>
  if k.val = i / 8 then b k &&& ~~~bitMask i else b k

/-! ## One byte -/

theorem toBitVec_bitMask (i : Nat) : (bitMask i).toBitVec = BitVec.twoPow 8 (i % 8) := by
  have hcases : ∀ j : Fin 8, (1 <<< UInt8.ofNat j : UInt8).toBitVec = BitVec.twoPow 8 j := by decide
  exact hcases ⟨i % 8, Nat.mod_lt _ (by decide)⟩

/-- The mask picks the bit it is for. -/
theorem and_bitMask (x : UInt8) (i : Nat) :
    decide (x &&& bitMask i ≠ 0) = x.toBitVec.getLsbD (i % 8) := by
  have hlt : i % 8 < 8 := Nat.mod_lt _ (by decide)
  have hzero : x &&& bitMask i = 0 ↔ x.toBitVec.getLsbD (i % 8) = false := by
    rw [← UInt8.toBitVec_inj, UInt8.toBitVec_and, toBitVec_bitMask, BitVec.and_twoPow]
    constructor
    · intro h
      cases hb : x.toBitVec.getLsbD (i % 8) with
      | false => rfl
      | true =>
        rw [hb, if_pos rfl] at h
        have := congrArg (BitVec.getLsbD · (i % 8)) h
        simp [hlt] at this
    · intro h
      rw [h]
      rfl
  cases hb : x.toBitVec.getLsbD (i % 8) with
  | false => exact decide_eq_false (not_not_intro (hzero.mpr hb))
  | true =>
    refine decide_eq_true fun h => ?_
    rw [hzero.mp h] at hb
    cases hb

theorem getLsbD_bitMask (i j : Nat) :
    (bitMask i).toBitVec.getLsbD (j % 8) = decide (i % 8 = j % 8) := by
  have hlt : j % 8 < 8 := Nat.mod_lt _ (by decide)
  rw [toBitVec_bitMask, BitVec.getLsbD_twoPow]
  simp [Nat.mod_lt]

/-! ## All of them -/

theorem bit_setBit (b : Fin n → UInt8) {i : Nat} (j : Nat) (hi : i / 8 < n) :
    bit (setBit b i) j = (decide (i = j) || bit b j) := by
  unfold bit setBit
  by_cases hb : i / 8 = j / 8
  · have hpos : i % 8 = j % 8 ↔ i = j := by omega
    rw [dif_pos (by omega), dif_pos (by omega), if_pos hb.symm, and_bitMask, and_bitMask,
      UInt8.toBitVec_or, BitVec.getLsbD_or, getLsbD_bitMask, decide_eq_decide.mpr hpos,
      Bool.or_comm]
  · have hne : i ≠ j := fun h => hb (by rw [h])
    split
    · rw [if_neg (fun h => hb h.symm), decide_eq_false hne, Bool.false_or]
    · rw [decide_eq_false hne, Bool.false_or]

theorem bit_clearBit (b : Fin n → UInt8) (i j : Nat) :
    bit (clearBit b i) j = (!decide (i = j) && bit b j) := by
  unfold bit clearBit
  by_cases hb : i / 8 = j / 8
  · have hpos : i % 8 = j % 8 ↔ i = j := by omega
    have hlt : j % 8 < 8 := Nat.mod_lt _ (by decide)
    split
    · rw [if_pos hb.symm, and_bitMask, and_bitMask, UInt8.toBitVec_and, UInt8.toBitVec_not,
        BitVec.getLsbD_and, BitVec.getLsbD_not, getLsbD_bitMask, decide_eq_decide.mpr hpos,
        Bool.and_comm, decide_eq_true hlt, Bool.true_and]
    · rw [Bool.and_false]
  · have hne : i ≠ j := fun h => hb (by rw [h])
    split
    · rw [if_neg (fun h => hb h.symm), decide_eq_false hne, Bool.not_false, Bool.true_and]
    · rw [Bool.and_false]

theorem bit_zero (j : Nat) : bit (fun _ : Fin n => (0 : UInt8)) j = false := by
  unfold bit
  split
  · rw [UInt8.zero_and]
    rfl
  · rfl

end Xv6Paging.Lib
