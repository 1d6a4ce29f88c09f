import Mathlib

/-!
# Words in a block of bytes

A block of `n` bytes read and written as an array of 32-bit little-endian words.
-/

namespace Xv6Paging.Lib

variable {n : Nat}

/-- The byte at `k`, 0 past the end. -/
def byteAt (b : Fin n → UInt8) (k : Nat) : Nat := if h : k < n then (b ⟨k, h⟩).toNat else 0

/-- Word `i`. -/
def word (b : Fin n → UInt8) (i : Nat) : Nat :=
  byteAt b (4 * i) + 256 * byteAt b (4 * i + 1) + 65536 * byteAt b (4 * i + 2) +
    16777216 * byteAt b (4 * i + 3)

/-- Set word `i` to `w`. -/
def setWord (b : Fin n → UInt8) (i w : Nat) : Fin n → UInt8 := fun k =>
  if k.val / 4 = i then UInt8.ofNat (w / 256 ^ (k.val % 4)) else b k

theorem byteAt_lt (b : Fin n → UInt8) (k : Nat) : byteAt b k < 256 := by
  unfold byteAt
  split
  · exact UInt8.toNat_lt _
  · decide

theorem word_lt (b : Fin n → UInt8) (i : Nat) : word b i < 2 ^ 32 := by
  have h0 := byteAt_lt b (4 * i)
  have h1 := byteAt_lt b (4 * i + 1)
  have h2 := byteAt_lt b (4 * i + 2)
  have h3 := byteAt_lt b (4 * i + 3)
  unfold word
  omega

/-- Four bytes that are the digits of `w` are the word `w`. -/
theorem word_of_digits {b : Fin n → UInt8} {i w : Nat} (hw : w < 2 ^ 32)
    (h : ∀ j, j < 4 → byteAt b (4 * i + j) = w / 256 ^ j % 256) : word b i = w := by
  have h0 := h 0 (by omega)
  have h1 := h 1 (by omega)
  have h2 := h 2 (by omega)
  have h3 := h 3 (by omega)
  simp only [Nat.add_zero] at h0
  unfold word
  rw [h0, h1, h2, h3]
  omega

theorem word_congr {b c : Fin n → UInt8} {i : Nat}
    (h : ∀ j, j < 4 → byteAt b (4 * i + j) = byteAt c (4 * i + j)) : word b i = word c i := by
  have h0 := h 0 (by omega)
  simp only [Nat.add_zero] at h0
  unfold word
  rw [h0, h 1 (by omega), h 2 (by omega), h 3 (by omega)]

@[simp] theorem word_zero (i : Nat) : word (fun _ : Fin n => (0 : UInt8)) i = 0 := by
  have hbyte : ∀ k, byteAt (fun _ : Fin n => (0 : UInt8)) k = 0 := by
    intro k
    unfold byteAt
    split <;> rfl
  unfold word
  rw [hbyte, hbyte, hbyte, hbyte]

theorem byteAt_setWord_self (b : Fin n → UInt8) {i j : Nat} (w : Nat) (hj : j < 4)
    (h : 4 * i + j < n) : byteAt (setWord b i w) (4 * i + j) = w / 256 ^ j % 256 := by
  have hdiv : (4 * i + j) / 4 = i := by omega
  have hmod : (4 * i + j) % 4 = j := by omega
  rw [byteAt, dif_pos h, setWord]
  dsimp only
  rw [if_pos hdiv, hmod]
  simp

theorem byteAt_setWord_ne (b : Fin n → UInt8) {i k : Nat} (w : Nat) (h : k / 4 ≠ i) :
    byteAt (setWord b i w) k = byteAt b k := by
  unfold byteAt
  split
  · rw [setWord, if_neg h]
  · rfl

/-- What was written is read back. -/
theorem word_setWord_self (b : Fin n → UInt8) {i w : Nat} (h : 4 * i + 3 < n) (hw : w < 2 ^ 32) :
    word (setWord b i w) i = w :=
  word_of_digits hw fun j hj => byteAt_setWord_self b w hj (by omega)

/-- The other words stay. -/
theorem word_setWord_ne (b : Fin n → UInt8) {i j : Nat} (w : Nat) (h : j ≠ i) :
    word (setWord b i w) j = word b j :=
  word_congr fun k hk => byteAt_setWord_ne b w (by omega)

end Xv6Paging.Lib
