import Xv6Paging.Kernel.Riscv

/-!
# Inodes as byte arrays

What the paging code uses of the file system: `readi` and `writei` into and out of
kernel buffers, on an inode seen as an array of bytes. The array below `size` is
what the blocks of the inode hold.

`writei` needs disk blocks for the part of the file that does not exist yet, and
`bmap` may find none. `full` answers for `bmap`, one question per missing block:
whether the disk is full.
-/

namespace Xv6Paging

/-- `BSIZE`. -/
def bSize : Nat := 1024

/-- `MAXFILE`, in blocks. -/
def maxFile : Nat := 12 + 256

/-- The content of an inode. -/
structure Inode where
  size : Nat
  data : Nat → UInt8

/-- How many bytes `readi(ip, 0, dst, off, n)` copies. -/
def Inode.readable (ip : Inode) (off n : Nat) : Nat :=
  if ip.size < off ∨ toUint (off + n) < off then 0
  else if ip.size < toUint (off + n) then ip.size - off
  else n

/-- `readi` into a kernel buffer of `m` bytes: the count, and the buffer afterwards. -/
def readi {m : Nat} (ip : Inode) (dst : Fin m → UInt8) (off n : Nat) : Nat × (Fin m → UInt8) :=
  let tot := ip.readable off n
  (tot, fun i => if i.val < tot then ip.data (off + i.val) else dst i)

/-- Copy `m` bytes of `src`, from index `tot` on, to the file offsets from `off` on. -/
def Inode.blit (ip : Inode) (src : Nat → UInt8) (tot off m : Nat) : Inode :=
  { ip with data := fun j => if off ≤ j ∧ j < off + m then src (tot + (j - off)) else ip.data j }

/--
The loop of `writei`. Each round writes the part of one block that is asked for;
it stops where `bmap` returns 0. Returns the bytes written and the number of
questions put to `bmap`'s block allocator.
-/
def writeiLoop (full : Nat → Bool) (src : Nat → UInt8) :
    Nat → Nat → Inode → Nat → Nat → Nat → Nat × Inode × Nat
  | 0, asked, ip, tot, _, _ => (tot, ip, asked)
  | fuel + 1, asked, ip, tot, off, n =>
    if n ≤ tot then (tot, ip, asked)
    else
      let present := decide (off / bSize * bSize < ip.size)
      let asked' := if present then asked else asked + 1
      if present || !full asked then
        let m := min (n - tot) (bSize - off % bSize)
        writeiLoop full src fuel asked' (ip.blit src tot off m) (tot + m) (off + m) n
      else (tot, ip, asked')

/-- `writei` from a kernel buffer: the count or `-1`, the inode, the questions asked so far. -/
def writei (full : Nat → Bool) (asked : Nat) (ip : Inode) (src : Nat → UInt8) (off n : Nat) :
    Int × Inode × Nat :=
  if ip.size < off ∨ toUint (off + n) < off then (-1, ip, asked)
  else if maxFile * bSize < toUint (off + n) then (-1, ip, asked)
  else
    match writeiLoop full src n asked ip 0 off n with
    | (tot, ip', asked') => (tot, { ip' with size := max ip.size (off + tot) }, asked')

/-! ## What reading and writing do to the array -/

theorem readable_le (ip : Inode) (off n : Nat) : ip.readable off n ≤ n ∨ n ≥ 2 ^ 32 := by
  unfold Inode.readable toUint
  split
  · exact Or.inl (Nat.zero_le _)
  · split <;> omega

theorem readable_all {ip : Inode} {off n : Nat} (h : off + n ≤ ip.size) (hw : off + n < 2 ^ 32) :
    ip.readable off n = n := by
  have hu : toUint (off + n) = off + n := toUint_eq hw
  unfold Inode.readable
  rw [hu, if_neg (by omega), if_neg (by omega)]

theorem blit_size (ip : Inode) (src : Nat → UInt8) (tot off m : Nat) :
    (ip.blit src tot off m).size = ip.size := rfl

/-- A run of `writei`'s loop writes consecutive source bytes at consecutive offsets. -/
theorem writeiLoop_spec {full : Nat → Bool} {src : Nat → UInt8} {n : Nat} (base : Nat) :
    ∀ (fuel asked : Nat) (ip : Inode) (tot off : Nat) {tot' asked' : Nat} {ip' : Inode},
      writeiLoop full src fuel asked ip tot off n = (tot', ip', asked') → off = base + tot →
      tot ≤ n →
      ip'.size = ip.size ∧ tot ≤ tot' ∧ tot' ≤ n ∧
      (∀ j, ip'.data j = if base + tot ≤ j ∧
        j < base + tot' then src (j - base) else ip.data j) := by
  intro fuel
  induction fuel with
  | zero =>
    intro asked ip tot off tot' asked' ip' h hoff htot
    simp only [writeiLoop, Prod.mk.injEq] at h
    obtain ⟨rfl, rfl, rfl⟩ := h
    refine ⟨rfl, Nat.le_refl _, htot, fun j => ?_⟩
    rw [if_neg (by omega)]
  | succ fuel ih =>
    intro asked ip tot off tot' asked' ip' h hoff htot
    have stop : ip'.size = ip.size → tot' = tot → ip'.data = ip.data →
        ip'.size = ip.size ∧ tot ≤ tot' ∧ tot' ≤ n ∧
        (∀ j, ip'.data j
          = if base + tot ≤ j ∧ j < base + tot' then src (j - base) else ip.data j) := by
      intro hsz ht hd
      refine ⟨hsz, by omega, by omega, fun j => ?_⟩
      rw [if_neg (by omega), hd]
    rw [writeiLoop] at h
    dsimp only at h
    split at h
    · simp only [Prod.mk.injEq] at h
      exact stop (by rw [← h.2.1]) h.1.symm (by rw [← h.2.1])
    · split at h
      · -- one block, then the rest of the loop
        have hm : 0 < bSize - off % bSize := by unfold bSize; omega
        obtain ⟨hsz, hle, hle', hdata⟩ := ih _ _ _ _ h (by omega) (by omega)
        refine ⟨hsz, by omega, hle', fun j => ?_⟩
        rw [hdata j]
        simp only [Inode.blit]
        split
        · rw [if_pos (by omega)]
        · split
          · rw [if_pos (by omega)]
            congr 1
            omega
          · rw [if_neg (by omega)]
      · simp only [Prod.mk.injEq] at h
        exact stop (by rw [← h.2.1]) h.1.symm (by rw [← h.2.1])

/--
**`writei` replaces a prefix of the range it was asked to write**, whatever the
disk did, and leaves the rest of the array alone.
-/
theorem writei_spec {full : Nat → Bool} {asked asked' : Nat} {ip ip' : Inode} {src : Nat → UInt8}
    {off n : Nat} {r : Int} (h : writei full asked ip src off n = (r, ip', asked')) :
    ∃ tot ≤ n, (r = tot ∨ r = -1 ∧ tot = 0) ∧ ip.size ≤ ip'.size ∧
      (r = tot → off + tot ≤ ip'.size) ∧
      ∀ j, ip'.data j = if off ≤ j ∧ j < off + tot then src (j - off) else ip.data j := by
  unfold writei at h
  split at h
  · simp only [Prod.mk.injEq] at h
    obtain ⟨rfl, rfl, _⟩ := h
    exact ⟨0, Nat.zero_le _, Or.inr ⟨rfl, rfl⟩, Nat.le_refl _, by simp,
      fun j => by rw [if_neg (by omega)]⟩
  · split at h
    · simp only [Prod.mk.injEq] at h
      obtain ⟨rfl, rfl, _⟩ := h
      exact ⟨0, Nat.zero_le _, Or.inr ⟨rfl, rfl⟩, Nat.le_refl _, by simp,
        fun j => by rw [if_neg (by omega)]⟩
    · split at h
      rename_i tot ip1 asked1 hloop
      simp only [Prod.mk.injEq] at h
      obtain ⟨rfl, rfl, _⟩ := h
      obtain ⟨_, _, hle, hdata⟩ := writeiLoop_spec off n asked ip 0 off hloop rfl
        (Nat.zero_le _)
      exact ⟨tot, hle, Or.inl rfl, Nat.le_max_left _ _, fun _ => Nat.le_max_right _ _, hdata⟩

end Xv6Paging
