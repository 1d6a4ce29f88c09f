import Mathlib

/-!
# Addresses, pages and page-table entries

What `riscv.h`, `memlayout.h` and `param.h` fix for the rest of the kernel: how an
address splits into a page and an offset, how it splits into the three 9-bit
indices of an Sv39 walk, and what one page-table entry says.

A `uint64` is a `Nat`, reduced modulo `2 ^ 64` exactly where the C can wrap. A
`uint` is a `Nat` reduced modulo `2 ^ 32`. `PGSIZE` is written out as `4096`
wherever it takes part in arithmetic, so that linear arithmetic sees it.
-/

namespace Xv6Paging

/-! ## Machine arithmetic -/

/-- `a + b` in `uint64`. -/
def add64 (a b : Nat) : Nat := (a + b) % 2 ^ 64

/-- `a - b` in `uint64`. -/
def sub64 (a b : Nat) : Nat := (a + 2 ^ 64 - b % 2 ^ 64) % 2 ^ 64

/-- The cast `(uint) a`. -/
def toUint (a : Nat) : Nat := a % 2 ^ 32

/-- `PGROUNDUP`, including its wrap-around in the last page of the address space. -/
def pgRoundUp (sz : Nat) : Nat := add64 sz 4095 / 4096 * 4096

/-- `PGROUNDDOWN`. -/
def pgRoundDown (a : Nat) : Nat := a / 4096 * 4096

/-- `MAXVA`: one beyond the highest virtual address `walk` accepts. -/
def maxVA : Nat := 2 ^ 38

/-- `TRAMPOLINE`. -/
def trampolineVA : Nat := maxVA - 4096

/-- `TRAPFRAME`. -/
def trapframeVA : Nat := trampolineVA - 4096

/-- `MAXARG`. -/
def maxArg : Nat := 32

/-- `USERSTACK`, in pages. -/
def userStack : Nat := 1

/-- `PX(level, va)`: the 9-bit page-table index of `va` at a level. -/
def px (level va : Nat) : Fin 512 := ⟨va / 2 ^ (12 + 9 * level) % 512, Nat.mod_lt _ (by decide)⟩

/-! ## Pages -/

/-- The bytes of one physical page. -/
abbrev Page := Fin 4096 → UInt8

/-- The byte offset of `va` inside its page. -/
def pgOff (va : Nat) : Fin 4096 := ⟨va % 4096, Nat.mod_lt _ (by decide)⟩

/-- `memset(mem, c, PGSIZE)`. -/
def pageOf (c : UInt8) : Page := fun _ => c

/-- `memset(mem, 0, PGSIZE)`. -/
def zeroPage : Page := pageOf 0

/-- `memmove` of `src` into a page, starting at offset `ofs`. -/
def Page.write (pg : Page) (ofs : Nat) (src : List UInt8) : Page := fun i =>
  if ofs ≤ i.val ∧ i.val < ofs + src.length then src.getD (i.val - ofs) 0 else pg i

/-! ## Page-table entries -/

/-- The permission bits `PTE_R`, `PTE_W`, `PTE_X`, `PTE_U`. -/
structure Perm where
  r : Bool
  w : Bool
  x : Bool
  u : Bool
  deriving DecidableEq, Repr

/-- A leaf entry: `PTE_V`, the permission bits, and the frame it points at. -/
structure Pte where
  v : Bool
  perm : Perm
  frame : Nat
  deriving DecidableEq, Repr

/-- The entry `0`. -/
def Pte.zero : Pte := ⟨false, ⟨false, false, false, false⟩, 0⟩

/-- `PTE_U|PTE_R|PTE_W`. -/
def permURW : Perm := ⟨true, true, false, true⟩

/-- `PTE_U|PTE_R|PTE_X`. -/
def permURX : Perm := ⟨true, false, true, true⟩

/-- `PTE_U|PTE_R`. -/
def permUR : Perm := ⟨true, false, false, true⟩

/-- What an instruction wants of an address; the fault causes 13, 15 and 12. -/
inductive Access where
  | read
  | write
  | exec
  deriving DecidableEq, Repr

/-- The hardware's test of a leaf entry in user mode. -/
def Pte.permits (e : Pte) : Access → Bool
  | .read => e.v && e.perm.u && e.perm.r
  | .write => e.v && e.perm.u && e.perm.w
  | .exec => e.v && e.perm.u && e.perm.x

/-! ## Ways a kernel path can fail to return -/

/-- The `panic` calls of the modelled code. -/
inductive Panic where
  | walk
  | mapVa
  | mapSizeAlign
  | mapSize
  | remap
  | unmapAlign
  | freewalkLeaf
  | uvmclear
  deriving DecidableEq, Repr

/-- Why a kernel path does not return to user mode. -/
inductive Halt where
  /-- `panic(msg)`. -/
  | panic (msg : Panic)
  /-- The process sleeps on a lock it already holds. -/
  | hang
  /-- The process has been killed and has gone through `kexit`. -/
  | exited
  deriving DecidableEq, Repr

/-! ## Rounding -/

theorem maxVA_eq : maxVA = 274877906944 := by decide

theorem trapframeVA_eq : trapframeVA = 274877898752 := by decide

theorem pgRoundDown_le (a : Nat) : pgRoundDown a ≤ a := by
  unfold pgRoundDown; omega

theorem pgRoundDown_mod (a : Nat) : pgRoundDown a % 4096 = 0 := by
  unfold pgRoundDown; omega

theorem lt_pgRoundDown_add (a : Nat) : a < pgRoundDown a + 4096 := by
  unfold pgRoundDown; omega

theorem pgRoundDown_div (a : Nat) : pgRoundDown a / 4096 = a / 4096 := by
  unfold pgRoundDown; omega

theorem pgRoundDown_eq_of_mod {a : Nat} (h : a % 4096 = 0) : pgRoundDown a = a := by
  unfold pgRoundDown; omega

theorem pgRoundDown_pgRoundDown (a : Nat) : pgRoundDown (pgRoundDown a) = pgRoundDown a :=
  pgRoundDown_eq_of_mod (pgRoundDown_mod a)

/-- Rounding up without the wrap-around. -/
theorem pgRoundUp_eq {a : Nat} (h : a ≤ trapframeVA) : pgRoundUp a = (a + 4095) / 4096 * 4096 := by
  rw [trapframeVA_eq] at h
  unfold pgRoundUp add64
  omega

theorem pgRoundUp_mod (a : Nat) : pgRoundUp a % 4096 = 0 := by
  unfold pgRoundUp; omega

theorem toUint_lt (a : Nat) : toUint a < 2 ^ 32 := Nat.mod_lt _ (by decide)

theorem toUint_eq {a : Nat} (h : a < 2 ^ 32) : toUint a = a := Nat.mod_eq_of_lt h

theorem toUint_mod {a : Nat} (h : a % 4096 = 0) : toUint a % 4096 = 0 := by
  unfold toUint; omega

/--
**The three indices determine the page.**

`walk` reads 27 bits of the address in three groups of nine. `MAXVA` leaves out the
highest of them, but the table has entries for it.
-/
theorem px_inj {a b : Nat} (ha : a < 2 * maxVA) (hb : b < 2 * maxVA)
    (h2 : px 2 a = px 2 b) (h1 : px 1 a = px 1 b) (h0 : px 0 a = px 0 b) :
    a / 4096 = b / 4096 := by
  have e2 := congrArg Fin.val h2
  have e1 := congrArg Fin.val h1
  have e0 := congrArg Fin.val h0
  simp only [px] at e2 e1 e0
  norm_num at e2 e1 e0
  rw [maxVA_eq] at ha hb
  omega

theorem px_congr {a b : Nat} (level : Nat) (h : a / 4096 = b / 4096) : px level a = px level b := by
  have hpow : (2 : Nat) ^ (12 + 9 * level) = 4096 * 2 ^ (9 * level) := by rw [pow_add]; norm_num
  refine Fin.ext ?_
  show a / 2 ^ (12 + 9 * level) % 512 = b / 2 ^ (12 + 9 * level) % 512
  rw [hpow, ← Nat.div_div_eq_div_mul, ← Nat.div_div_eq_div_mul, h]

end Xv6Paging
