import Xv6Paging.Kernel.PageTable
import Xv6Paging.Kernel.Inode

/-!
# The process and its memory bookkeeping

`struct proc` with the fields demand paging reads and writes, the `memstat` table
of `memstat.h`, and the functions of `vm.c` that maintain it.

A page can be on record in three places that nothing ties together but the code:
the page table, a `memstat` entry, and a swap-table entry. The `va` fields of the
last two are 32 bits wide.
-/

namespace Xv6Paging

/-- `MAX_PAGES_INFO`. -/
abbrev maxPagesInfo : Nat := 128

/-- `MAX_SWAP_PAGES`. -/
abbrev maxSwapPages : Nat := 1024

/-- The `state` of a `memstat` entry. -/
inductive PageState where
  | unmapped
  | resident
  | swapped
  deriving DecidableEq, Repr

/-- `struct page_stat`. -/
structure PageStat where
  va : Nat
  state : PageState
  isDirty : Bool
  seq : Int
  swapSlot : Int
  deriving DecidableEq, Repr

/-- `struct proc_mem_stat`, without the fields nothing reads. -/
structure MemStat where
  numResidentPages : Int
  nextFifoSeq : Int
  pages : Fin maxPagesInfo → PageStat

/-- An entry of `p->swap_table`. -/
structure SwapEntry where
  va : Nat
  slot : Int
  used : Bool
  deriving DecidableEq, Repr

/-- The saved user registers `kexec` sets. -/
structure Trapframe where
  epc : Nat
  sp : Nat
  a1 : Nat
  deriving DecidableEq, Repr

/-- `struct proc`. -/
structure Proc where
  pid : Nat
  killed : Bool
  sz : Nat
  pagetable : PageTable
  /-- The frame of `p->trapframe`, and what it holds. -/
  trapframe : Nat
  regs : Trapframe
  name : List UInt8
  /-- `p->swapfile->ip`. -/
  swapfile : Option Inode
  swapTable : Fin maxSwapPages → SwapEntry
  numSwappedPages : Int
  memstat : MemStat
  textStart : Nat
  textEnd : Nat
  dataStart : Nat
  dataEnd : Nat
  stackTop : Nat
  execIp : Option Inode
  textOff : Nat
  textFilesz : Nat
  dataOff : Nat
  dataFilesz : Nat
  pagefaultCount : Int
  residentPages : Int
  swappedPages : Int
  swapinCount : Int
  swapoutCount : Int

/-- `setkilled`. -/
def Proc.setkilled (p : Proc) : Proc := { p with killed := true }

/-- Change one `memstat` entry. -/
def Proc.setPage (p : Proc) (i : Fin maxPagesInfo) (e : PageStat) : Proc :=
  { p with memstat := { p.memstat with pages := Function.update p.memstat.pages i e } }

/-! ## `memstat` -/

/-- The first entry in use for `va`. -/
def memstatLive (m : MemStat) (va : Nat) : Option (Fin maxPagesInfo) :=
  Fin.find? fun i => (m.pages i).state ≠ .unmapped && (m.pages i).va == toUint va

/-- The first entry whose `va` field matches, whatever its state. -/
def memstatVa (m : MemStat) (va : Nat) : Option (Fin maxPagesInfo) :=
  Fin.find? fun i => (m.pages i).va == va

/-- The first unused entry. -/
def memstatUnused (m : MemStat) : Option (Fin maxPagesInfo) :=
  Fin.find? fun i => (m.pages i).state == .unmapped

/--
`memstat_find_index`: the entry in use for `va`, else the first unused entry, whose
`va` field it claims, else nothing.
-/
def memstatFindIndex (p : Proc) (va : Nat) : Option (Fin maxPagesInfo) × Proc :=
  match memstatLive p.memstat va with
  | some i => (some i, p)
  | none =>
    match memstatUnused p.memstat with
    | some i => (some i, p.setPage i { p.memstat.pages i with va := toUint va })
    | none => (none, p)

/-- `memstat_mark_resident`. -/
def memstatMarkResident (p : Proc) (va : Nat) (seq : Int) : Proc :=
  match memstatFindIndex p va with
  | (none, p) => p
  | (some i, p) =>
    let e := p.memstat.pages i
    let n := p.memstat.numResidentPages
    let p' := p.setPage i
      { e with state := .resident, seq := seq, isDirty := false, swapSlot := -1 }
    { p' with memstat := { p'.memstat with
        numResidentPages := if e.state ≠ .resident then n + 1 else n } }

/-- The decrement both `memstat_mark_unmapped` and `memstat_mark_swapped` make. -/
def residentDown (m : MemStat) (e : PageStat) : Int :=
  if e.state = .resident ∧ 0 < m.numResidentPages then m.numResidentPages - 1
  else m.numResidentPages

/-- The common body of `memstat_mark_unmapped` and `memstat_mark_swapped`. -/
def memstatMark (p : Proc) (va : Nat) (state : PageState) (slot : Int) : Proc :=
  match memstatFindIndex p va with
  | (none, p) => p
  | (some i, p) =>
    let e := p.memstat.pages i
    let p' := p.setPage i { e with state := state, swapSlot := slot }
    { p' with memstat := { p'.memstat with numResidentPages := residentDown p.memstat e } }

/-- `memstat_mark_unmapped`. -/
def memstatMarkUnmapped (p : Proc) (va : Nat) : Proc := memstatMark p va .unmapped (-1)

/-- `memstat_mark_swapped`. -/
def memstatMarkSwapped (p : Proc) (va : Nat) (slot : Int) : Proc := memstatMark p va .swapped slot

/-- Whether some entry is `SWAPPED` with `va` field `v`. -/
def wasSwapped (m : MemStat) (v : Nat) : Bool :=
  (Fin.find? fun i : Fin maxPagesInfo => (m.pages i).state == .swapped &&
    (m.pages i).va == v).isSome

/-- The running minimum of `select_victim_fifo_index`. -/
structure Victim where
  index : Option (Fin maxPagesInfo)
  seq : Int
  va : Nat

/-- One round of the search. -/
def Victim.scan (m : MemStat) (best : Victim) (i : Fin maxPagesInfo) : Victim :=
  let e := m.pages i
  if e.state = .resident ∧
      (best.index = none ∨ e.seq % 2 ^ 32 < best.seq % 2 ^ 32 ∨
        (e.seq % 2 ^ 32 = best.seq % 2 ^ 32 ∧ e.va < best.va)) then
    ⟨some i, e.seq, e.va⟩
  else best

/-- `select_victim_fifo_index`. -/
def selectVictimFifoIndex (m : MemStat) : Option (Fin maxPagesInfo) :=
  ((List.finRange maxPagesInfo).foldl (Victim.scan m) ⟨none, 0, 0⟩).index

end Xv6Paging
