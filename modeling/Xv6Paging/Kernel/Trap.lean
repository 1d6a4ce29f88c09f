import Xv6Paging.Kernel.Evict

/-!
# The page-fault branch of `usertrap`

`trap.c`, lines 77 to 290: classify the faulting address, then either map a page
for it, change the permissions of the page that is there, or kill the process.

The classification looks at the address itself, not at the page it lies in. The
swapped-page test looks at the low 32 bits of the page address, and comes before
every comparison with `p->sz`.
-/

namespace Xv6Paging

/-- The ranges `usertrap` and `vmfault` derive from `p->stack_top`. -/
def Proc.stackEnd (p : Proc) : Nat := pgRoundUp p.stackTop

/-- `stack_end - USERSTACK*PGSIZE`. -/
def Proc.stackBase (p : Proc) : Nat := sub64 p.stackEnd (userStack * 4096)

/-- `stack_end - (USERSTACK+1)*PGSIZE`. -/
def Proc.stackGuard (p : Proc) : Nat := sub64 p.stackEnd ((userStack + 1) * 4096)

/-- The guard page below the stack. -/
def Proc.inGuard (p : Proc) (va : Nat) : Bool := p.stackGuard ≤ va && va < p.stackBase

/-- `under_brk`. -/
def Proc.underBrk (p : Proc) (va : Nat) : Bool := va < p.sz

/-- `[text_start, text_end)`. -/
def Proc.textRange (p : Proc) (va : Nat) : Bool := p.textStart ≤ va && va < p.textEnd

/-- `[data_start, data_end)`. -/
def Proc.dataRange (p : Proc) (va : Nat) : Bool := p.dataStart ≤ va && va < p.dataEnd

/-- `in_text`. -/
def Proc.inText (p : Proc) (va : Nat) : Bool := p.underBrk va && p.textRange va

/-- `in_data`. -/
def Proc.inData (p : Proc) (va : Nat) : Bool := p.underBrk va && p.dataRange va

/-- `in_stack`. -/
def Proc.inStack (p : Proc) (va : Nat) : Bool :=
  p.underBrk va && (p.stackBase ≤ va && va < p.stackEnd)

/-- `in_heap`. -/
def Proc.inHeap (p : Proc) (va : Nat) : Bool :=
  p.underBrk va && !p.inText va && !p.inData va && !p.inStack va && !p.inGuard va

/-- The cause buckets of a valid fault. -/
inductive Cause where
  | swap
  | exec
  | stack
  | heap
  deriving DecidableEq, Repr

/-- The `if`-chain of `usertrap`; `none` is an invalid access. -/
def Proc.cause (p : Proc) (va : Nat) (acc : Access) : Option Cause :=
  if p.inGuard va then none
  else if wasSwapped p.memstat (toUint (pgRoundDown va)) then some .swap
  else if p.inText va || p.inData va then some .exec
  else if p.inStack va && acc ≠ .exec then some .stack
  else if p.inHeap va && acc ≠ .exec then some .heap
  else none

/-- The file offset of page `va0` of a segment, in `uint`. -/
def segOff (start off va0 : Nat) : Nat := toUint (off + sub64 va0 start)

/-- How many file bytes page `va0` of a segment holds. -/
def segFilesz (start filesz va0 : Nat) : Nat :=
  let n := if filesz > sub64 va0 start then filesz - sub64 va0 start else 0
  if n > 4096 then 4096 else n

/-- `off` for the page `va0`: text if the page address is in text, else data. -/
def Proc.sliceOff (p : Proc) (va0 : Nat) : Nat :=
  if p.textRange va0 then segOff p.textStart p.textOff va0 else segOff p.dataStart p.dataOff va0

/-- `filesz` for the page `va0`. -/
def Proc.sliceFilesz (p : Proc) (va0 : Nat) : Nat :=
  if p.textRange va0 then segFilesz p.textStart p.textFilesz va0
  else segFilesz p.dataStart p.dataFilesz va0

/--
The page built for `va0` from the executable: zero-filled, then read from the file.
`none` when `readi` comes up short.
-/
def Proc.slicePage (p : Proc) (va0 : Nat) : Option Page :=
  let filesz := p.sliceFilesz va0
  match p.execIp with
  | none => some zeroPage
  | some ip =>
    if 0 < filesz then
      match readi ip zeroPage (p.sliceOff va0) filesz with
      | (n, mem) => if n ≠ filesz then none else some mem
    else some zeroPage

/-- Set `is_dirty` on an entry, if there is one. -/
def Proc.markDirty (p : Proc) : Option (Fin maxPagesInfo) → Proc
  | none => p
  | some i => p.setPage i { p.memstat.pages i with isDirty := true }

/-- The first `RESIDENT` entry at `v`. -/
def memstatResident (m : MemStat) (v : Nat) : Option (Fin maxPagesInfo) :=
  Fin.find? fun i => (m.pages i).va == v && (m.pages i).state == .resident

/-- `seq = next_fifo_seq++; memstat_mark_resident(p, va0, seq)`. -/
def Proc.recordResident (p : Proc) (va0 : Nat) : Proc :=
  let seq := p.memstat.nextFifoSeq
  memstatMarkResident { p with memstat := { p.memstat with nextFifoSeq := seq + 1 } } va0 seq

/-- The bookkeeping after a heap, stack or swapped page has been mapped. -/
def Proc.recordAnon (p : Proc) (va0 : Nat) (acc : Access) : Proc :=
  let p := p.recordResident va0
  -- if the fault was a write, mark dirty
  let p := if acc = .write then p.markDirty (memstatVa p.memstat (toUint va0)) else p
  { p with residentPages := p.residentPages + 1 }

/-- `mappages` of one page of the process; where that fails, the frame goes back. -/
def mapUser (k : Kernel) (va0 f : Nat) (perm : Perm) : Except Halt (Bool × Kernel) := do
  let (ok, km, pt) ← mappages k.kmem k.p.pagetable va0 4096 f perm
  let k := { k with p := { k.p with pagetable := pt } }
  .ok (ok, { k with kmem := if ok then km else kfree km f })

/-- Map a filled frame for a heap, stack or swapped page, and put it on record. -/
def finishAnon (k : Kernel) (va0 f : Nat) (acc : Access) : Except Halt Kernel := do
  let (ok, k) ← mapUser k va0 f permURW
  .ok (if ok then { k with p := k.p.recordAnon va0 acc } else k.kill)

/-- An unmapped page of the heap, the stack or the swap file is installed. -/
def installAnon (k : Kernel) (va0 : Nat) (acc : Access) (swapped : Bool) : Except Halt Kernel :=
  match tryKallocOrReplace k with
  | (none, k) => .ok k.kill
  | (some f, k) =>
    if swapped then
      match swapinPage k.p va0 (k.kmem.ram f) with
      | (slot, mem, p) =>
        let k := { k with kmem := k.kmem.setRam f mem, p := p }
        if slot < 0 then .ok { k with kmem := kfree k.kmem f }.kill
        else finishAnon k va0 f acc
    else finishAnon { k with kmem := k.kmem.setRam f zeroPage } va0 f acc

/-- The causes "heap", "stack" and "swap". -/
def faultAnon (k : Kernel) (va0 : Nat) (acc : Access) (swapped : Bool) : Except Halt Kernel :=
  if acc = .exec then .ok k.kill
  else if !(k.p.pagetable.pte va0).v then
    if k.p.inGuard va0 then .ok k.kill else installAnon k va0 acc swapped
  else if acc = .write then
    -- write to an already-mapped heap/stack page: mark dirty
    .ok { k with p := k.p.markDirty (memstatResident k.p.memstat (toUint va0)) }
  else .ok k

/-- `*walk(p->pagetable, va0, 0) = e`, when the entry exists. -/
def Kernel.setPerm (k : Kernel) (va0 : Nat) (perm : Perm) : Kernel :=
  let e := k.p.pagetable.pte va0
  { k with p := { k.p with pagetable := k.p.pagetable.set va0 { e with perm := perm } } }

/-- Map a page of the executable that has been read into a frame: text RX; data R initially. -/
def mapExec (k : Kernel) (va0 f : Nat) (mem : Page) : Except Halt Kernel := do
  let perm := if k.p.textRange va0 then permURX else permUR
  let (ok, k) ← mapUser { k with kmem := k.kmem.setRam f mem } va0 f perm
  let p := k.p.recordResident va0
  .ok (if ok then { k with p := { p with residentPages := p.residentPages + 1 } } else k.kill)

/-- The cause "exec" on a page that is not mapped for the user. -/
def installExec (k : Kernel) (va0 : Nat) : Except Halt Kernel :=
  match tryKallocOrReplace k with
  | (none, k) => .ok k.kill
  | (some f, k) =>
    match k.p.slicePage va0 with
    | none => .ok { k with kmem := kfree k.kmem f }.kill
    | some mem => mapExec k va0 f mem

/-- The cause "exec": text and data pages. -/
def faultExec (k : Kernel) (va0 : Nat) (acc : Access) : Except Halt Kernel :=
  let isText := k.p.textRange va0
  if acc = .write ∧ isText = true then .ok k.kill
  else
    match walkaddr k.p.pagetable va0 with
    | none => installExec k va0
    | some _ =>
      let perm := (k.p.pagetable.pte va0).perm
      if acc = .write then
        -- grant write; no reload, just the permission upgrade
        let k := k.setPerm va0 { perm with w := true }
        .ok { k with p := k.p.markDirty (memstatVa k.p.memstat (toUint va0)) }
      else .ok (k.setPerm va0 (if isText then permURX else permUR))

/-- `p->pagefault_count++`. -/
def Kernel.countFault (k : Kernel) : Kernel :=
  { k with p := { k.p with pagefaultCount := k.p.pagefaultCount + 1 } }

/-- What follows the classification; `swapped` is `was_swapped`. -/
def handleFault (k : Kernel) (va0 : Nat) (acc : Access) (swapped : Bool) :
    Option Cause → Except Halt Kernel
  | none => .ok k.kill
  | some c =>
    if maxVA ≤ va0 then .error (.panic .walk)
    else
      match c with
      | .exec => faultExec k va0 acc
      | .swap | .stack | .heap => faultAnon k va0 acc swapped

/-- `usertrap` on a page fault at `va`. -/
def usertrapPageFault (k : Kernel) (va : Nat) (acc : Access) : Except Halt Kernel :=
  handleFault k.countFault (pgRoundDown va) acc
    (wasSwapped k.p.memstat (toUint (pgRoundDown va))) (k.p.cause va acc)

end Xv6Paging
