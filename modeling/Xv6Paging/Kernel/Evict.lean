import Xv6Paging.Kernel.Swap

/-!
# Making room

The kernel as one process sees it, and `try_kalloc_or_replace`: take a free frame,
or evict the process's oldest resident page and try again.
-/

namespace Xv6Paging

/-- The allocator, the file system's answers, and the running process. -/
structure Kernel where
  kmem : Kmem
  disk : Disk
  p : Proc
  /-- `nextpid`. -/
  nextpid : Nat

/-- `setkilled(p)`. -/
def Kernel.kill (k : Kernel) : Kernel := { k with p := k.p.setkilled }

/-- `if(p->resident_pages>0) p->resident_pages--`. -/
def Proc.residentPagesDown (p : Proc) : Proc :=
  { p with residentPages := if 0 < p.residentPages then p.residentPages - 1 else p.residentPages }

/-- `*pte = 0; kfree((void*)pa)` for the victim at `va0`. -/
def Kernel.dropFrame (k : Kernel) (va0 : Nat) : Kernel :=
  { k with
    kmem := kfree k.kmem (k.p.pagetable.pte va0).frame
    p := { k.p with pagetable := k.p.pagetable.set va0 Pte.zero } }

/--
The eviction of `memstat` entry `i`; `false` when its page is dirty and could not
be swapped out. The victim's address is read back from the 32-bit field.
-/
def evict (k : Kernel) (i : Fin maxPagesInfo) : Bool × Kernel :=
  let e := k.p.memstat.pages i
  let va0 := pgRoundDown e.va
  let pte := k.p.pagetable.pte va0
  if !pte.v then
    -- inconsistent; mark unmapped and try again after kalloc
    (true, { k with p := memstatMarkUnmapped k.p va0 })
  else if e.isDirty then
    match procSwapoutPage k.disk k.p va0 (k.kmem.ram pte.frame) with
    | (slot, d, p) =>
      let k := { k with disk := d, p := p }
      if slot < 0 then (false, k)
      else
        let p := p.residentPagesDown
        let p := { p with swappedPages := p.swappedPages + 1, swapoutCount := p.swapoutCount + 1 }
        (true, { k with p := memstatMarkSwapped p va0 slot }.dropFrame va0)
  else
    -- clean page, discard
    (true, { k with p := (memstatMarkUnmapped k.p va0).residentPagesDown }.dropFrame va0)

/-- `try_kalloc_or_replace`. -/
def tryKallocOrReplace (k : Kernel) : Option Nat × Kernel :=
  match kalloc k.kmem with
  | (some f, km) => (some f, { k with kmem := km })
  | (none, km) =>
    let k := { k with kmem := km }
    match selectVictimFifoIndex k.p.memstat with
    | none => (none, k.kill)
    | some i =>
      match evict k i with
      | (false, k) => (none, k.kill)
      | (true, k) =>
        match kalloc k.kmem with
        | (r, km) => (r, { k with kmem := km })

end Xv6Paging
