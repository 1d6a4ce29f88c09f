import Xv6Paging.Kernel.Kalloc

/-!
# User page tables

A `pagetable_t` is the tree `walk` descends: a root page of 512 slots, each empty
or pointing at a second page of 512 slots, each empty or pointing at a page of 512
leaf entries. Every table page remembers the frame it occupies, so that the code
which frees a tree knows what to give back.

The functions are those of `vm.c`, in its order: `walk` and `walkaddr`,
`mappages`, `uvmunmap`, `uvmalloc`, `uvmdealloc`, `freewalk`, `uvmfree`,
`uvmcopy`, `uvmclear`, and from `proc.c` `proc_pagetable` and
`proc_freepagetable`.
-/

namespace Xv6Paging

/-- A level-0 table page: 512 leaf entries. -/
structure Table0 where
  frame : Nat
  pte : Fin 512 → Pte

/-- A level-1 table page. -/
structure Table1 where
  frame : Nat
  next : Fin 512 → Option Table0

/-- A level-2 table page, the root of a user page table. -/
structure PageTable where
  frame : Nat
  next : Fin 512 → Option Table1

/-- A zero-filled level-0 page. -/
def Table0.empty (f : Nat) : Table0 := ⟨f, fun _ => Pte.zero⟩

/-- A zero-filled level-1 page. -/
def Table1.empty (f : Nat) : Table1 := ⟨f, fun _ => none⟩

/-- A zero-filled root page. -/
def PageTable.empty (f : Nat) : PageTable := ⟨f, fun _ => none⟩

/-- The level-0 page `walk` reaches for `va`, if the way there exists. -/
def PageTable.table0 (pt : PageTable) (va : Nat) : Option Table0 :=
  (pt.next (px 2 va)).bind fun t1 => t1.next (px 1 va)

/-- `*walk(pagetable, va, 0)`, an absent entry read as `0`. -/
def PageTable.pte (pt : PageTable) (va : Nat) : Pte :=
  match pt.table0 va with
  | none => Pte.zero
  | some t0 => t0.pte (px 0 va)

/-- `*pte = e` through the pointer `walk` returned; nothing where it returned 0. -/
def PageTable.set (pt : PageTable) (va : Nat) (e : Pte) : PageTable :=
  match pt.next (px 2 va) with
  | none => pt
  | some t1 =>
    match t1.next (px 1 va) with
    | none => pt
    | some t0 =>
      let t0' := { t0 with pte := Function.update t0.pte (px 0 va) e }
      let t1' := { t1 with next := Function.update t1.next (px 1 va) (some t0') }
      { pt with next := Function.update pt.next (px 2 va) (some t1') }

/-- Hang a fresh level-1 page below the root if `va` has none. -/
def walkLevel2 (km : Kmem) (pt : PageTable) (va : Nat) : Bool × Kmem × PageTable :=
  match pt.next (px 2 va) with
  | some _ => (true, km, pt)
  | none =>
    match kalloc km with
    | (none, km) => (false, km, pt)
    | (some f, km) =>
      (true, km.setRam f zeroPage,
        { pt with next := Function.update pt.next (px 2 va) (some (Table1.empty f)) })

/-- Hang a fresh level-0 page below the level-1 page of `va` if it has none. -/
def walkLevel1 (km : Kmem) (pt : PageTable) (va : Nat) : Bool × Kmem × PageTable :=
  match pt.next (px 2 va) with
  | none => (false, km, pt)
  | some t1 =>
    match t1.next (px 1 va) with
    | some _ => (true, km, pt)
    | none =>
      match kalloc km with
      | (none, km) => (false, km, pt)
      | (some f, km) =>
        let t1' := { t1 with next := Function.update t1.next (px 1 va) (some (Table0.empty f)) }
        (true, km.setRam f zeroPage,
          { pt with next := Function.update pt.next (px 2 va) (some t1') })

/--
`walk(pagetable, va, 1)` below `MAXVA`: whether it found or made its way to a leaf
slot. A page allocated on the upper level stays when the lower one fails.
-/
def walkAlloc (km : Kmem) (pt : PageTable) (va : Nat) : Bool × Kmem × PageTable :=
  match walkLevel2 km pt va with
  | (false, km, pt) => (false, km, pt)
  | (true, km, pt) => walkLevel1 km pt va

/-- `walkaddr`. -/
def walkaddr (pt : PageTable) (va : Nat) : Option Nat :=
  if maxVA ≤ va then none
  else
    let e := pt.pte va
    if e.v = true ∧ e.perm.u = true then some e.frame else none

/-- `ismapped`. -/
def ismapped (pt : PageTable) (va : Nat) : Bool := (pt.pte va).v

/-- The loop of `mappages` over `n` pages. -/
def mappagesLoop (perm : Perm) :
    Nat → Kmem → PageTable → Nat → Nat → Except Halt (Bool × Kmem × PageTable)
  | 0, km, pt, _, _ => .ok (true, km, pt)
  | n + 1, km, pt, a, f =>
    if maxVA ≤ a then .error (.panic .walk)
    else
      match walkAlloc km pt a with
      | (false, km, pt) => .ok (false, km, pt)
      | (true, km, pt) =>
        if (pt.pte a).v then .error (.panic .remap)
        else mappagesLoop perm n km (pt.set a ⟨true, perm, f⟩) (a + 4096) (f + 1)

/-- `mappages`; the Boolean is whether it returned 0. -/
def mappages (km : Kmem) (pt : PageTable) (va size f : Nat) (perm : Perm) :
    Except Halt (Bool × Kmem × PageTable) :=
  if va % 4096 ≠ 0 then .error (.panic .mapVa)
  else if size % 4096 ≠ 0 then .error (.panic .mapSizeAlign)
  else if size = 0 then .error (.panic .mapSize)
  else mappagesLoop perm (size / 4096) km pt va f

/-- The loop of `uvmunmap`. -/
def uvmunmapLoop (doFree : Bool) :
    Nat → Kmem → PageTable → Nat → Except Halt (Kmem × PageTable)
  | 0, km, pt, _ => .ok (km, pt)
  | n + 1, km, pt, a =>
    if maxVA ≤ a then .error (.panic .walk)
    else
      let e := pt.pte a
      if e.v then
        uvmunmapLoop doFree n (if doFree then kfree km e.frame else km) (pt.set a Pte.zero)
          (a + 4096)
      else uvmunmapLoop doFree n km pt (a + 4096)

/-- `uvmunmap`. -/
def uvmunmap (km : Kmem) (pt : PageTable) (va npages : Nat) (doFree : Bool) :
    Except Halt (Kmem × PageTable) :=
  if va % 4096 ≠ 0 then .error (.panic .unmapAlign)
  else uvmunmapLoop doFree npages km pt va

/-- `uvmdealloc`. -/
def uvmdealloc (km : Kmem) (pt : PageTable) (oldsz newsz : Nat) :
    Except Halt (Nat × Kmem × PageTable) :=
  if oldsz ≤ newsz then .ok (oldsz, km, pt)
  else if pgRoundUp newsz < pgRoundUp oldsz then do
    let npages := (pgRoundUp oldsz - pgRoundUp newsz) / 4096
    let (km, pt) ← uvmunmap km pt (pgRoundUp newsz) npages true
    .ok (newsz, km, pt)
  else .ok (newsz, km, pt)

/-- The loop of `uvmalloc`, over the `n` pages from `a` on; `base` is the rounded `oldsz`. -/
def uvmallocLoop (perm : Perm) (base : Nat) :
    Nat → Kmem → PageTable → Nat → Except Halt (Bool × Kmem × PageTable)
  | 0, km, pt, _ => .ok (true, km, pt)
  | n + 1, km, pt, a =>
    match kalloc km with
    | (none, km) => do
      let (_, km, pt) ← uvmdealloc km pt a base
      .ok (false, km, pt)
    | (some f, km) => do
      let (ok, km, pt) ← mappages (km.setRam f zeroPage) pt a 4096 f perm
      if ok then uvmallocLoop perm base n km pt (a + 4096)
      else
        let (_, km, pt) ← uvmdealloc (kfree km f) pt a base
        .ok (false, km, pt)

/-- `uvmalloc` with `xperm = PTE_W`, as both its callers have it; 0 on error. -/
def uvmalloc (km : Kmem) (pt : PageTable) (oldsz newsz : Nat) :
    Except Halt (Nat × Kmem × PageTable) :=
  if newsz < oldsz then .ok (oldsz, km, pt)
  else do
    let base := pgRoundUp oldsz
    let (ok, km, pt) ← uvmallocLoop permURW base ((newsz - base + 4095) / 4096) km pt base
    .ok (if ok then newsz else 0, km, pt)

/-- `freewalk` on a level-0 page: any valid entry is a leaf nobody unmapped. -/
def freewalk0 (km : Kmem) (t : Table0) : Except Halt Kmem :=
  match Fin.find? (fun i => (t.pte i).v) with
  | some _ => .error (.panic .freewalkLeaf)
  | none => .ok (kfree km t.frame)

/-- `freewalk` on a level-1 page. -/
def freewalk1 (km : Kmem) (t : Table1) : Except Halt Kmem := do
  let km ← (List.finRange 512).foldlM (fun km i =>
    match t.next i with
    | none => .ok km
    | some t0 => freewalk0 km t0) km
  .ok (kfree km t.frame)

/-- `freewalk`. -/
def freewalk (km : Kmem) (pt : PageTable) : Except Halt Kmem := do
  let km ← (List.finRange 512).foldlM (fun km i =>
    match pt.next i with
    | none => .ok km
    | some t1 => freewalk1 km t1) km
  .ok (kfree km pt.frame)

/-- `uvmfree`. -/
def uvmfree (km : Kmem) (pt : PageTable) (sz : Nat) : Except Halt Kmem := do
  let (km, pt) ← if 0 < sz then uvmunmap km pt 0 (pgRoundUp sz / 4096) true else .ok (km, pt)
  freewalk km pt

/-- The frame of the kernel's trampoline code. -/
def trampolineFrame : Nat := 0

/-- `uvmcreate`. -/
def uvmcreate (km : Kmem) : Option PageTable × Kmem :=
  match kalloc km with
  | (none, km) => (none, km)
  | (some f, km) => (some (PageTable.empty f), km.setRam f zeroPage)

/-- `proc_pagetable`: no user memory, but the trampoline and the trapframe. -/
def procPagetable (km : Kmem) (trapframe : Nat) : Except Halt (Option PageTable × Kmem) :=
  match uvmcreate km with
  | (none, km) => .ok (none, km)
  | (some pt, km) => do
    let (ok, km, pt) ← mappages km pt trampolineVA 4096 trampolineFrame ⟨true, false, true, false⟩
    if !ok then
      let km ← uvmfree km pt 0
      .ok (none, km)
    else
      let (ok, km, pt) ← mappages km pt trapframeVA 4096 trapframe ⟨true, true, false, false⟩
      if !ok then
        let (km, pt) ← uvmunmap km pt trampolineVA 1 false
        let km ← uvmfree km pt 0
        .ok (none, km)
      else .ok (some pt, km)

/-- `proc_freepagetable`. -/
def procFreepagetable (km : Kmem) (pt : PageTable) (sz : Nat) : Except Halt Kmem := do
  let (km, pt) ← uvmunmap km pt trampolineVA 1 false
  let (km, pt) ← uvmunmap km pt trapframeVA 1 false
  uvmfree km pt sz

/-- `uvmclear`. -/
def uvmclear (pt : PageTable) (va : Nat) : Except Halt PageTable :=
  if maxVA ≤ va then .error (.panic .walk)
  else
    match pt.table0 va with
    | none => .error (.panic .uvmclear)
    | some _ =>
      let e := pt.pte va
      .ok (pt.set va { e with perm := { e.perm with u := false } })

/-- The loop of `uvmcopy` over `n` pages from `i` on; on failure it unmaps what it copied. -/
def uvmcopyLoop (old : PageTable) :
    Nat → Kmem → PageTable → Nat → Except Halt (Bool × Kmem × PageTable)
  | 0, km, new, _ => .ok (true, km, new)
  | n + 1, km, new, i =>
    if maxVA ≤ i then .error (.panic .walk)
    else
      let e := old.pte i
      if e.v then
        match kalloc km with
        | (none, km) => do
          let (km, new) ← uvmunmap km new 0 (i / 4096) true
          .ok (false, km, new)
        | (some f, km) => do
          let (ok, km, new) ← mappages (km.setRam f (km.ram e.frame)) new i 4096 f e.perm
          if ok then uvmcopyLoop old n km new (i + 4096)
          else
            let (km, new) ← uvmunmap (kfree km f) new 0 (i / 4096) true
            .ok (false, km, new)
      else uvmcopyLoop old n km new (i + 4096)

/-- `uvmcopy`; the Boolean is whether it returned 0. -/
def uvmcopy (km : Kmem) (old new : PageTable) (sz : Nat) : Except Halt (Bool × Kmem × PageTable) :=
  uvmcopyLoop old ((sz + 4095) / 4096) km new 0

end Xv6Paging
