import Xv6Paging.Kernel.Vm

/-!
# Growing, creating and copying processes

`growproc` and `sys_sbrk`, `allocproc`, and `kfork`. A child starts with empty
bookkeeping of its own and a copy of every page its parent has mapped.
-/

namespace Xv6Paging

/-- `argint`: a register read as a 32-bit `int`. -/
def argint (r : Int) : Int := Int.bmod r (2 ^ 32)

/-- `sz + n` in `uint64`, for an `int` `n`. -/
def addInt64 (sz : Nat) (n : Int) : Nat := ((sz + n) % 2 ^ 64).toNat

/-- `growproc`; the Boolean is whether it returned 0. -/
def growproc (k : Kernel) (n : Int) : Except Halt (Bool × Kernel) :=
  let sz := k.p.sz
  if 0 < n then
    if trapframeVA < addInt64 sz n then .ok (false, k)
    else do
      let (sz', km, pt) ← uvmalloc k.kmem k.p.pagetable sz (addInt64 sz n)
      let k := { k with kmem := km, p := { k.p with pagetable := pt } }
      .ok (if sz' = 0 then (false, k) else (true, { k with p := { k.p with sz := sz' } }))
  else if n < 0 then do
    let (sz', km, pt) ← uvmdealloc k.kmem k.p.pagetable sz (addInt64 sz n)
    .ok (true, { k with kmem := km, p := { k.p with pagetable := pt, sz := sz' } })
  else .ok (true, k)

/-- `SBRK_EAGER`. -/
def sbrkEager : Int := 1

/-- `sys_sbrk` with the two argument registers; `none` is -1. -/
def sysSbrk (k : Kernel) (a0 a1 : Int) : Except Halt (Option Nat × Kernel) :=
  let n := argint a0
  let t := argint a1
  let addr := k.p.sz
  if t = sbrkEager ∨ n < 0 then do
    let (ok, k) ← growproc k n
    .ok (if ok then some addr else none, k)
  else if addInt64 addr n < addr then .ok (none, k)
  else if trapframeVA < addInt64 addr n then .ok (none, k)
  else .ok (some addr, { k with p := { k.p with sz := addInt64 addr n } })

/-- The bookkeeping fields as `allocproc` leaves them. -/
def freshProc (pid trapframe : Nat) (pt : PageTable) : Proc where
  pid := pid
  killed := false
  sz := 0
  pagetable := pt
  trapframe := trapframe
  regs := ⟨0, 0, 0⟩
  name := []
  swapfile := none
  swapTable := fun _ => ⟨0, -1, false⟩
  numSwappedPages := 0
  memstat := ⟨0, 0, fun _ => ⟨0, .unmapped, false, 0, -1⟩⟩
  textStart := 0
  textEnd := 0
  dataStart := 0
  dataEnd := 0
  stackTop := 0
  execIp := none
  textOff := 0
  textFilesz := 0
  dataOff := 0
  dataFilesz := 0
  pagefaultCount := 0
  residentPages := 0
  swappedPages := 0
  swapinCount := 0
  swapoutCount := 0

/-- `allocproc`, once it has found an `UNUSED` slot. -/
def allocproc (km : Kmem) (pid : Nat) : Except Halt (Option Proc × Kmem) :=
  match kalloc km with
  | (none, km) => .ok (none, km)
  | (some tf, km) => do
    let (pt, km) ← procPagetable km tf
    match pt with
    | none => .ok (none, kfree km tf)
    | some pt => .ok (some (freshProc pid tf pt), km)

/-- What `kfork` copies into the child after `uvmcopy`. -/
def Proc.inherit (np p : Proc) : Proc :=
  { np with
    sz := p.sz
    regs := p.regs
    name := p.name
    textStart := p.textStart
    textEnd := p.textEnd
    dataStart := p.dataStart
    dataEnd := p.dataEnd
    stackTop := p.stackTop
    textOff := p.textOff
    textFilesz := p.textFilesz
    dataOff := p.dataOff
    dataFilesz := p.dataFilesz
    execIp := p.execIp }

/--
`kfork`. `slot` is whether the process table has an `UNUSED` entry. Returns the
child, if there is one, and the parent's kernel.
-/
def kfork (k : Kernel) (slot : Bool) : Except Halt (Option Proc × Kernel) :=
  if !slot then .ok (none, k)
  else do
    let pid := k.nextpid
    let (np, km) ← allocproc k.kmem pid
    let k := { k with kmem := km, nextpid := pid + 1 }
    match np with
    | none => .ok (none, k)
    | some np => do
      let (ok, km, new) ← uvmcopy k.kmem k.p.pagetable np.pagetable k.p.sz
      if ok then
        .ok (some ({ np with pagetable := new }.inherit k.p), { k with kmem := km })
      else
        -- freeproc(np): the child's sz is still 0
        let km ← procFreepagetable (kfree km np.trapframe) new np.sz
        .ok (none, { k with kmem := km })

end Xv6Paging
