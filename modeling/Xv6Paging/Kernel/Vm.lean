import Xv6Paging.Kernel.Trap

/-!
# Faults taken by the kernel, and the copy routines

`vmfault` is what `copyin`, `copyout` and `copyinstr` call when a user page they
need is not mapped. It classifies the page address, where `usertrap` classifies
the faulting address, and it keeps no record of the page it maps.
-/

namespace Xv6Paging

/-- Map a filled frame for `vmfault` and return it. -/
def finishVmfault (k : Kernel) (va f : Nat) (mem : Page) (perm : Perm) :
    Except Halt (Option Nat × Kernel) := do
  let (ok, k) ← mapUser { k with kmem := k.kmem.setRam f mem } va f perm
  .ok (if ok then some f else none, k)

/-- `vmfault(p->pagetable, va, read)`: the frame it mapped, or `none` for 0. -/
def vmfault (k : Kernel) (va : Nat) : Except Halt (Option Nat × Kernel) :=
  let va := pgRoundDown va
  let p := k.p
  if p.inGuard va then .ok (none, k)
  else if maxVA ≤ va then .error (.panic .walk)
  else if ismapped p.pagetable va then .ok (none, k)
  else
    let inHeap := p.underBrk va && !p.inGuard va && !p.inStack va && !p.inText va && !p.inData va
    if p.inText va || p.inData va then
      match tryKallocOrReplace k with
      | (none, k) => .ok (none, k)
      | (some f, k) =>
        match k.p.slicePage va with
        | none => .ok (none, { k with kmem := kfree k.kmem f })
        | some mem => finishVmfault k va f mem (if p.inText va then permURX else permURW)
    else if p.inStack va || inHeap then
      match tryKallocOrReplace k with
      | (none, k) => .ok (none, k)
      | (some f, k) => finishVmfault k va f zeroPage permURW
    else .ok (none, k)

/-- The frame behind a user page: `walkaddr`, and `vmfault` if that finds nothing. -/
def userFrame (k : Kernel) (va0 : Nat) : Except Halt (Option Nat × Kernel) :=
  if maxVA ≤ va0 then .ok (none, k)
  else
    match walkaddr k.p.pagetable va0 with
    | some f => .ok (some f, k)
    | none => vmfault k va0

/--
The loop of `copyout` over a state `σ`. `find` returns the frame to store into, or
`none` where `copyout` returns -1; `store` writes into it.
-/
def copyoutLoop {σ : Type} (find : σ → Nat → Except Halt (Option Nat × σ))
    (store : σ → Nat → Nat → List UInt8 → σ) :
    Nat → σ → Nat → List UInt8 → Except Halt (Bool × σ)
  | 0, s, _, src => .ok (src.isEmpty, s)
  | fuel + 1, s, dstva, src =>
    if src.isEmpty then .ok (true, s)
    else do
      let va0 := pgRoundDown dstva
      let (r, s) ← find s va0
      match r with
      | none => .ok (false, s)
      | some f =>
        let n := min (4096 - (dstva - va0)) src.length
        copyoutLoop find store fuel (store s f (dstva - va0) (src.take n)) (va0 + 4096) (src.drop n)

/-- Store bytes into a frame. -/
def Kmem.store (km : Kmem) (f ofs : Nat) (src : List UInt8) : Kmem :=
  km.setRam f (Page.write (km.ram f) ofs src)

/-- The page `copyout` may store into: mapped or mappable, and writable. -/
def copyoutFrame (k : Kernel) (va0 : Nat) : Except Halt (Option Nat × Kernel) := do
  let (r, k) ← userFrame k va0
  match r with
  | none => .ok (none, k)
  | some f => .ok (if (k.p.pagetable.pte va0).perm.w then some f else none, k)

/-- What `copyout` does with a page it may store into. -/
def storeInto (k : Kernel) (f ofs : Nat) (bytes : List UInt8) : Kernel :=
  { k with kmem := k.kmem.store f ofs bytes }

/-- `copyout(p->pagetable, dstva, src, len)`; the Boolean is whether it returned 0. -/
def copyout (k : Kernel) (dstva : Nat) (src : List UInt8) : Except Halt (Bool × Kernel) :=
  copyoutLoop copyoutFrame storeInto src.length k dstva src

/-- `n` bytes of a page from an offset on. -/
def Page.read (pg : Page) (ofs n : Nat) : List UInt8 :=
  (List.range n).map fun i => pg (pgOff (ofs + i))

/-- The loop of `copyin`: the bytes copied so far, and whether all of them were. -/
def copyinLoop : Nat → Kernel → Nat → Nat → List UInt8 → Except Halt (Bool × List UInt8 × Kernel)
  | 0, k, _, len, dst => .ok (decide (len = 0), dst, k)
  | fuel + 1, k, srcva, len, dst =>
    if len = 0 then .ok (true, dst, k)
    else do
      let va0 := pgRoundDown srcva
      let (r, k) ← userFrame k va0
      match r with
      | none => .ok (false, dst, k)
      | some f =>
        let n := min (4096 - (srcva - va0)) len
        copyinLoop fuel k (va0 + 4096) (len - n) (dst ++ (k.kmem.ram f).read (srcva - va0) n)

/-- `copyin(p->pagetable, dst, srcva, len)`. -/
def copyin (k : Kernel) (srcva len : Nat) : Except Halt (Bool × List UInt8 × Kernel) :=
  copyinLoop len k srcva len []

/-- The loop of `copyinstr`: bytes up to and including the first NUL, at most `max`. -/
def copyinstrLoop :
    Nat → Kernel → Nat → Nat → List UInt8 → Except Halt (Bool × List UInt8 × Kernel)
  | 0, k, _, _, dst => .ok (false, dst, k)
  | fuel + 1, k, srcva, max, dst =>
    if max = 0 then .ok (false, dst, k)
    else do
      let va0 := pgRoundDown srcva
      let (r, k) ← userFrame k va0
      match r with
      | none => .ok (false, dst, k)
      | some f =>
        let n := min (4096 - (srcva - va0)) max
        let chunk := (k.kmem.ram f).read (srcva - va0) n
        let str := chunk.takeWhile (· ≠ 0)
        if str.length < n then .ok (true, dst ++ str ++ [0], k)
        else copyinstrLoop fuel k (va0 + 4096) (max - n) (dst ++ chunk)

/-- `copyinstr(p->pagetable, dst, srcva, max)`. -/
def copyinstr (k : Kernel) (srcva max : Nat) : Except Halt (Bool × List UInt8 × Kernel) :=
  copyinstrLoop max k srcva max []

end Xv6Paging
