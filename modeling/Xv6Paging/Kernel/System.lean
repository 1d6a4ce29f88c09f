import Xv6Paging.Lib.Run
import Xv6Paging.Kernel.Exec

/-!
# A process running on the kernel

The inputs of a process: one attempt of a user instruction to touch a byte, and the
system calls that look at or change its memory. A user instruction that faults is
handled and comes back as `Out.fault`; the hardware then retries it, which is
another input. A process that has been killed takes no further step.

`kexec` keeps a reference to the executable and no copy, so between two steps another
process may write to the file or truncate it: that is an input too.

`Reachable` are the states of any process of the system: the first one, as
`userinit` makes it, and whatever steps and forks lead to from there.
-/

namespace Xv6Paging

open Lib

/-- One thing a process does. -/
inductive Op where
  /-- A user load, store (of `b`) or instruction fetch of one byte. -/
  | access (acc : Access) (va : Nat) (b : UInt8)
  | sbrk (n t : Int)
  | copyin (va len : Nat)
  | copyout (va : Nat) (src : List UInt8)
  | copyinstr (va max : Nat)
  | exec (path : List UInt8) (ip : Option Inode) (argv : List (List UInt8))
  /-- `kfork`, going on as the parent or as the child. -/
  | fork (slot asChild : Bool)
  /-- Another process changes the executable, which holds `ip` from now on. -/
  | rewrite (ip : Inode)

/-- What the process sees of it. -/
inductive Out where
  /-- The access faulted and was handled; it has not happened yet. -/
  | fault
  /-- A load or a fetch completed. -/
  | loaded (b : UInt8)
  /-- A store completed. -/
  | stored
  /-- The value a system call returned. -/
  | ret (r : Int)
  /-- What `copyin` or `copyinstr` put into the kernel's buffer, and whether it returned 0. -/
  | copied (ok : Bool) (bytes : List UInt8)
  /-- Another process was at work. -/
  | silent
  deriving DecidableEq, Repr

/-- The leaf entry the hardware finds for `va`. -/
def Kernel.pte (k : Kernel) (va : Nat) : Pte :=
  if va < maxVA then k.p.pagetable.pte va else Pte.zero

/-- The byte of physical memory a mapped `va` names. -/
def Kernel.byte (k : Kernel) (va : Nat) : UInt8 := k.kmem.ram (k.pte va).frame (pgOff va)

/-- The hardware stores `b` at a mapped `va`. -/
def Kernel.storeByte (k : Kernel) (va : Nat) (b : UInt8) : Kernel :=
  let f := (k.pte va).frame
  { k with kmem := k.kmem.setRam f (Function.update (k.kmem.ram f) (pgOff va) b) }

/-- The executable, if there is one, holds `ip`. -/
def Kernel.rewrite (k : Kernel) (ip : Inode) : Kernel :=
  { k with p := { k.p with execIp := k.p.execIp.map fun _ => ip } }

/-- One attempt of a user instruction. -/
def access (k : Kernel) (acc : Access) (va : Nat) (b : UInt8) : Except Halt (Out × Kernel) :=
  if (k.pte va).permits acc then
    match acc with
    | .read | .exec => .ok (.loaded (k.byte va), k)
    | .write => .ok (.stored, k.storeByte va b)
  else do
    let k ← usertrapPageFault k va acc
    .ok (.fault, k)

/-- The return value of `sys_sbrk` and `kfork`. -/
def retOf : Option Nat → Int
  | none => -1
  | some r => r

/-- One step of a process that is not being killed. -/
def act (k : Kernel) : Op → Except Halt (Out × Kernel)
  | .access acc va b => access k acc va b
  | .sbrk n t => do
    let (r, k) ← sysSbrk k n t
    .ok (.ret (retOf r), k)
  | .copyin va len => do
    let (ok, bytes, k) ← copyin k va len
    .ok (.copied ok bytes, k)
  | .copyout va src => do
    let (ok, k) ← copyout k va src
    .ok (.ret (if ok then 0 else -1), k)
  | .copyinstr va max => do
    let (ok, bytes, k) ← copyinstr k va max
    .ok (.copied ok bytes, k)
  | .exec path ip argv => do
    let (argc, k) ← kexec k path ip argv
    .ok (.ret argc, k)
  | .fork slot asChild => do
    let (np, k) ← kfork k slot
    match np with
    | none => .ok (.ret (-1), k)
    | some np => .ok (if asChild then (.ret 0, { k with p := np }) else (.ret np.pid, k))
  | .rewrite ip => .ok (.silent, k.rewrite ip)

/-- One step; a killed process has left through `kexit`. -/
def step (k : Kernel) (op : Op) : Except Halt (Out × Kernel) :=
  if k.p.killed then .error .exited else act k op

/-- `userinit`: the first process, on a machine whose free list is in order. -/
structure Boot (k : Kernel) : Prop where
  made : ∃ km, km.Ok ∧ ¬ km.Free trampolineFrame ∧
    allocproc km k.p.pid = .ok (some k.p, k.kmem)

/-- A state some process can be in, every step on the way meeting `C`. -/
inductive ReachableVia (C : Kernel → Op → Prop) : Kernel → Prop where
  | boot {k : Kernel} : Boot k → ReachableVia C k
  | step {k k' : Kernel} {op : Op} {o : Out} :
      ReachableVia C k → C k op → step k op = .ok (o, k') → ReachableVia C k'

/-- A state some process can be in. -/
def Reachable : Kernel → Prop := ReachableVia fun _ _ => True

end Xv6Paging
