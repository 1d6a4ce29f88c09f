import Xv6Paging.Kernel.Riscv
import Xv6Paging.Lib.Machine

/-!
# The process table

The part of `proc.c` that creates, ends and collects processes: `kfork`, `kexit`,
`reparent`, `kwait`, `sleep`, `wakeup`, `kkill` and the scheduler, over the fields of
`struct proc` they share. A section that runs under `wait_lock` is one step, and so is
one that runs under a `p->lock` alone; a process can be anywhere between two of its
sections, and `ProcEntry.pc` says where.

What happens inside a section and depends on the rest of the kernel is decided by the
step: whether memory lasts for a new process, whether `copyout` takes the exit status.
Beside the table stand the processes that were ever created, by serial number, with who
forked, reparented and collected them. Pids will not do for that, because they wrap.
-/

namespace Xv6Paging

/-- `NPROC`. -/
abbrev nproc : Nat := 64

instance : NeZero nproc := ⟨by decide⟩

/-- `enum procstate`. -/
inductive ProcState where
  | unused | used | sleeping | runnable | running | zombie
  deriving DecidableEq, Repr

/-- What `sleep` and `wakeup` name: a process, or the address of something else. -/
inductive Chan where
  | proc (p : Fin nproc)
  | other (addr : Nat)
  deriving DecidableEq, Repr

/-- Where a process is between two sections. -/
inductive Pc where
  | outside
  /-- In `kfork`, about to become the parent of `np`. -/
  | forked (np : Fin nproc)
  /-- In `kfork`, about to make `np` runnable. -/
  | adopted (np : Fin nproc)
  /-- In the loop of `kwait`. -/
  | waiting
  deriving DecidableEq, Repr

/-- `struct proc`. -/
structure ProcEntry where
  state : ProcState
  chan : Option Chan
  killed : Bool
  xstate : Int
  pid : Nat
  parent : Option (Fin nproc)
  pc : Pc
  serial : Nat
  deriving DecidableEq, Repr

/-- `proc[NPROC]`. -/
abbrev ProcTable : Type := Fin nproc → ProcEntry

/-- `initproc`: `userinit` is the first to allocate. -/
abbrev initproc : Fin nproc := 0

namespace ProcTable

/-- Replace one entry. -/
def set (t : ProcTable) (p : Fin nproc) (e : ProcEntry) : ProcTable :=
  fun q => if q = p then e else t q

/-- `wakeup`, called by `me`. -/
def wakeup (me : Fin nproc) (chan : Chan) (t : ProcTable) : ProcTable := fun p =>
  if p ≠ me ∧ (t p).state = .sleeping ∧ (t p).chan = some chan then
    { t p with state := .runnable }
  else t p

/-- One round of the loop of `reparent`. -/
def reparentOne (p : Fin nproc) (t : ProcTable) (pp : Fin nproc) : ProcTable :=
  if (t pp).parent = some p then
    wakeup p (.proc initproc) (t.set pp { t pp with parent := some initproc })
  else t

/-- `reparent`. -/
def reparent (t : ProcTable) (p : Fin nproc) : ProcTable :=
  (List.finRange nproc).foldl (reparentOne p) t

/-- `wakeup(p->parent)`. Nobody sleeps on address 0. -/
def wakeParent (t : ProcTable) (p : Fin nproc) : ProcTable :=
  match (t p).parent with
  | some q => wakeup p (.proc q) t
  | none => t

/-- The section of `kexit` under `wait_lock`. -/
def kexit (t : ProcTable) (p : Fin nproc) (status : Int) : ProcTable :=
  let t := (t.reparent p).wakeParent p
  t.set p { t p with xstate := status, state := .zombie }

/-- The entry of a process that is freed. -/
def freed (e : ProcEntry) : ProcEntry :=
  { e with
    pid := 0, parent := none, chan := none, killed := false, xstate := 0, state := .unused
    pc := .outside }

/-- `freeproc`, but for the memory. -/
def freeproc (t : ProcTable) (p : Fin nproc) : ProcTable := t.set p (freed (t p))

/-- The child that the scan in `kwait` stops at. -/
def exitedChild (t : ProcTable) (p : Fin nproc) : Option (Fin nproc) :=
  (List.finRange nproc).find? fun pp => (t pp).parent == some p && (t pp).state == .zombie

/-- `havekids`. -/
def havekids (t : ProcTable) (p : Fin nproc) : Bool :=
  (List.finRange nproc).any fun pp => (t pp).parent == some p

/-- After `procinit` and `userinit`. -/
def start : ProcTable := fun p =>
  { state := if p = initproc then .runnable else .unused
    chan := none, killed := false, xstate := 0
    pid := if p = initproc then 1 else 0
    parent := none, pc := .outside, serial := 0 }

end ProcTable

/-- The table and its history. -/
structure ProcSys where
  proc : ProcTable
  nextpid : Nat
  /-- How many processes were created. -/
  births : Nat
  /-- Parent and child. -/
  forked : List (Nat × Nat)
  reparented : List Nat
  exited : List Nat
  /-- Who collected whom. -/
  reaped : List (Nat × Nat)

/-- The sections. -/
inductive ProcAct where
  | schedule (p : Fin nproc)
  | yield (p : Fin nproc)
  /-- `sleep` anywhere but in `kwait`. -/
  | sleep (p : Fin nproc) (addr : Nat)
  /-- What `wakeup` on such an address does to one process. -/
  | wakeup (p : Fin nproc) (addr : Nat)
  /-- `kfork` up to the release of `np->lock`; `memory` is whether all allocations succeed. -/
  | fork (p np : Fin nproc) (memory : Bool)
  | adopt (p : Fin nproc)
  | launch (p : Fin nproc)
  | kexit (p : Fin nproc) (status : Int)
  /-- One turn of the loop of `kwait`, up to its return or to `sleep`. -/
  | kwait (p : Fin nproc) (copied : Bool)
  /-- What `kkill` does when it gets to the process. -/
  | kkill (pid : Nat) (p : Fin nproc)
  | setkilled (p : Fin nproc)

namespace ProcSys

/-- After `userinit`. -/
def start : ProcSys :=
  { proc := ProcTable.start, nextpid := 2, births := 1, forked := [], reparented := [], exited := []
    reaped := [] }

/-- Change the table only. -/
def setEntry (s : ProcSys) (p : Fin nproc) (e : ProcEntry) : ProcSys :=
  { s with proc := s.proc.set p e }

/-- `kfork` under `np->lock`. -/
def fork (s : ProcSys) (p np : Fin nproc) (memory : Bool) : ProcSys :=
  let s' := { s with nextpid := (s.nextpid + 1) % 2 ^ 32 }
  if memory then
    let t := s.proc.set np
      { s.proc np with state := .used, pid := s.nextpid, pc := .outside, serial := s.births }
    { s' with proc := t.set p { t p with pc := .forked np }, births := s.births + 1 }
  else { s' with proc := s.proc.freeproc np }

/-- One turn of the loop of `kwait`. -/
def kwait (s : ProcSys) (p : Fin nproc) (copied : Bool) : ProcSys :=
  let e := s.proc p
  match s.proc.exitedChild p with
  | some pp =>
    if copied then
      { s with
        proc := (s.proc.freeproc pp).set p { e with pc := .outside }
        reaped := (e.serial, (s.proc pp).serial) :: s.reaped }
    else s.setEntry p { e with pc := .outside }
  | none =>
    if !s.proc.havekids p || e.killed then s.setEntry p { e with pc := .outside }
    else s.setEntry p { e with pc := .waiting, chan := some (.proc p), state := .sleeping }

/-- One step; `none` where it is not the process's turn to take it. -/
def step (s : ProcSys) : ProcAct → Option ProcSys
  | .schedule p =>
    if (s.proc p).state = .runnable then
      some (s.setEntry p { s.proc p with state := .running, chan := none })
    else none
  | .yield p =>
    if (s.proc p).state = .running then some (s.setEntry p { s.proc p with state := .runnable })
    else none
  | .sleep p addr =>
    if (s.proc p).state = .running then
      some (s.setEntry p { s.proc p with state := .sleeping, chan := some (.other addr) })
    else none
  | .wakeup p addr =>
    if (s.proc p).state = .sleeping ∧ (s.proc p).chan = some (.other addr) then
      some (s.setEntry p { s.proc p with state := .runnable })
    else none
  | .fork p np memory =>
    if (s.proc p).state = .running ∧ (s.proc p).pc = .outside ∧ (s.proc np).state = .unused then
      some (s.fork p np memory)
    else none
  | .adopt p =>
    match (s.proc p).state, (s.proc p).pc with
    | .running, .forked np =>
      let t := s.proc.set np { s.proc np with parent := some p }
      some { s with
        proc := t.set p { t p with pc := .adopted np }
        forked := ((s.proc p).serial, (s.proc np).serial) :: s.forked }
    | _, _ => none
  | .launch p =>
    match (s.proc p).state, (s.proc p).pc with
    | .running, .adopted np =>
      let t := s.proc.set np { s.proc np with state := .runnable }
      some { s with proc := t.set p { t p with pc := .outside } }
    | _, _ => none
  | .kexit p status =>
    if (s.proc p).state = .running ∧ (s.proc p).pc = .outside ∧ p ≠ initproc then
      some { s with
        proc := s.proc.kexit p status
        reparented := ((List.finRange nproc).filter fun c => (s.proc c).parent == some p).map
          (fun c => (s.proc c).serial) ++ s.reparented
        exited := (s.proc p).serial :: s.exited }
    else none
  | .kwait p copied =>
    if (s.proc p).state = .running ∧ ((s.proc p).pc = .outside ∨ (s.proc p).pc = .waiting) then
      some (s.kwait p copied)
    else none
  | .kkill pid p =>
    if (s.proc p).pid = pid then
      some (s.setEntry p { s.proc p with
        killed := true
        state := if (s.proc p).state = .sleeping then .runnable else (s.proc p).state })
    else none
  | .setkilled p => some (s.setEntry p { s.proc p with killed := true })

end ProcSys

end Xv6Paging
