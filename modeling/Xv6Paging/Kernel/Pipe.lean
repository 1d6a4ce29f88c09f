import Xv6Paging.Kernel.Riscv

/-!
# Pipes

`pipe.c`, with the processes that are in `pipewrite` and `piperead`. A round of a
loop is one step, and so is going to sleep and waking up; all of them need
`pi->lock`. What the environment decides is part of the step: whether the process
has been killed, and whether `copyin` and `copyout` succeed.

The bytes written and the bytes handed to readers are recorded beside the pipe.
-/

namespace Xv6Paging

/-- `PIPESIZE`. -/
abbrev pipeSize : Nat := 512

instance : NeZero pipeSize := ⟨by decide⟩

/-- `struct pipe`. -/
structure Pipe where
  data : Fin pipeSize → UInt8
  nread : Nat
  nwrite : Nat
  readopen : Bool
  writeopen : Bool

/-- `nwrite == nread + PIPESIZE`, in `uint`. -/
def Pipe.full (pi : Pipe) : Bool := pi.nwrite == toUint (pi.nread + pipeSize)

/-- `nread == nwrite`. -/
def Pipe.empty (pi : Pipe) : Bool := pi.nread == pi.nwrite

/-- `pi->data[pi->nwrite++ % PIPESIZE] = ch`. -/
def Pipe.put (pi : Pipe) (ch : UInt8) : Pipe :=
  { pi with
    data := Function.update pi.data (Fin.ofNat pipeSize pi.nwrite) ch
    nwrite := toUint (pi.nwrite + 1) }

/-- `pi->data[pi->nread % PIPESIZE]`. -/
def Pipe.next (pi : Pipe) : UInt8 := pi.data (Fin.ofNat pipeSize pi.nread)

/-- `pi->nread++`. -/
def Pipe.take (pi : Pipe) : Pipe := { pi with nread := toUint (pi.nread + 1) }

/-- Where a process is in its call; `i` is the loop variable. -/
inductive PipeCall where
  | idle
  /-- In the loop of `pipewrite`. -/
  | writing (i : Nat) (n : Int)
  | writeAsleep (i : Nat) (n : Int)
  /-- In the loop of `piperead` that waits for data. -/
  | reading (n : Int)
  | readAsleep (n : Int)
  /-- In the loop of `piperead` that copies it. -/
  | copying (i : Nat) (n : Int)
  deriving DecidableEq, Repr

/-- A pipe, its lock, the calls in progress, and the bytes that went in and out. -/
structure PipeSys (P : Type) where
  pipe : Pipe
  lock : Option P
  call : P → PipeCall
  accepted : List UInt8
  delivered : List UInt8

/-- The steps. -/
inductive PipeAct (P : Type) where
  | pipewrite (p : P) (n : Int)
  | piperead (p : P) (n : Int)
  /-- A round of `pipewrite`; `ch` is what `copyin` fetched, if it did. -/
  | writeRound (p : P) (killed : Bool) (ch : Option UInt8)
  | writeWake (p : P)
  | readRound (p : P) (killed : Bool)
  | readWake (p : P)
  /-- A round of `piperead`; `ok` is whether `copyout` succeeded. -/
  | copyRound (p : P) (ok : Bool)
  | pipeclose (writable : Bool)

namespace PipeSys

variable {P : Type} [DecidableEq P] (s : PipeSys P)

/-- `acquire(&pi->lock)`, going on at `c`. -/
def enter (p : P) (c : PipeCall) : Option (PipeSys P) :=
  if s.lock = none then some { s with lock := some p, call := Function.update s.call p c } else none

/-- `release(&pi->lock)`, going on at `c`. -/
def leave (p : P) (c : PipeCall) : PipeSys P :=
  { s with lock := none, call := Function.update s.call p c }

/-- A round of the loop of `pipewrite`. -/
def writeRound (p : P) (i : Nat) (n : Int) (killed : Bool) (ch : Option UInt8) : PipeSys P :=
  if (i : Int) < n then
    if !s.pipe.readopen || killed then s.leave p .idle
    else if s.pipe.full then s.leave p (.writeAsleep i n)
    else
      match ch with
      | none => s.leave p .idle
      | some ch =>
        { s with
          pipe := s.pipe.put ch
          call := Function.update s.call p (.writing (i + 1) n)
          accepted := s.accepted ++ [ch] }
  else s.leave p .idle

/-- A round of the first loop of `piperead`. -/
def readRound (p : P) (n : Int) (killed : Bool) : PipeSys P :=
  if s.pipe.empty && s.pipe.writeopen then
    if killed then s.leave p .idle else s.leave p (.readAsleep n)
  else { s with call := Function.update s.call p (.copying 0 n) }

/-- A round of the second loop of `piperead`. -/
def copyRound (p : P) (i : Nat) (n : Int) (ok : Bool) : PipeSys P :=
  if (i : Int) < n then
    if s.pipe.empty then s.leave p .idle
    else if !ok then s.leave p .idle
    else
      { s with
        pipe := s.pipe.take
        call := Function.update s.call p (.copying (i + 1) n)
        delivered := s.delivered ++ [s.pipe.next] }
  else s.leave p .idle

/-- One step; nothing if the process is not at that point or has to wait for the lock. -/
def step : PipeAct P → Option (PipeSys P)
  | .pipewrite p n => if s.call p = .idle then s.enter p (.writing 0 n) else none
  | .piperead p n => if s.call p = .idle then s.enter p (.reading n) else none
  | .writeRound p killed ch =>
    match s.call p with
    | .writing i n => if s.lock = some p then some (s.writeRound p i n killed ch) else none
    | _ => none
  | .writeWake p =>
    match s.call p with
    | .writeAsleep i n => s.enter p (.writing i n)
    | _ => none
  | .readRound p killed =>
    match s.call p with
    | .reading n => if s.lock = some p then some (s.readRound p n killed) else none
    | _ => none
  | .readWake p =>
    match s.call p with
    | .readAsleep n => s.enter p (.reading n)
    | _ => none
  | .copyRound p ok =>
    match s.call p with
    | .copying i n => if s.lock = some p then some (s.copyRound p i n ok) else none
    | _ => none
  | .pipeclose writable =>
    if s.lock = none then
      some { s with pipe :=
        if writable then { s.pipe with writeopen := false } else { s.pipe with readopen := false } }
    else none

end PipeSys

/-- `pipealloc`, in a page of any content. -/
def Pipe.alloc (data : Fin pipeSize → UInt8) : Pipe := ⟨data, 0, 0, true, true⟩

end Xv6Paging
