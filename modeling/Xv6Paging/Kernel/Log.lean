import Xv6Paging.Kernel.Inode
import Xv6Paging.Lib.Words

/-!
# The log

`log.c`, in two parts. The first is what it does to the disk: `commit` and
`recover_from_log` as lists of single-block writes, in the order they are issued,
so that a crash is a prefix of the list. The second is the state in memory that
`begin_op`, `log_write` and `end_op` share.

A write is a function of the disk because `install_trans` copies what it reads back
from the log. The buffer cache is between the two: a logged block is pinned in it
and holds what the transaction wrote, and a log block, once written, is the same
in the cache and on the disk.
-/

namespace Xv6Paging

open Lib

/-- `MAXOPBLOCKS`. -/
abbrev maxOpBlocks : Nat := 10

/-- `LOGBLOCKS`. -/
abbrev logBlocks : Nat := maxOpBlocks * 3

/-- A block of `BSIZE` bytes. -/
abbrev Block : Type := Fin 1024 → UInt8

/-- The blocks on the disk. -/
abbrev Blocks : Type := Nat → Block

/-- `struct logheader`. -/
structure LogHeader where
  n : Nat
  block : Nat → Nat

/-! ## On the disk -/

/-- A block write. -/
abbrev BWrite : Type := Blocks → Blocks

/-- `bwrite` of block `b`. -/
def bwrite (b : Nat) (data : Blocks → Block) : BWrite := fun d => Function.update d b (data d)

/-- `read_head`. A negative count is as good as none: every loop runs up to it. -/
def readHead (start : Nat) (d : Blocks) : LogHeader where
  n := if word (d start) 0 < 2 ^ 31 then word (d start) 0 else 0
  block := fun i => word (d start) (i + 1)

/-- What `write_head` makes of the buffer of the header block. -/
def LogHeader.encode (lh : LogHeader) (hb : Block) : Block :=
  (List.range lh.n).foldl (fun hb i => setWord hb (i + 1) (lh.block i)) (setWord hb 0 lh.n)

/-- `write_head`. -/
def writeHead (start : Nat) (lh : LogHeader) : BWrite := bwrite start fun d => lh.encode (d start)

/-- `write_log`: `cache` is what the transaction left in the buffers. -/
def writeLog (start : Nat) (lh : LogHeader) (cache : Blocks) : List BWrite :=
  (List.range lh.n).map fun tail => bwrite (start + tail + 1) fun _ => cache (lh.block tail)

/-- `install_trans`. -/
def installTrans (start : Nat) (lh : LogHeader) : List BWrite :=
  (List.range lh.n).map fun tail => bwrite (lh.block tail) fun d => d (start + tail + 1)

/-- The writes of `commit`. -/
def commitWrites (start : Nat) (lh : LogHeader) (cache : Blocks) : List BWrite :=
  if 0 < lh.n then
    writeLog start lh cache ++ [writeHead start lh] ++ installTrans start lh ++
      [writeHead start { lh with n := 0 }]
  else []

/-- The writes of `recover_from_log`. -/
def recoverWrites (start : Nat) (d : Blocks) : List BWrite :=
  installTrans start (readHead start d) ++ [writeHead start { readHead start d with n := 0 }]

/-- The disk after some writes. -/
def written (ws : List BWrite) (d : Blocks) : Blocks := ws.foldl (fun d w => w d) d

/-- The disk if the machine stops after `k` of the writes. -/
def crashAfter (k : Nat) (ws : List BWrite) (d : Blocks) : Blocks := written (ws.take k) d

/-- `recover_from_log`, run to its end. -/
def recoverFromLog (start : Nat) (d : Blocks) : Blocks := written (recoverWrites start d) d

/-- `recover_from_log`, stopped after `k` writes. -/
def recoverCrash (start : Nat) (d : Blocks) (k : Nat) : Blocks :=
  crashAfter k (recoverWrites start d) d

/-! ## In memory -/

/-- `struct log`. -/
structure Log where
  outstanding : Int
  committing : Bool
  lh : LogHeader

/-- The panics of `log.c`. -/
inductive LogPanic where
  | tooBig
  | outsideOfTrans
  | committing
  deriving DecidableEq, Repr

/-- One round of `begin_op`'s loop; nothing when it sleeps. -/
def beginOp (l : Log) : Option Log :=
  if l.committing then none
  else if (l.lh.n : Int) + (l.outstanding + 1) * maxOpBlocks > logBlocks then none
  else some { l with outstanding := l.outstanding + 1 }

/-- The index `log_write` finds for block `b`: where it is logged already, else the end. -/
def LogHeader.slot (lh : LogHeader) (b : Nat) : Nat :=
  ((List.range lh.n).find? fun i => lh.block i == b).getD lh.n

/-- `log_write`. -/
def logWrite (l : Log) (b : Nat) : Except LogPanic Log :=
  if l.lh.n ≥ logBlocks then .error .tooBig
  else if l.outstanding < 1 then .error .outsideOfTrans
  else
    let i := l.lh.slot b
    .ok { l with lh :=
      ⟨if i = l.lh.n then l.lh.n + 1 else l.lh.n, Function.update l.lh.block i b⟩ }

/-- `end_op` up to the call of `commit`, and whether there is one. -/
def endOp (l : Log) : Except LogPanic (Bool × Log) :=
  let l := { l with outstanding := l.outstanding - 1 }
  if l.committing then .error .committing
  else if l.outstanding = 0 then .ok (true, { l with committing := true })
  else .ok (false, l)

/-- The rest of `end_op` that commits: `commit` empties the header, and then it is over. -/
def endCommit (l : Log) : Log :=
  { l with lh := if 0 < l.lh.n then { l.lh with n := 0 } else l.lh, committing := false }

/-! ## The processes that use it -/

/-- What a process is doing: nothing, an operation in which it logged some blocks, or `commit`. -/
inductive Phase where
  | idle
  | inOp (logged : List Nat)
  | committing
  deriving DecidableEq, Repr

/-- The log and the processes that use it. -/
structure LogSys (P : Type) where
  log : Log
  phase : P → Phase
  panicked : Option LogPanic

/-- What a process can do next; a section under `log.lock` is one step. -/
inductive LogAct (P : Type) where
  | beginOp (p : P)
  | logWrite (p : P) (b : Nat)
  | endOp (p : P)
  | commit (p : P)

/-- The blocks an operation has logged, with `b`. -/
def addLogged (bs : List Nat) (b : Nat) : List Nat := if b ∈ bs then bs else b :: bs

/-- The log of `initlog`, before any operation. -/
def LogSys.start (P : Type) (block : Nat → Nat) : LogSys P :=
  ⟨⟨0, false, ⟨0, block⟩⟩, fun _ => .idle, none⟩

/-- One step; nothing if the process sleeps or is not at that point. -/
def LogSys.step {P : Type} [DecidableEq P] (s : LogSys P) : LogAct P → Option (LogSys P)
  | .beginOp p =>
    match s.phase p, beginOp s.log with
    | .idle, some log => some { s with log := log, phase := Function.update s.phase p (.inOp []) }
    | _, _ => none
  | .logWrite p b =>
    match s.phase p with
    | .inOp bs =>
      match logWrite s.log b with
      | .error e => some { s with panicked := some e }
      | .ok log =>
        some { s with log := log, phase := Function.update s.phase p (.inOp (addLogged bs b)) }
    | _ => none
  | .endOp p =>
    match s.phase p with
    | .inOp _ =>
      match endOp s.log with
      | .error e => some { s with panicked := some e }
      | .ok (commits, log) =>
        some { s with
          log := log
          phase := Function.update s.phase p (if commits then .committing else .idle) }
    | _ => none
  | .commit p =>
    if s.phase p = .committing then
      some { s with log := endCommit s.log, phase := Function.update s.phase p .idle }
    else none

end Xv6Paging
