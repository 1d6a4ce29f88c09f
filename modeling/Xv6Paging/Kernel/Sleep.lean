import Xv6Paging.Kernel.Log
import Xv6Paging.Lib.Monitor

/-!
# Sleeping

A sleep-lock (`sleeplock.c`) and the log are monitors whose processes wait with `sleep` and `wakeup`
of `proc.c`; `kkill` wakes a process as well.
-/

namespace Xv6Paging

open Lib

/-- `struct sleeplock`, and who has returned from `acquiresleep` and not been through `releasesleep`
since. -/
structure SleepLock (n : Nat) where
  locked : Bool
  pid : Option (Fin n)
  owners : Fin n → Bool

inductive SleepOp where
  | acquiresleep
  | releasesleep
  deriving DecidableEq

/-- `sleeplock.c`. -/
def sleepLock (n : Nat) : Monitor (SleepLock n) SleepOp n where
  blocked
    | .acquiresleep, l => l.locked
    | .releasesleep, _ => false
  body p
    | .acquiresleep, l => ⟨true, some p, Function.update l.owners p true⟩
    | .releasesleep, l => ⟨false, none, Function.update l.owners p false⟩
  wakes
    | .acquiresleep, _ => false
    | .releasesleep, _ => true

/-- `holdingsleep`. -/
def SleepLock.holdingsleep {n : Nat} (l : SleepLock n) (p : Fin n) : Bool :=
  l.locked && l.pid == some p

/-- After `initsleeplock`. -/
def SleepStart {n : Nat} (s : Monitored (SleepLock n) SleepOp n) : Prop :=
  Monitor.Idle s ∧ s.val = ⟨false, none, fun _ => false⟩

/-- `releasesleep` is called by a process that has the lock. -/
def sleepAllowed {n : Nat} (s : Monitored (SleepLock n) SleepOp n) : MonitorAct SleepOp n → Bool
  | .call p .releasesleep => s.val.owners p
  | _ => true

inductive LogOp where
  | beginOp
  | logWrite (b : Nat)
  | endOp
  /-- The end of a `commit`. -/
  | commit

/-- The log as the processes wait for it; an operation that panics changes nothing. -/
def logMonitor (n : Nat) : Monitor Log LogOp n where
  blocked
    | .beginOp, l => (beginOp l).isNone
    | _, _ => false
  body _
    | .beginOp, l => (beginOp l).getD l
    | .logWrite b, l => (logWrite l b).toOption.getD l
    | .endOp, l => ((endOp l).toOption.map Prod.snd).getD l
    | .commit, l => endCommit l
  wakes
    | .endOp, l => (endOp l).toOption.any fun r => !r.1
    | .commit, _ => true
    | _, _ => false

end Xv6Paging
