import Xv6Paging.Kernel.Files

/-!
# Path names

`skipelem` and `namex` on the characters of a path, with the lock of every inode. The elements of a
path that `Files` starts from are what `skipelem` cuts out of it.

A path is the characters before its NUL; 47 is `'/'`.
-/

namespace Xv6Paging.Namei

open Lib

/-- `skipelem`: the next element, cut to `DIRSIZ` characters, and the path after it. -/
def skipelem (path : List UInt8) : Option (Name × List UInt8) :=
  let path := path.dropWhile (· == 47)
  if path = [] then none
  else
    let elem := path.takeWhile (· != 47)
    some (if 14 ≤ elem.length then elem.take 14 else elem,
      (path.dropWhile (· != 47)).dropWhile (· == 47))

/-- The tables, and which inodes this process has locked. -/
structure Walk where
  files : Files
  locked : InodePtr → Bool

/-- A program that has nothing to do with locks. -/
def onFiles {α : Type} (m : FileM α) : Prog Walk α := fun w =>
  (m w.files).map fun r => (r.1, { w with files := r.2 })

/-- `ilock`. A process that has the lock already waits for itself. -/
def ilock (ip : InodePtr) : Prog Walk Unit := fun w =>
  if w.locked ip then none
  else (Xv6Paging.ilock ip w.files).map fun r =>
    ((), { files := r.2, locked := Function.update w.locked ip true })

/-- `iunlock`. -/
def iunlock (ip : InodePtr) : Prog Walk Unit := fun w =>
  if w.locked ip = false ∨ (w.files.itable ip).ref < 1 then none
  else some ((), { w with locked := Function.update w.locked ip false })

/-- `iunlockput`. -/
def iunlockput (ip : InodePtr) : Prog Walk Unit := do
  iunlock ip
  onFiles (iput ip)

/-- The loop of `namex`. -/
def namexLoop (nameiparent : Bool) :
    Nat → List UInt8 → InodePtr → Prog Walk (Option (InodePtr × Name))
  | 0, _, _ => failure
  | fuel + 1, path, ip =>
    match skipelem path with
    | none =>
      if nameiparent then do
        onFiles (iput ip)
        pure none
      else pure (some (ip, []))
    | some (name, path) => do
      ilock ip
      let w ← get
      if (w.files.disk ip).type ≠ .dir then do
        iunlockput ip
        pure none
      else if nameiparent ∧ path = [] then do
        iunlock ip
        pure (some (ip, name))
      else
        match ← onFiles (dirlookup ip name) with
        | none => do
          iunlockput ip
          pure none
        | some next => do
          iunlockput ip
          namexLoop nameiparent fuel path next

/-- `namex`: the inode and the name that is left in `name`. -/
def namex (p : Fin nproc) (path : List UInt8) (nameiparent : Bool) :
    Prog Walk (Option (InodePtr × Name)) := do
  let w ← get
  if path.head? = some 47 then do
    let ip ← onFiles (iget rootIno)
    namexLoop nameiparent (path.length + 1) path ip
  else
    match (w.files.proc p).cwd with
    | some cwd => do
      let ip ← onFiles (idup cwd)
      namexLoop nameiparent (path.length + 1) path ip
    | none => failure

/-- `namei`. -/
def namei (p : Fin nproc) (path : List UInt8) : Prog Walk (Option InodePtr) := do
  let r ← namex p path false
  pure (r.map Prod.fst)

/-- `nameiparent`. -/
def nameiparent (p : Fin nproc) (path : List UInt8) : Prog Walk (Option (InodePtr × Name)) :=
  namex p path true

end Xv6Paging.Namei
