import Xv6Paging.Kernel.Exec

/-!
# `kexec` and the file system

`exec.c` once more, with what it does to the inode of the file and to the log: the
transaction it opens, the reference `namei` took, and the lock it takes, gives up half
way and takes again at the end. The memory of the process is handled as in `kexec`;
what is new is that the jumps to `bad:` carry the inode along, locked or not.
-/

namespace Xv6Paging

/-- The inode of the file, as this process sees it, and the log. -/
structure ExecFs where
  /-- This process holds `ip->lock`. -/
  locked : Bool
  /-- `ip->ref`. -/
  ref : Nat
  /-- `log.outstanding`. -/
  outstanding : Nat
  deriving DecidableEq, Repr

/-- Why `kexec` does not return. -/
inductive ExecStop where
  /-- As without the file system. -/
  | halt (h : Halt)
  /-- `panic("ilock")`. -/
  | ilock
  /-- `panic("iunlock")`. -/
  | iunlock
  deriving DecidableEq, Repr

/-- A part of `kexec` that does not touch the file system. -/
def memory {α : Type} : Except Halt α → Except ExecStop α
  | .ok a => .ok a
  | .error e => .error (.halt e)

namespace ExecFs

/-- `begin_op`, once there is room in the log. -/
def beginOp (fs : ExecFs) : ExecFs := { fs with outstanding := fs.outstanding + 1 }

/-- `end_op`. -/
def endOp (fs : ExecFs) : ExecFs := { fs with outstanding := fs.outstanding - 1 }

/-- `idup`; also what `namei` does to the inode it finds. -/
def idup (fs : ExecFs) : ExecFs := { fs with ref := fs.ref + 1 }

/-- `ilock`, once no other process holds the lock: `acquiresleep` waits for its holder. -/
def ilock (fs : ExecFs) : Except ExecStop ExecFs :=
  if fs.ref < 1 then .error .ilock
  else if fs.locked then .error (.halt .hang)
  else .ok { fs with locked := true }

/-- `iunlock`. -/
def iunlock (fs : ExecFs) : Except ExecStop ExecFs :=
  if !fs.locked || fs.ref < 1 then .error .iunlock else .ok { fs with locked := false }

/-- `iput`, of an inode that has a link. -/
def iput (fs : ExecFs) : ExecFs := { fs with ref := fs.ref - 1 }

/-- `iunlockput`. -/
def iunlockput (fs : ExecFs) : Except ExecStop ExecFs := do
  let fs ← fs.iunlock
  .ok fs.iput

end ExecFs

/-- What is ready when `kexec` commits. -/
structure ExecReady where
  pagetable : PageTable
  sz : Nat
  sp : Nat
  argc : Nat
  layout : Layout
  entry : Nat

/-- `bad:`, with a file. -/
def execAbort (km : Kmem) (pagetable : Option PageTable) (sz : Nat) (fs : ExecFs) :
    Except ExecStop (Option ExecReady × Kmem × ExecFs) := do
  let km ← match pagetable with
    | none => .ok km
    | some pt => memory (procFreepagetable km pt sz)
  let fs ← fs.ilock
  let fs ← fs.iunlockput
  .ok (none, km, fs.endOp)

/-- From the stack on; the inode is unlocked. -/
def execArgs (km : Kmem) (pt : PageTable) (sz : Nat) (l : Layout) (entry : Nat)
    (argv : List (List UInt8)) (fs : ExecFs) :
    Except ExecStop (Option ExecReady × Kmem × ExecFs) := do
  let stackbase := sub64 sz (userStack * 4096)
  let (r, km) ← memory (pushArgs pt stackbase argv km sz [])
  match r with
  | none => execAbort km (some pt) sz fs
  | some (sp, ustack) => do
    let argc := ustack.length
    let sp := pushSp sp ((argc + 1) * 8)
    if sp < stackbase then execAbort km (some pt) sz fs
    else do
      let (ok, km) ← memory (copyoutNew km pt sp ((ustack.reverse ++ [0]).flatMap le64))
      if !ok then execAbort km (some pt) sz fs
      else .ok (some ⟨pt, sz, sp, argc, l, entry⟩, km, fs)

/--
`kexec` up to the point where it commits: `none` where it has returned -1. Nothing of
the process has been changed by then but `trapframe->a1`, and that only when nothing
can fail any more.
-/
def execImage (k : Kernel) (fs : ExecFs) (ip : Option Inode) (argv : List (List UInt8)) :
    Except ExecStop (Option ExecReady × Kmem × ExecFs) :=
  let fs := fs.beginOp
  match ip with
  | none => .ok (none, k.kmem, fs.endOp)
  | some ip => do
    let fs ← fs.idup.ilock
    match readi ip (fun _ : Fin 64 => 0) 0 64 with
    | (got, buf) =>
      if got ≠ 64 then execAbort k.kmem none 0 fs
      else if (elfHdr buf).magic ≠ elfMagic then execAbort k.kmem none 0 fs
      else do
        let elf := elfHdr buf
        let (pt, km) ← memory (procPagetable k.kmem k.p.trapframe)
        match pt with
        | none => execAbort km none 0 fs
        | some pt =>
          match readSegments ip elf.phnum (toUint elf.phoff) Layout.empty with
          | (false, l) => execAbort km (some pt) l.sz fs
          | (true, l) => do
            let fs ← fs.iunlock
            let sz := pgRoundUp l.sz
            let (sz1, km, pt) ← memory (uvmalloc km pt sz (add64 sz ((userStack + 1) * 4096)))
            if sz1 = 0 then execAbort km (some pt) sz fs
            else do
              let pt ← memory (uvmclear pt (sub64 sz1 ((userStack + 1) * 4096)))
              execArgs km pt sz1 l elf.entry argv fs

/-- The commit: the old table goes, the process takes over the image and a reference. -/
def execCommit (k : Kernel) (km : Kmem) (fs : ExecFs) (r : ExecReady) (ip : Inode)
    (path : List UInt8) : Except ExecStop (Int × Kernel × ExecFs) := do
  let km ← memory (procFreepagetable km k.p.pagetable k.p.sz)
  let p := k.p.commit r.layout r.pagetable r.sz r.sp r.entry ip path
  let fs ← fs.ilock
  let fs ← fs.idup.iunlockput
  match swapfileCreate k.disk p with
  | (_, d, p) => .ok (r.argc, { k with kmem := km, disk := d, p := p }, fs.endOp)

/-- `kexec(path, argv)`, where `namei(path)` found `ip`. -/
def kexecFs (k : Kernel) (fs : ExecFs) (path : List UInt8) (ip : Option Inode)
    (argv : List (List UInt8)) : Except ExecStop (Int × Kernel × ExecFs) := do
  let (r, km, fs) ← execImage k fs ip argv
  match r, ip with
  | some r, some ip => execCommit k km fs r ip path
  | _, _ => .ok (-1, { k with kmem := km }, fs)

end Xv6Paging
