import Xv6Paging.Kernel.ProcTable
import Xv6Paging.Lib.Refs
import Xv6Paging.Lib.Triple

/-!
# References to inodes and files

What `fs.c`, `file.c`, `sysfile.c`, `exec.c`, `proc.c` and `swap.c` do with the entries
of the inode table and of the file table: who takes a reference, who gives it back, who
is left with the last one. An inode on the disk is its type, its link count and, for a
directory, its entries; what a file holds is not modelled, and neither are the locks.

A program is a transaction, or a section that has none, and runs to its end or panics.
What a disk or a memory that is full would make fail is decided by a flag of the call.
`Files.tx` is whether the running program is between `begin_op` and `end_op`. Beside the
tables stand two records: for every inode that `iput` freed, whether that was inside a
transaction, and how often a pointer to an entry was overwritten that nobody gave back.
-/

namespace Xv6Paging

open Lib

/-- `NINODE`. -/
abbrev ninode : Nat := 50

instance : NeZero ninode := ⟨by decide⟩

/-- `NFILE`. -/
abbrev nfile : Nat := 100

/-- `NOFILE`. -/
abbrev nofile : Nat := 16

/-- `ROOTINO`. -/
def rootIno : Nat := 1

/-- A path element, cut to `DIRSIZ` bytes. -/
abbrev Name : Type := List UInt8

/-- A path: from the root or from `cwd`, and its elements. -/
structure FsPath where
  absolute : Bool
  elems : List Name
  deriving DecidableEq, Repr

/-- `type` of an inode; 0 is free. -/
inductive InodeType where
  | free | dir | file | device
  deriving DecidableEq, Repr

/-- `struct dinode`, with the entries of a directory. -/
structure Dinode where
  type : InodeType
  /-- A `short`, of 16 bits; it is `Files.step16` that cuts it down to them. -/
  nlink : Int
  entries : List (Name × Nat)
  deriving DecidableEq, Repr

/-- `struct inode`, but for what it copies from the disk. -/
structure InodeEntry where
  inum : Nat
  ref : Nat
  valid : Bool
  deriving DecidableEq, Repr

/-- An entry of the inode table. -/
abbrev InodePtr : Type := Fin ninode

/-- `type` of a file and what goes with it. -/
inductive FileKind where
  | none | pipe
  | inode (ip : InodePtr)
  | device (ip : InodePtr)
  deriving DecidableEq, Repr

/-- `struct file`. -/
structure FileEntry where
  ref : Nat
  kind : FileKind
  deriving DecidableEq, Repr

/-- An entry of the file table. -/
abbrev FilePtr : Type := Fin nfile

/-- Where a process is between two programs. -/
inductive Stage where
  | outside
  /-- In `kexec`, before `swapfile_create`. -/
  | execed
  /-- In `kexec`, asleep for a lock it holds itself. -/
  | stuck
  /-- In `kexit`. -/
  | exiting
  /-- In `swapfile_cleanup`, before it closes the file. -/
  | unlinked
  deriving DecidableEq, Repr

/-- The part of `struct proc` that points to inodes and files. -/
structure FileProc where
  state : ProcState
  pid : Nat
  ofile : Fin nofile → Option FilePtr
  cwd : Option InodePtr
  execIp : Option InodePtr
  swapfile : Option FilePtr
  stage : Stage
  /-- What a call that is stuck holds on to. -/
  held : Option InodePtr
  deriving DecidableEq

/-- The tables, the disk and the two records. -/
structure Files where
  ninodes : Nat
  dinode : Nat → Dinode
  itable : InodePtr → InodeEntry
  ftable : FilePtr → FileEntry
  proc : Fin nproc → FileProc
  nextpid : Nat
  tx : Bool
  drops : List Bool
  lost : InodePtr → Nat

/-- A program over them. -/
abbrev FileM (α : Type) : Type := Prog Files α

namespace Files

/-- The inode on the disk that an entry stands for. -/
def disk (s : Files) (ip : InodePtr) : Dinode := s.dinode (s.itable ip).inum

def setInode (s : Files) (ip : InodePtr) (e : InodeEntry) : Files :=
  { s with itable := Function.update s.itable ip e }

def setDinode (s : Files) (inum : Nat) (d : Dinode) : Files :=
  { s with dinode := Function.update s.dinode inum d }

def setDisk (s : Files) (ip : InodePtr) (d : Dinode) : Files := s.setDinode (s.itable ip).inum d

def setFile (s : Files) (f : FilePtr) (e : FileEntry) : Files :=
  { s with ftable := Function.update s.ftable f e }

def setProc (s : Files) (p : Fin nproc) (e : FileProc) : Files :=
  { s with proc := Function.update s.proc p e }

end Files

/-! ## The inode table -/

/-- `begin_op`. -/
def beginTx : FileM Unit := modify fun s => { s with tx := true }

/-- `end_op`. -/
def endTx : FileM Unit := modify fun s => { s with tx := false }

/-- `iget`. -/
def iget (inum : Nat) : FileM InodePtr := fun s =>
  match Fin.find? fun ip => decide (0 < (s.itable ip).ref) && (s.itable ip).inum == inum with
  | some ip => some (ip, s.setInode ip { s.itable ip with ref := (s.itable ip).ref + 1 })
  | none =>
    match Fin.find? fun ip => (s.itable ip).ref == 0 with
    | some ip => some (ip, s.setInode ip { inum := inum, ref := 1, valid := false })
    | none => none

/-- `idup`. -/
def idup (ip : InodePtr) : FileM InodePtr := fun s =>
  some (ip, s.setInode ip { s.itable ip with ref := (s.itable ip).ref + 1 })

/-- `ilock`. -/
def ilock (ip : InodePtr) : FileM Unit := fun s =>
  if (s.itable ip).ref < 1 then none
  else if (s.itable ip).valid then some ((), s)
  else if (s.disk ip).type = .free then none
  else some ((), s.setInode ip { s.itable ip with valid := true })

/-- What `iput` does with the inode when the last reference goes and there are no links. -/
def freeInode (s : Files) (ip : InodePtr) : Files :=
  let s := { s with drops := s.tx :: s.drops }
  let s := s.setDisk ip { s.disk ip with type := .free, entries := [] }
  s.setInode ip { s.itable ip with valid := false }

/-- Whether the entry is the last thing that is left of the inode. -/
def Files.lastRef (s : Files) (ip : InodePtr) : Bool :=
  (s.itable ip).ref == 1 && (s.itable ip).valid && (s.disk ip).nlink == 0

/-- `iput`. -/
def iput (ip : InodePtr) : FileM Unit := fun s =>
  let s := if s.lastRef ip then freeInode s ip else s
  some ((), s.setInode ip { s.itable ip with ref := (s.itable ip).ref - 1 })

/-- `ialloc`. -/
def ialloc (type : InodeType) : FileM (Option InodePtr) := do
  let s ← get
  match (List.range s.ninodes).find? fun n => decide (1 ≤ n) && (s.dinode n).type == .free with
  | some n =>
    modify fun s => s.setDinode n { type := type, nlink := 0, entries := [] }
    let ip ← iget n
    pure (some ip)
  | none => pure none

/-- `ip->nlink = f(ip->nlink); iupdate(ip)`. -/
def setNlink (ip : InodePtr) (f : Int → Int) : FileM Unit :=
  modify fun s => s.setDisk ip { s.disk ip with nlink := f (s.disk ip).nlink }

/-! ## Directories and paths -/

/-- `dirlookup`. -/
def dirlookup (dp : InodePtr) (name : Name) : FileM (Option InodePtr) := do
  let s ← get
  if (s.disk dp).type ≠ .dir then failure
  else
    match (s.disk dp).entries.find? fun e => e.1 == name with
    | some e => do
      let ip ← iget e.2
      pure (some ip)
    | none => pure none

/-- `dirlink`; `room` is whether the disk has room for the entry. -/
def dirlink (dp : InodePtr) (name : Name) (inum : Nat) (room : Bool) : FileM Bool := do
  match ← dirlookup dp name with
  | some ip => do
    iput ip
    pure false
  | none =>
    if room then do
      modify fun s =>
        s.setDisk dp { s.disk dp with entries := (s.disk dp).entries ++ [(name, inum)] }
      pure true
    else pure false

/-- The loop of `namex`. -/
def namexLoop (parent : Bool) : List Name → InodePtr → FileM (Option (InodePtr × Name))
  | [], ip =>
    if parent then do
      iput ip
      pure none
    else pure (some (ip, []))
  | name :: rest, ip => do
    ilock ip
    let s ← get
    if (s.disk ip).type ≠ .dir then do
      iput ip
      pure none
    else if parent ∧ rest = [] then pure (some (ip, name))
    else
      match ← dirlookup ip name with
      | none => do
        iput ip
        pure none
      | some next => do
        iput ip
        namexLoop parent rest next

/-- `namex`. -/
def namex (p : Fin nproc) (path : FsPath) (parent : Bool) : FileM (Option (InodePtr × Name)) := do
  let s ← get
  if path.absolute then do
    let ip ← iget rootIno
    namexLoop parent path.elems ip
  else
    match (s.proc p).cwd with
    | some cwd => do
      let ip ← idup cwd
      namexLoop parent path.elems ip
    | none => failure

/-- `"."` and `".."`. -/
def dot : Name := [46]

def dotDot : Name := [46, 46]

/-- The entries of a new directory. -/
def linkDots (type : InodeType) (ip dp : InodePtr) (room : Bool) : FileM Bool := do
  if type = .dir then do
    let s ← get
    let one ← dirlink ip dot (s.itable ip).inum room
    if one then dirlink ip dotDot (s.itable dp).inum room else pure false
  else pure true

/-- The entry of the new inode in its directory, after the dots. -/
def linkName (dots : Bool) (dp ip : InodePtr) (name : Name) (room : Bool) : FileM Bool :=
  if dots then do
    let s ← get
    dirlink dp name (s.itable ip).inum room
  else pure false

/-- `dp->nlink` counts the `".."` of the directories in `dp`. -/
def countDotDot (type : InodeType) (dp : InodePtr) (f : Int → Int) : FileM Unit :=
  if type = .dir then setNlink dp f else pure ()

/-- The new inode of `create`, once it is allocated. -/
def createAt (type : InodeType) (dp ip : InodePtr) (name : Name) (room : Bool) :
    FileM (Option InodePtr) := do
  ilock ip
  setNlink ip fun _ => 1
  let dots ← linkDots type ip dp room
  let linked ← linkName dots dp ip name room
  if linked then do
    countDotDot type dp (· + 1)
    iput dp
    pure (some ip)
  else do
    setNlink ip fun _ => 0
    iput ip
    iput dp
    pure none

/-- `create`, and `kcreate`, which is a copy of it. -/
def create (p : Fin nproc) (path : FsPath) (type : InodeType) (room : Bool) :
    FileM (Option InodePtr) := do
  match ← namex p path true with
  | none => pure none
  | some (dp, name) => do
    ilock dp
    match ← dirlookup dp name with
    | some ip => do
      iput dp
      ilock ip
      let s ← get
      if type = .file ∧ ((s.disk ip).type = .file ∨ (s.disk ip).type = .device) then
        pure (some ip)
      else do
        iput ip
        pure none
    | none => do
      match ← ialloc type with
      | none => do
        iput dp
        pure none
      | some ip => createAt type dp ip name room

/-! ## The file table -/

/-- `filealloc`. -/
def filealloc : FileM (Option FilePtr) := fun s =>
  match Fin.find? fun f => (s.ftable f).ref == 0 with
  | some f => some (some f, s.setFile f { s.ftable f with ref := 1 })
  | none => some (none, s)

/-- `filedup`. -/
def filedup (f : FilePtr) : FileM Unit := fun s =>
  if (s.ftable f).ref < 1 then none
  else some ((), s.setFile f { s.ftable f with ref := (s.ftable f).ref + 1 })

/-- `fileclose`, up to the release of `ftable.lock`: what is left to close. -/
def filedrop (f : FilePtr) : FileM FileKind := fun s =>
  if (s.ftable f).ref < 1 then none
  else if (s.ftable f).ref - 1 > 0 then
    some (.none, s.setFile f { s.ftable f with ref := (s.ftable f).ref - 1 })
  else some ((s.ftable f).kind, s.setFile f { ref := 0, kind := .none })

/-- `fileclose`. What `pipeclose` does is no inode's business. -/
def fileclose (f : FilePtr) : FileM Unit := do
  match ← filedrop f with
  | .inode ip | .device ip => do
    beginTx
    iput ip
    endTx
  | _ => pure ()

/-- `f->type = …; f->ip = ip`. -/
def setKind (f : FilePtr) (kind : FileKind) : FileM Unit :=
  modify fun s => s.setFile f { s.ftable f with kind := kind }

/-- Change the entry of a process. -/
def setProcM (p : Fin nproc) (g : FileProc → FileProc) : FileM Unit :=
  modify fun s => s.setProc p (g (s.proc p))

/-- `p->ofile[fd] = f`. -/
def FileProc.setFd (e : FileProc) (fd : Fin nofile) (f : Option FilePtr) : FileProc :=
  { e with ofile := Function.update e.ofile fd f }

/-- `fdalloc`. -/
def fdalloc (p : Fin nproc) (f : FilePtr) : FileM (Option (Fin nofile)) := fun s =>
  match Fin.find? fun fd => (s.proc p).ofile fd == none with
  | some fd => some (some fd, s.setProc p ((s.proc p).setFd fd (some f)))
  | none => some (none, s)

/-! ## Swap files -/

/-- The last digits of a pid, as `swapfile_create` writes them. -/
def swapName (pid : Nat) : Name :=
  [112, 103, 115, 119, 112] ++
    [10000, 1000, 100, 10, 1].map fun k => UInt8.ofNat (48 + pid / k % 10)

/-- `"/pgswpXXXXX"`. -/
def swapPath (pid : Nat) : FsPath := { absolute := true, elems := [swapName pid] }

/-- `swapfile_create`. -/
def swapfileOpen (p : Fin nproc) (room : Bool) : FileM Unit := do
  let s ← get
  match (s.proc p).swapfile with
  | some _ => pure ()
  | none => do
    beginTx
    match ← create p (swapPath (s.proc p).pid) .file room with
    | none => endTx
    | some ip => do
      match ← filealloc with
      | none => do
        iput ip
        endTx
      | some f => do
        setKind f (.inode ip)
        setProcM p fun e => { e with swapfile := some f }
        endTx

/-- Take an entry out of a directory. -/
def removeEntry (dp : InodePtr) (name : Name) : FileM Unit :=
  modify fun s => s.setDisk dp
    { s.disk dp with entries := (s.disk dp).entries.eraseP fun e => e.1 == name }

/-- The transaction of `swapfile_cleanup`. -/
def swapfileUnlink (p : Fin nproc) : FileM Unit := do
  let s ← get
  beginTx
  match ← namex p (swapPath (s.proc p).pid) true with
  | none => endTx
  | some (dp, name) => do
    ilock dp
    match ← dirlookup dp name with
    | some ip => do
      ilock ip
      removeEntry dp name
      setNlink ip (· - 1)
      iput ip
      iput dp
      endTx
    | none => do
      iput dp
      endTx

/-! ## System calls -/

/-- The file that `sys_open` is about. -/
def openInode (p : Fin nproc) (path : FsPath) (creat rdonly room : Bool) :
    FileM (Option InodePtr) := do
  if creat then create p path .file room
  else
    match ← namex p path false with
    | none => pure none
    | some (ip, _) => do
      ilock ip
      let s ← get
      if (s.disk ip).type = .dir ∧ rdonly = false then do
        iput ip
        pure none
      else pure (some ip)

/-- `sys_open`; `major` is whether a device has a driver. -/
def sysOpen (p : Fin nproc) (path : FsPath) (creat rdonly room major : Bool) : FileM Unit := do
  beginTx
  match ← openInode p path creat rdonly room with
  | none => endTx
  | some ip => do
    let s ← get
    if (s.disk ip).type = .device ∧ major = false then do
      iput ip
      endTx
    else
      match ← filealloc with
      | none => do
        iput ip
        endTx
      | some f => do
        match ← fdalloc p f with
        | none => do
          fileclose f
          iput ip
          endTx
        | some _ => do
          setKind f (if (s.disk ip).type = .device then .device ip else .inode ip)
          endTx

/-- `sys_close`. -/
def sysClose (p : Fin nproc) (fd : Fin nofile) : FileM Unit := do
  let s ← get
  match (s.proc p).ofile fd with
  | none => pure ()
  | some f => do
    setProcM p fun e => e.setFd fd none
    fileclose f

/-- `sys_dup`. -/
def sysDup (p : Fin nproc) (fd : Fin nofile) : FileM Unit := do
  let s ← get
  match (s.proc p).ofile fd with
  | none => pure ()
  | some f => do
    match ← fdalloc p f with
    | none => pure ()
    | some _ => filedup f

/-- `sys_chdir`. -/
def sysChdir (p : Fin nproc) (path : FsPath) : FileM Unit := do
  beginTx
  match ← namex p path false with
  | none => endTx
  | some (ip, _) => do
    ilock ip
    let s ← get
    if (s.disk ip).type ≠ .dir then do
      iput ip
      endTx
    else
      match (s.proc p).cwd with
      | none => failure
      | some cwd => do
        iput cwd
        endTx
        setProcM p fun e => { e with cwd := some ip }

/-- `sys_link`, once it has the inode. -/
def linkInode (p : Fin nproc) (ip : InodePtr) (new : FsPath) (room : Bool) : FileM Bool := do
  match ← namex p new true with
  | none => pure false
  | some (dp, name) => do
    ilock dp
    let s ← get
    let linked ← dirlink dp name (s.itable ip).inum room
    iput dp
    pure linked

/-- `sys_link`. -/
def sysLink (p : Fin nproc) (old new : FsPath) (room : Bool) : FileM Unit := do
  beginTx
  match ← namex p old false with
  | none => endTx
  | some (ip, _) => do
    ilock ip
    let s ← get
    if (s.disk ip).type = .dir then do
      iput ip
      endTx
    else do
      setNlink ip (· + 1)
      let linked ← linkInode p ip new room
      if linked then do
        iput ip
        endTx
      else do
        ilock ip
        setNlink ip (· - 1)
        iput ip
        endTx

/-- `isdirempty`: the first two entries are the dots. -/
def isdirempty (d : Dinode) : Bool := d.entries.length ≤ 2

/-- `sys_unlink`, once it has the directory and the inode. -/
def unlinkInode (dp ip : InodePtr) (name : Name) : FileM Unit := do
  ilock ip
  let s ← get
  if (s.disk ip).nlink < 1 then failure
  else if (s.disk ip).type = .dir ∧ isdirempty (s.disk ip) = false then do
    iput ip
    iput dp
    endTx
  else do
    removeEntry dp name
    countDotDot (s.disk ip).type dp (· - 1)
    iput dp
    setNlink ip (· - 1)
    iput ip
    endTx

/-- `sys_unlink`. -/
def sysUnlink (p : Fin nproc) (path : FsPath) : FileM Unit := do
  beginTx
  match ← namex p path true with
  | none => endTx
  | some (dp, name) => do
    ilock dp
    if name = dot ∨ name = dotDot then do
      iput dp
      endTx
    else
      match ← dirlookup dp name with
      | none => do
        iput dp
        endTx
      | some ip => unlinkInode dp ip name

/-- `sys_mkdir` and `sys_mknod`. -/
def sysMake (p : Fin nproc) (path : FsPath) (type : InodeType) (room : Bool) : FileM Unit := do
  beginTx
  match ← create p path type room with
  | none => endTx
  | some ip => do
    iput ip
    endTx

/-- `sys_pipe`, once it has its two files; `copied` is whether `copyout` takes the descriptors. -/
def pipeFds (p : Fin nproc) (rf wf : FilePtr) (copied : Bool) : FileM Unit := do
  match ← fdalloc p rf with
  | none => do
    fileclose rf
    fileclose wf
  | some fd0 => do
    match ← fdalloc p wf with
    | none => do
      setProcM p fun e => e.setFd fd0 none
      fileclose rf
      fileclose wf
    | some fd1 =>
      if copied then pure ()
      else do
        setProcM p fun e => e.setFd fd0 none
        setProcM p fun e => e.setFd fd1 none
        fileclose rf
        fileclose wf

/-- `sys_pipe`. -/
def sysPipe (p : Fin nproc) (memory copied : Bool) : FileM Unit := do
  match ← filealloc with
  | none => pure ()
  | some rf => do
    match ← filealloc with
    | none => fileclose rf
    | some wf =>
      if memory then do
        setKind rf .pipe
        setKind wf .pipe
        pipeFds p rf wf copied
      else do
        fileclose rf
        fileclose wf

/-! ## Processes -/

/-- `freeproc`, on the fields there are here. -/
def freeprocFiles (p : Fin nproc) : FileM Unit := do
  let s ← get
  match (s.proc p).execIp with
  | some ip => do
    iput ip
    setProcM p fun e => { e with execIp := none, pid := 0, state := .unused, stage := .outside }
  | none => setProcM p fun e => { e with pid := 0, state := .unused, stage := .outside }

/-- The loop of `kfork` over the open files. -/
def dupFiles (p np : Fin nproc) : List (Fin nofile) → FileM Unit
  | [] => pure ()
  | fd :: fds => do
    let s ← get
    match (s.proc p).ofile fd with
    | some f => do
      filedup f
      setProcM np fun e => e.setFd fd (some f)
      dupFiles p np fds
    | none => dupFiles p np fds

/-- `kfork`; `memory` is whether all allocations succeed. -/
def kforkFiles (p np : Fin nproc) (memory : Bool) : FileM Unit := do
  let s ← get
  modify fun s => { s with nextpid := s.nextpid + 1 }
  setProcM np fun e =>
    { e with state := .used, pid := s.nextpid, swapfile := none, stage := .outside }
  if memory then do
    dupFiles p np (List.finRange nofile)
    match (s.proc p).cwd with
    | none => failure
    | some cwd => do
      let ip ← idup cwd
      setProcM np fun e => { e with cwd := some ip }
      match (s.proc p).execIp with
      | none => setProcM np fun e => { e with state := .runnable }
      | some x => do
        let ip ← idup x
        setProcM np fun e => { e with execIp := some ip, state := .runnable }
  else freeprocFiles np

/-- How an `exec` ends that finds its file. -/
inductive ExecEnd where
  /-- It goes to `bad` while it holds the lock of the inode, which it then waits for. -/
  | stuck
  /-- It goes to `bad` after that. -/
  | failed
  | done
  deriving DecidableEq, Repr

/-- A pointer to an inode is overwritten. -/
def loseExec (p : Fin nproc) : FileM Unit := modify fun s =>
  { s with lost := fun ip => s.lost ip + points (s.proc p).execIp ip }

/-- `kexec`, up to `end_op`. Only a regular file gets past the check of the ELF header: a device
has no bytes, and those of a directory begin with the entry for `"."`. -/
def kexecFiles (p : Fin nproc) (path : FsPath) (how : ExecEnd) : FileM Unit := do
  beginTx
  match ← namex p path false with
  | none => endTx
  | some (ip, _) => do
    ilock ip
    let s ← get
    match if (s.disk ip).type = .file then how else .stuck with
    | .stuck => do
      setProcM p fun e => { e with stage := .stuck, held := some ip }
      endTx
    | .failed => do
      ilock ip
      iput ip
      endTx
    | .done => do
      ilock ip
      let dup ← idup ip
      loseExec p
      setProcM p fun e => { e with execIp := some dup, stage := .execed }
      iput ip
      endTx

/-- What comes next in `kexit`. -/
def exitNext (p : Fin nproc) : FileM Unit := do
  let s ← get
  match Fin.find? fun fd => ((s.proc p).ofile fd).isSome with
  | some fd =>
    match (s.proc p).ofile fd with
    | some f => do
      fileclose f
      setProcM p fun e => e.setFd fd none
    | none => pure ()
  | none =>
    match (s.proc p).cwd with
    | some ip => do
      beginTx
      iput ip
      endTx
      setProcM p fun e => { e with cwd := none }
    | none =>
      match (s.proc p).swapfile with
      | some f =>
        if (s.proc p).stage = .exiting then do
          swapfileUnlink p
          setProcM p fun e => { e with stage := .unlinked }
        else do
          fileclose f
          setProcM p fun e => { e with swapfile := none }
      | none => setProcM p fun e => { e with state := .zombie, stage := .outside }

/-! ## Runs -/

/-- What a process can do. -/
inductive FileAct where
  | fork (p np : Fin nproc) (memory : Bool)
  | exec (p : Fin nproc) (path : FsPath) (how : ExecEnd)
  | swapfileCreate (p : Fin nproc) (room : Bool)
  | exit (p : Fin nproc)
  | exitNext (p : Fin nproc)
  | wait (p c : Fin nproc)
  | openFile (p : Fin nproc) (path : FsPath) (creat rdonly room major : Bool)
  | close (p : Fin nproc) (fd : Fin nofile)
  | dup (p : Fin nproc) (fd : Fin nofile)
  | chdir (p : Fin nproc) (path : FsPath)
  | link (p : Fin nproc) (old new : FsPath) (room : Bool)
  | unlink (p : Fin nproc) (path : FsPath)
  | make (p : Fin nproc) (path : FsPath) (type : InodeType) (room : Bool)
  | pipe (p : Fin nproc) (memory copied : Bool)
  deriving DecidableEq, Repr

/-- Who does it. -/
def FileAct.actor : FileAct → Fin nproc
  | fork p _ _ | exec p _ _ | swapfileCreate p _ | exit p | exitNext p | wait p _
  | openFile p _ _ _ _ _ | close p _ | dup p _ | chdir p _ | link p _ _ _ | unlink p _
  | make p _ _ _ | pipe p _ _ => p

/-- Whether a process at this stage may do it. -/
def FileAct.fits : FileAct → Stage → Bool
  | swapfileCreate _ _, stage => stage == .outside || stage == .execed
  | exitNext _, stage => stage == .exiting || stage == .unlinked
  | _, stage => stage == .outside

/-- Whether the other process it names is what it should be. -/
def FileAct.applies (s : Files) : FileAct → Bool
  | fork _ np _ => (s.proc np).state == .unused
  | exit p => p != initproc
  | wait _ c => (s.proc c).state == .zombie
  | make _ _ type _ => type != .free
  | _ => true

/-- The program of each. -/
def FileAct.run : FileAct → FileM Unit
  | fork p np memory => kforkFiles p np memory
  | exec p path how => kexecFiles p path how
  | swapfileCreate p room => do
    swapfileOpen p room
    setProcM p fun e => { e with stage := .outside }
  | exit p => setProcM p fun e => { e with stage := .exiting }
  | exitNext p => Xv6Paging.exitNext p
  | wait _ c => freeprocFiles c
  | openFile p path creat rdonly room major => sysOpen p path creat rdonly room major
  | close p fd => sysClose p fd
  | dup p fd => sysDup p fd
  | chdir p path => sysChdir p path
  | link p old new room => sysLink p old new room
  | unlink p path => sysUnlink p path
  | make p path type room => sysMake p path type room
  | pipe p memory copied => sysPipe p memory copied

namespace Files

/-- One step. -/
def step (s : Files) (a : FileAct) : Option Files :=
  if (s.proc a.actor).state = .runnable ∧ a.fits (s.proc a.actor).stage ∧ a.applies s then
    (a.run s).map Prod.snd
  else none

/-- The link counts as a `short` holds them. -/
def shortLinks (s : Files) : Files :=
  { s with
    dinode := fun n =>
      if n < s.ninodes then { s.dinode n with nlink := Int.bmod (s.dinode n).nlink (2 ^ 16) }
      else s.dinode n }

/-- One step, with link counts that wrap. A step tests counts it has not changed, and whether one
it has changed by at most 2 is 0, so that it makes no difference to cut them at its end. -/
def step16 (s : Files) (a : FileAct) : Option Files := (s.step a).map shortLinks

/-- After `userinit`: the first process has the root as its directory, and there is nothing
else. -/
structure Boot (s : Files) : Prop where
  root : s.itable 0 = { inum := rootIno, ref := 1, valid := false }
  inodes : ∀ ip, ip ≠ 0 → (s.itable ip).ref = 0
  files : ∀ f, s.ftable f = { ref := 0, kind := .none }
  init : s.proc initproc =
    { state := .runnable, pid := 1, ofile := fun _ => none, cwd := some 0, execIp := none
      swapfile := none, stage := .outside, held := none }
  procs : ∀ p, p ≠ initproc → s.proc p =
    { state := .unused, pid := 0, ofile := fun _ => none, cwd := none, execIp := none
      swapfile := none, stage := .outside, held := none }
  pids : s.nextpid = 2
  tx : s.tx = false
  drops : s.drops = []
  lost : ∀ ip, s.lost ip = 0

end Files

end Xv6Paging
