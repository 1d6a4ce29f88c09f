import Xv6Paging.Kernel.Files
import Xv6Paging.Kernel.Fs

/-!
# Inodes in memory

`fs.c` once more, with the inode table. An entry with references stands for an inode. Once it is
`valid` the kernel works on its copy, and the inode on the disk can be behind: `bmap` puts a new
block into the copy, and `iupdate` is what writes the copy out. With the last reference the copy is
gone.

One process is at work, and the locks are left out. `writei` can leave a buffer changed that it does
not log; whether that buffer is dropped from the cache or read again is part of the action.
-/

namespace Xv6Paging.Itable

open Lib

/-- `struct inode`. -/
structure MemInode where
  inum : Nat
  ref : Nat
  valid : Bool
  copy : Fs.Dinode

/-- The disk and the inode table. -/
structure FsState where
  disk : Fs.Disk
  itable : InodePtr → MemInode

/-- What these functions panic with. -/
inductive Panic where
  | fs (p : Fs.FsPanic)
  | ilock
  | iunlock
  | igetNoInodes
  deriving DecidableEq, Repr

/-- A program over the disk and the table. -/
abbrev FsM (α : Type) : Type := StateT FsState (Except Panic) α

namespace FsState

def set (s : FsState) (ip : InodePtr) (e : MemInode) : FsState :=
  { s with itable := Function.update s.itable ip e }

/-- The copy of an entry and the disk change. -/
def put (s : FsState) (ip : InodePtr) (copy : Fs.Dinode) (disk : Fs.Disk) : FsState :=
  { disk := disk, itable := Function.update s.itable ip { s.itable ip with copy := copy } }

end FsState

/-! ## References -/

/-- `iget`. -/
def iget (inum : Nat) : FsM InodePtr := fun s =>
  match Fin.find? fun ip => decide (0 < (s.itable ip).ref) && (s.itable ip).inum == inum with
  | some ip => .ok (ip, s.set ip { s.itable ip with ref := (s.itable ip).ref + 1 })
  | none =>
    match Fin.find? fun ip => (s.itable ip).ref == 0 with
    | some ip => .ok (ip, s.set ip { s.itable ip with inum := inum, ref := 1, valid := false })
    | none => .error .igetNoInodes

/-- `ilock`. -/
def ilock (ip : InodePtr) : FsM Unit := fun s =>
  if (s.itable ip).ref < 1 then .error .ilock
  else if (s.itable ip).valid then .ok ((), s)
  else
    match Fs.ilock s.disk (s.itable ip).inum with
    | .ok copy => .ok ((), s.set ip { s.itable ip with copy := copy, valid := true })
    | .error p => .error (.fs p)

/-- `iunlock`. -/
def iunlock (ip : InodePtr) : FsM Unit := fun s =>
  if (s.itable ip).ref < 1 then .error .iunlock else .ok ((), s)

/-- `iupdate`. -/
def iupdate (ip : InodePtr) : FsM Unit := fun s =>
  .ok ((), { s with disk := Fs.iupdate s.disk (s.itable ip).inum (s.itable ip).copy })

/-- Change the copy of an inode. -/
def setCopy (ip : InodePtr) (f : Fs.Dinode → Fs.Dinode) : FsM Unit :=
  modify fun s => s.put ip (f (s.itable ip).copy) s.disk

/-- `itrunc`. -/
def itrunc (ip : InodePtr) : FsM Unit := fun s =>
  match Fs.itrunc s.disk (s.itable ip).inum (s.itable ip).copy with
  | .ok (copy, disk) => .ok ((), s.put ip copy disk)
  | .error p => .error (.fs p)

/-- What `iput` does with an inode nobody can get at any more. -/
def freeInode (ip : InodePtr) : FsM Unit := do
  itrunc ip
  setCopy ip fun c => { c with type := 0 }
  iupdate ip
  modify fun s => s.set ip { s.itable ip with valid := false }

/-- Whether the entry is the last thing that is left of the inode. -/
def FsState.lastRef (s : FsState) (ip : InodePtr) : Bool :=
  (s.itable ip).ref == 1 && (s.itable ip).valid && (s.itable ip).copy.nlink == 0

/-- `iput`. -/
def iput (ip : InodePtr) : FsM Unit := do
  let s ← get
  if s.lastRef ip then freeInode ip
  modify fun s => s.set ip { s.itable ip with ref := (s.itable ip).ref - 1 }

/-- `iunlockput`. -/
def iunlockput (ip : InodePtr) : FsM Unit := do
  iunlock ip
  iput ip

/-- `ialloc`. -/
def ialloc (type : Nat) : FsM (Option InodePtr) := fun s =>
  match Fs.ialloc s.disk type with
  | (none, _) => .ok (none, s)
  | (some inum, disk) => (iget inum { s with disk := disk }).map fun r => (some r.1, r.2)

/-! ## Contents -/

/-- `readi` into a kernel buffer: the bytes it copies. -/
def readi (ip : InodePtr) (off n : Nat) : FsM (List UInt8) := fun s =>
  match Fs.readi s.disk (s.itable ip).copy off n with
  | .ok (bytes, copy, disk) => .ok (bytes, s.put ip copy disk)
  | .error p => .error (.fs p)

/-- What `either_copyin` copies of `n` bytes: never more than it is asked for, and all of that if it
returns 0. -/
structure Source (n : Nat) where
  copyin : Unit → Nat → Nat → Bool × List UInt8 × Unit
  lawful : ∀ a m, a + m ≤ n → (copyin () a m).2.1.length ≤ m ∧
    ((copyin () a m).1 = true → (copyin () a m).2.1.length = m)

/-- A kernel buffer. -/
def Source.ofBytes (src : List UInt8) : Source src.length where
  copyin := Fs.memmove src
  lawful := fun a m h => by
    have hlen : ((src.drop a).take m).length = m := by
      rw [List.length_take, List.length_drop]
      omega
    exact ⟨Nat.le_of_eq hlen, fun _ => hlen⟩

/-- `writei`: the count, or `none` for -1. `gone` is whether a buffer it did not log is dropped. -/
def writei (ip : InodePtr) (off : Nat) {n : Nat} (src : Source n) (gone : Bool) :
    FsM (Option Nat) := fun s =>
  match Fs.writei src.copyin s.disk (s.itable ip).inum (s.itable ip).copy () off 0 n with
  | .ok none => .ok (none, s)
  | .ok (some w) => .ok (some w.tot, s.put ip w.ip (if gone then w.evicted else w.d))
  | .error p => .error (.fs p)

/-! ## Any sequence of them -/

/-- An operation on inodes. -/
inductive FsAct where
  | iget (inum : Nat)
  | ilock (ip : InodePtr)
  | ialloc (type : Nat)
  | readi (ip : InodePtr) (off n : Nat)
  | writei (ip : InodePtr) (off n : Nat) (src : Source n) (gone : Bool)
  | itrunc (ip : InodePtr)
  /-- Set the fields a system call can set, and `iupdate`. -/
  | iupdate (ip : InodePtr) (major minor nlink : Nat)
  | iput (ip : InodePtr)
  /-- `commit`, which ends the transaction. -/
  | commit

/-- An inode that is referenced and has been locked. -/
def FsState.inHand (s : FsState) (ip : InodePtr) : Prop :=
  0 < (s.itable ip).ref ∧ (s.itable ip).valid = true

instance (s : FsState) (ip : InodePtr) : Decidable (s.inHand ip) :=
  inferInstanceAs (Decidable (_ ∧ _))

/-- What a caller has to see to; types, device numbers and link counts are shorts, `n` is a
`uint`. -/
def FsAct.Allowed (s : FsState) : FsAct → Prop
  | .iget inum => inum < s.disk.sb.ninodes
  | .ilock ip => 0 < (s.itable ip).ref
  | .ialloc type => 0 < type ∧ type < 65536
  | .readi ip _ n => s.inHand ip ∧ n < 2 ^ 32
  | .writei ip _ n _ _ => s.inHand ip ∧ n < 2 ^ 32
  | .itrunc ip => s.inHand ip
  | .iupdate ip major minor nlink => s.inHand ip ∧ major < 65536 ∧ minor < 65536 ∧ nlink < 65536
  | .iput ip => 0 < (s.itable ip).ref
  | .commit => True

instance (s : FsState) : ∀ a : FsAct, Decidable (a.Allowed s)
  | .iget _ => inferInstanceAs (Decidable (_ < _))
  | .ilock _ => inferInstanceAs (Decidable (_ < _))
  | .ialloc _ => inferInstanceAs (Decidable (_ ∧ _))
  | .readi .. => inferInstanceAs (Decidable (_ ∧ _))
  | .writei .. => inferInstanceAs (Decidable (_ ∧ _))
  | .itrunc ip => inferInstanceAs (Decidable (s.inHand ip))
  | .iupdate .. => inferInstanceAs (Decidable (_ ∧ _ ∧ _ ∧ _))
  | .iput _ => inferInstanceAs (Decidable (_ < _))
  | .commit => inferInstanceAs (Decidable True)

/-- Do it. -/
def perform : FsAct → FsM Unit
  | .iget inum => do let _ ← iget inum
  | .ilock ip => ilock ip
  | .ialloc type => do let _ ← ialloc type
  | .readi ip off n => do let _ ← readi ip off n
  | .writei ip off _ src gone => do let _ ← writei ip off src gone
  | .itrunc ip => itrunc ip
  | .iupdate ip major minor nlink => do
    setCopy ip fun c => { c with major := major, minor := minor, nlink := nlink }
    iupdate ip
  | .iput ip => iput ip
  | .commit => modify fun s => { s with disk := { s.disk with logged := [] } }

/-- One operation, unless it panics. -/
def step (s : FsState) (a : FsAct) : Option FsState :=
  if a.Allowed s then
    match perform a s with
    | .ok (_, s') => some s'
    | .error _ => none
  else none

end Xv6Paging.Itable
