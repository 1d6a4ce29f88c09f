import Xv6Paging.Kernel.Process

/-!
# `kexec`

`exec.c`: read the ELF header and the program headers, fold every `PT_LOAD` into
one text record and one data record, map the guard page and the stack, push the
arguments, and swing the process over to the new page table. No segment is
loaded; the fault handlers do that later from the records.
-/

namespace Xv6Paging

/-- A little-endian integer in a buffer. -/
def le {m : Nat} (buf : Fin m → UInt8) (ofs n : Nat) : Nat :=
  (List.range n).foldr (fun i acc =>
    (if h : ofs + i < m then (buf ⟨ofs + i, h⟩).toNat else 0) + 256 * acc) 0

/-- `struct elfhdr`, the fields `kexec` uses. -/
structure ElfHdr where
  magic : Nat
  entry : Nat
  phoff : Nat
  phnum : Nat
  deriving DecidableEq, Repr

/-- `ELF_MAGIC`. -/
def elfMagic : Nat := 0x464C457F

/-- The header in a 64-byte buffer. -/
def elfHdr (buf : Fin 64 → UInt8) : ElfHdr := ⟨le buf 0 4, le buf 24 8, le buf 32 8, le buf 56 2⟩

/-- `struct proghdr`, the fields `kexec` uses. -/
structure ProgHdr where
  type : Nat
  flags : Nat
  off : Nat
  vaddr : Nat
  filesz : Nat
  memsz : Nat
  deriving DecidableEq, Repr

/-- The program header in a 56-byte buffer. -/
def progHdr (buf : Fin 56 → UInt8) : ProgHdr :=
  ⟨le buf 0 4, le buf 4 4, le buf 8 8, le buf 16 8, le buf 32 8, le buf 40 8⟩

/-- What the program-header loop accumulates. -/
structure Layout where
  sz : Nat
  textStart : Nat
  textEnd : Nat
  dataStart : Nat
  dataEnd : Nat
  textOff : Nat
  textFilesz : Nat
  dataOff : Nat
  dataFilesz : Nat
  deriving DecidableEq, Repr

/-- The accumulator before the loop. -/
def Layout.empty : Layout := ⟨0, 0, 0, 0, 0, 0, 0, 0, 0⟩

/-- The tests a `PT_LOAD` header must pass. -/
def ProgHdr.accepted (ph : ProgHdr) : Bool :=
  ph.filesz ≤ ph.memsz && ph.vaddr ≤ add64 ph.vaddr ph.memsz && ph.vaddr % 4096 == 0

/-- Fold one `PT_LOAD` header into the records; `PF_X` makes it text. -/
def Layout.addSegment (l : Layout) (ph : ProgHdr) : Layout :=
  let fin := add64 ph.vaddr ph.memsz
  let l := { l with sz := if fin > l.sz then fin else l.sz }
  if ph.flags % 2 = 1 then
    { l with
      textStart := if l.textStart = 0 then ph.vaddr else l.textStart
      textEnd := fin
      textOff := toUint ph.off
      textFilesz := toUint ph.filesz }
  else
    { l with
      dataStart := if l.dataStart = 0 then ph.vaddr else l.dataStart
      dataEnd := fin
      dataOff := toUint ph.off
      dataFilesz := toUint ph.filesz }

/-- The program-header loop; `(false, l)` is `goto bad` with what `l` held then. -/
def readSegments (ip : Inode) : Nat → Nat → Layout → Bool × Layout
  | 0, _, l => (true, l)
  | n + 1, off, l =>
    match readi ip (fun _ : Fin 56 => 0) off 56 with
    | (got, buf) =>
      if got ≠ 56 then (false, l)
      else
        let ph := progHdr buf
        if ph.type ≠ 1 then readSegments ip n (toUint (off + 56)) l
        else if !ph.accepted then (false, l)
        else readSegments ip n (toUint (off + 56)) (l.addSegment ph)

/-- `sp -= n; sp -= sp % 16`. -/
def pushSp (sp n : Nat) : Nat :=
  let sp := sub64 sp n
  sp - sp % 16

/-- `copyout` into the table under construction, whose stack pages are mapped. -/
def copyoutNew (km : Kmem) (pt : PageTable) (dstva : Nat) (src : List UInt8) :
    Except Halt (Bool × Kmem) :=
  copyoutLoop
    (fun km va0 => .ok (if (pt.pte va0).perm.w then walkaddr pt va0 else none, km))
    Kmem.store src.length km dstva src

/-- The argument loop: the final `sp` and `ustack`, last argument first, or `goto bad`. -/
def pushArgs (pt : PageTable) (stackbase : Nat) :
    List (List UInt8) → Kmem → Nat → List Nat → Except Halt (Option (Nat × List Nat) × Kmem)
  | [], km, sp, ustack => .ok (some (sp, ustack), km)
  | arg :: argv, km, sp, ustack =>
    if maxArg ≤ ustack.length then .ok (none, km)
    else
      let sp := pushSp sp (arg.length + 1)
      if sp < stackbase then .ok (none, km)
      else do
        let (ok, km) ← copyoutNew km pt sp (arg ++ [0])
        if ok then pushArgs pt stackbase argv km sp (sp :: ustack) else .ok (none, km)

/-- A `uint64` in memory. -/
def le64 (x : Nat) : List UInt8 := (List.range 8).map fun i => UInt8.ofNat (x / 256 ^ i)

/-- The last component of the path, cut to what fits `p->name`. -/
def baseName (path : List UInt8) : List UInt8 :=
  ((path.reverse.takeWhile (· ≠ 47)).reverse).take 15

/-- `bad:` the table is freed; a jump from before `iunlock` then locks the inode again. -/
def execBad (k : Kernel) (km : Kmem) (pt : PageTable) (sz : Nat) (locked : Bool) :
    Except Halt (Int × Kernel) := do
  let km ← procFreepagetable km pt sz
  if locked then .error .hang else .ok (-1, { k with kmem := km })

/-- The records and registers of the new image, set once nothing can fail any more. -/
def Proc.commit (p : Proc) (l : Layout) (pt : PageTable) (sz sp entry : Nat) (ip : Inode)
    (path : List UInt8) : Proc :=
  { p with
    name := baseName path
    pagetable := pt
    sz := sz
    regs := ⟨entry, sp, sp⟩
    textStart := l.textStart
    textEnd := l.textEnd
    dataStart := l.dataStart
    dataEnd := l.dataEnd
    stackTop := sp
    textOff := l.textOff
    textFilesz := l.textFilesz
    dataOff := l.dataOff
    dataFilesz := l.dataFilesz
    execIp := some ip }

/-- Push the arguments and the `argv` array, then commit. -/
def execStack (k : Kernel) (km : Kmem) (pt : PageTable) (sz : Nat) (l : Layout) (entry : Nat)
    (ip : Inode) (path : List UInt8) (argv : List (List UInt8)) : Except Halt (Int × Kernel) := do
  let stackbase := sub64 sz (userStack * 4096)
  let (r, km) ← pushArgs pt stackbase argv km sz []
  match r with
  | none => execBad k km pt sz false
  | some (sp, ustack) => do
    let argc := ustack.length
    let sp := pushSp sp ((argc + 1) * 8)
    if sp < stackbase then execBad k km pt sz false
    else do
      let (ok, km) ← copyoutNew km pt sp ((ustack.reverse ++ [0]).flatMap le64)
      if !ok then execBad k km pt sz false
      else do
        let km ← procFreepagetable km k.p.pagetable k.p.sz
        let p := k.p.commit l pt sz sp entry ip path
        match swapfileCreate k.disk p with
        | (_, d, p) => .ok (argc, { k with kmem := km, disk := d, p := p })

/--
`kexec(path, argv)`, where `namei(path)` found `ip`. The count of arguments or -1.
-/
def kexec (k : Kernel) (path : List UInt8) (ip : Option Inode) (argv : List (List UInt8)) :
    Except Halt (Int × Kernel) :=
  match ip with
  | none => .ok (-1, k)
  | some ip =>
    match readi ip (fun _ : Fin 64 => 0) 0 64 with
    | (got, buf) =>
      if got ≠ 64 then .error .hang
      else if (elfHdr buf).magic ≠ elfMagic then .error .hang
      else do
        let elf := elfHdr buf
        let (pt, km) ← procPagetable k.kmem k.p.trapframe
        match pt with
        | none => .error .hang
        | some pt =>
          match readSegments ip elf.phnum (toUint elf.phoff) Layout.empty with
          | (false, l) => execBad k km pt l.sz true
          | (true, l) => do
            let sz := pgRoundUp l.sz
            let (sz1, km, pt) ← uvmalloc km pt sz (add64 sz ((userStack + 1) * 4096))
            if sz1 = 0 then execBad k km pt sz false
            else do
              let pt ← uvmclear pt (sub64 sz1 ((userStack + 1) * 4096))
              execStack k km pt sz1 l elf.entry ip path argv

end Xv6Paging
