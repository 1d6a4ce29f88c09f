import Xv6Paging.Kernel.Fs

/-!
# `mkfs`

`mkfs.c`: the program that builds the file system image, on a host of the same byte order.
It allocates blocks and inodes by counting up and writes the bitmap at the end.
-/

namespace Xv6Paging.Mkfs

open Lib Fs

/-- `FSSIZE`. -/
abbrev fsSize : Nat := 2000

/-- `NINODES`. -/
abbrev nInodes : Nat := 200

/-- `nbitmap`. -/
abbrev nbitmap : Nat := fsSize / 8192 + 1

/-- `ninodeblocks`. -/
abbrev ninodeblocks : Nat := nInodes / 16 + 1

/-- `nlog`. -/
abbrev nlog : Nat := logBlocks + 1

/-- `nmeta`. -/
abbrev nmeta : Nat := 2 + nlog + ninodeblocks + nbitmap

/-- `sb`. -/
def sb : Superblock where
  magic := fsMagic
  size := fsSize
  nblocks := fsSize - nmeta
  ninodes := nInodes
  nlog := nlog
  logstart := 2
  inodestart := 2 + nlog
  bmapstart := 2 + nlog + ninodeblocks

/-- How `mkfs` gives up: `die` with what it prints, or an `assert`. -/
inductive Stop where
  | die (s : List UInt8)
  | assertion
  deriving DecidableEq, Repr

/-- The characters of a string. -/
def ascii (s : String) : List UInt8 := s.toList.map fun c => UInt8.ofNat c.toNat

/-- The image file, and the two counters. -/
structure Image where
  blocks : Blocks
  /-- The length of the file, in blocks. -/
  nsect : Nat
  freeinode : Nat
  freeblock : Nat

/-- `wsect`. -/
def wsect (m : Image) (sec : Nat) (buf : Block) : Image :=
  { m with blocks := Function.update m.blocks sec buf, nsect := max m.nsect (sec + 1) }

/-- `rsect`. -/
def rsect (m : Image) (sec : Nat) : Except Stop Block :=
  if sec < m.nsect then .ok (m.blocks sec) else .error (.die (ascii "read"))

/-- `winode`. -/
def winode (m : Image) (inum : Nat) (ip : Fs.Dinode) : Except Stop Image := do
  let buf ← rsect m (sb.iblock inum)
  .ok (wsect m (sb.iblock inum) (putDinode buf (inum % 16) ip))

/-- `rinode`. -/
def rinode (m : Image) (inum : Nat) : Except Stop Fs.Dinode := do
  let buf ← rsect m (sb.iblock inum)
  .ok (getDinode buf (inum % 16))

/-- `ialloc`. -/
def ialloc (m : Image) (type : Nat) : Except Stop (Nat × Image) := do
  let m' ← winode { m with freeinode := m.freeinode + 1 } m.freeinode
    { type := type, major := 0, minor := 0, nlink := 1, size := 0, addrs := fun _ => 0 }
  .ok (m.freeinode, m')

/-- `balloc`. -/
def balloc (m : Image) (used : Nat) : Except Stop Image :=
  if 8192 ≤ used then .error .assertion
  else .ok (wsect m sb.bmapstart ((List.range used).foldl setBit zeroBlock))

/-- `din.addrs[a]`, set to a new block if it is 0. -/
def newAddr (m : Image) (din : Fs.Dinode) (a : Fin 13) : Image × Fs.Dinode :=
  if din.addrs a = 0 then
    ({ m with freeblock := m.freeblock + 1 }, din.setAddr a m.freeblock)
  else (m, din)

/-- `indirect[j]`, set to a new block if it is 0. -/
def newEntry (m : Image) (din : Fs.Dinode) (j : Nat) : Except Stop (Nat × Image × Fs.Dinode) := do
  let indirect ← rsect m (din.addrs (Fin.last 12))
  if word indirect j = 0 then
    let buf := setWord indirect j m.freeblock
    .ok (word buf j, wsect { m with freeblock := m.freeblock + 1 } (din.addrs (Fin.last 12)) buf,
      din)
  else .ok (word indirect j, m, din)

/-- The block `x` that block `fbn` of the file is to go to. -/
def blockFor (m : Image) (din : Fs.Dinode) (fbn : Nat) : Except Stop (Nat × Image × Fs.Dinode) :=
  if h : fbn < 12 then
    match newAddr m din (Fin.castSucc ⟨fbn, h⟩) with
    | (m, din) => .ok (din.addrs (Fin.castSucc ⟨fbn, h⟩), m, din)
  else
    match newAddr m din (Fin.last 12) with
    | (m, din) => newEntry m din (fbn - 12)

/-- The loop of `iappend`. -/
def iappendLoop : Nat → Image → Fs.Dinode → Nat → List UInt8 → Except Stop (Image × Fs.Dinode × Nat)
  | 0, m, din, off, _ => .ok (m, din, off)
  | fuel + 1, m, din, off, p =>
    if p = [] then .ok (m, din, off)
    else if 268 ≤ off / 1024 then .error .assertion
    else do
      let (x, m, din) ← blockFor m din (off / 1024)
      let n1 := min p.length ((off / 1024 + 1) * 1024 - off)
      let buf ← rsect m x
      iappendLoop fuel (wsect m x (Block.write buf (off - off / 1024 * 1024) (p.take n1))) din
        (off + n1) (p.drop n1)

/-- `iappend`. -/
def iappend (m : Image) (inum : Nat) (p : List UInt8) : Except Stop Image := do
  let din ← rinode m inum
  let (m, din, off) ← iappendLoop p.length m din din.size p
  winode m inum { din with size := off }

/-- The bytes of a `struct dirent`. -/
def dirent (inum : Nat) (name : List UInt8) : List UInt8 :=
  [UInt8.ofNat inum, UInt8.ofNat (inum / 256)] ++ name ++ List.replicate (14 - name.length) 0

/-- An argument: the path, and what `read` returns until the end, unless `open` fails. -/
structure Arg where
  path : List UInt8
  /-- The path is a string. -/
  noNul : 0 ∉ path
  reads : Option (List (List UInt8))

/-- `argv[i]` without `user/`. -/
def Arg.shortname (a : Arg) : List UInt8 :=
  if (ascii "user/").isPrefixOf a.path then a.path.drop 5 else a.path

/-- The name in the root directory. -/
def Arg.name (a : Arg) : List UInt8 :=
  if a.shortname.head? = some 95 then a.shortname.drop 1 else a.shortname

/-- The body of the loop over the arguments. -/
def addFile (m : Image) (a : Arg) : Except Stop Image :=
  if 47 ∈ a.shortname then .error .assertion
  else
    match a.reads with
    | none => .error (.die a.path)
    | some reads =>
      if 14 < a.name.length then .error .assertion
      else do
        let (inum, m) ← ialloc m tFile
        let m ← iappend m Fs.rootIno (dirent inum a.name)
        reads.foldlM (fun m buf => iappend m inum buf) m

/-- The superblock as it is written. -/
def sbBlock : Block :=
  [sb.magic, sb.size, sb.nblocks, sb.ninodes, sb.nlog, sb.logstart, sb.inodestart,
    sb.bmapstart].zipIdx.foldl (fun b w => setWord b w.2 w.1) zeroBlock

/-- The end of `main`: the size of the root directory, and the bitmap. -/
def finish (m : Image) (rootino : Nat) : Except Stop Image := do
  let din ← rinode m rootino
  let m ← winode m rootino { din with size := (din.size / 1024 + 1) * 1024 }
  balloc m m.freeblock

/-- `main`. -/
def main (args : List Arg) : Except Stop Image := do
  let m : Image := (List.range fsSize).foldl (fun m i => wsect m i zeroBlock)
    { blocks := fun _ => zeroBlock, nsect := 0, freeinode := 1, freeblock := nmeta }
  let m := wsect m 1 sbBlock
  let (rootino, m) ← ialloc m tDir
  if rootino ≠ Fs.rootIno then .error .assertion
  else do
    let m ← iappend m rootino (dirent rootino (ascii "."))
    let m ← iappend m rootino (dirent rootino (ascii ".."))
    let m ← args.foldlM addFile m
    finish m rootino

end Xv6Paging.Mkfs
