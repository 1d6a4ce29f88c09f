import Xv6Paging.Kernel.Log
import Xv6Paging.Kernel.Vm
import Xv6Paging.Lib.Bits

/-!
# The file system on its blocks

`fs.c` down to the bytes: the free bitmap, the inodes on the disk, the block numbers in an
inode and in its indirect block, the entries of a directory.

`BSIZE` is 1024, `NDIRECT` 12, `NINDIRECT` 256 and so `MAXFILE` 268; a block has `IPB` = 16 inodes
or `BPB` = 8192 bits; `DIRSIZ` is 14.

`Disk.data` is what `bread` returns, whether it comes from the cache, the log or the disk;
`Disk.logged` collects the blocks `log_write` was called for. `log_write` panics when the log is
full. That sets `Disk.tooBig`, which nothing clears: a call has returned if it leaves the flag down,
and what the functions go on to compute after a panic happens in no kernel. One process is at
work: the locks are left out. Offsets and sizes are `uint`s, and sums of them wrap.
-/

namespace Xv6Paging.Fs

open Lib

/-- What `fs.c` panics with. -/
inductive FsPanic where
  | invalidFileSystem
  | freeingFreeBlock
  | ilockNoType
  | bmapOutOfRange
  | dirlookupNotDir
  | dirlookupRead
  | dirlinkRead
  deriving DecidableEq, Repr

/-! ## The format -/

/-- `struct superblock`. -/
structure Superblock where
  magic : Nat
  size : Nat
  nblocks : Nat
  ninodes : Nat
  nlog : Nat
  logstart : Nat
  inodestart : Nat
  bmapstart : Nat
  deriving DecidableEq, Repr

/-- `FSMAGIC`. -/
abbrev fsMagic : Nat := 0x10203040

/-- `ROOTINO`. -/
abbrev rootIno : Nat := 1

/-- `T_DIR`. -/
abbrev tDir : Nat := 1

/-- `T_FILE`. -/
abbrev tFile : Nat := 2

/-- `IBLOCK(i, sb)`. -/
def Superblock.iblock (sb : Superblock) (i : Nat) : Nat := i / 16 + sb.inodestart

/-- `BBLOCK(b, sb)`. -/
def Superblock.bblock (sb : Superblock) (b : Nat) : Nat := b / 8192 + sb.bmapstart

/-- `struct dinode`; an in-memory inode has the same fields. -/
@[ext] structure Dinode where
  type : Nat
  major : Nat
  minor : Nat
  nlink : Nat
  size : Nat
  addrs : Fin 13 → Nat

/-- A `struct dinode` is sixteen words; the four shorts come first, two in a word. -/
def Dinode.word (ip : Dinode) (w : Nat) : Nat :=
  if w = 0 then ip.type % 65536 + 65536 * (ip.major % 65536)
  else if w = 1 then ip.minor % 65536 + 65536 * (ip.nlink % 65536)
  else if w = 2 then ip.size
  else if h : w - 3 < 13 then ip.addrs ⟨w - 3, h⟩ else 0

/-- `*((struct dinode*)buf + j)`. -/
def getDinode (b : Block) (j : Nat) : Dinode where
  type := word b (16 * j) % 65536
  major := word b (16 * j) / 65536
  minor := word b (16 * j + 1) % 65536
  nlink := word b (16 * j + 1) / 65536
  size := word b (16 * j + 2)
  addrs := fun a => word b (16 * j + 3 + a)

/-- `*((struct dinode*)buf + j) = ip`. -/
def putDinode (b : Block) (j : Nat) (ip : Dinode) : Block := fun k =>
  if k.val / 64 = j then UInt8.ofNat (ip.word (k.val % 64 / 4) / 256 ^ (k.val % 4)) else b k

/-- `memset(buf, 0, BSIZE)`. -/
def zeroBlock : Block := fun _ => 0

/-- `n` bytes of a block from an offset on. -/
def Block.read (b : Block) (ofs n : Nat) : List UInt8 :=
  (List.range n).map fun i => UInt8.ofNat (byteAt b (ofs + i))

/-- Copy bytes into a block. -/
def Block.write (b : Block) (ofs : Nat) (src : List UInt8) : Block := fun k =>
  if ofs ≤ k.val then (src[k.val - ofs]?).getD (b k) else b k

/-- `struct dirent`. -/
structure Dirent where
  inum : Nat
  name : List UInt8
  deriving DecidableEq

/-- The sixteen bytes of a `struct dirent`. -/
def Dirent.ofBytes (bytes : List UInt8) : Dirent where
  inum := (bytes.getD 0 0).toNat + 256 * (bytes.getD 1 0).toNat
  name := bytes.drop 2

/-- The other way; `inum` becomes a `ushort`. -/
def Dirent.bytes (de : Dirent) : List UInt8 :=
  [UInt8.ofNat de.inum, UInt8.ofNat (de.inum / 256)] ++ de.name

/-! ## Blocks -/

/-- The blocks as `bread` returns them, and those of the running transaction. -/
structure Disk where
  sb : Superblock
  data : Blocks
  /-- `log.lh.block`. -/
  logged : List Nat
  /-- `log_write` has panicked with "too big a transaction". -/
  tooBig : Bool := false

/-- Change a buffer and `log_write` it. -/
def Disk.logWrite (d : Disk) (b : Nat) (data : Block) : Disk :=
  { d with
    data := Function.update d.data b data
    logged := if b ∈ d.logged then d.logged else d.logged ++ [b]
    tooBig := d.tooBig || decide (logBlocks ≤ d.logged.length) }

/-- `readsb`. -/
def readsb (data : Blocks) : Superblock where
  magic := word (data 1) 0
  size := word (data 1) 1
  nblocks := word (data 1) 2
  ninodes := word (data 1) 3
  nlog := word (data 1) 4
  logstart := word (data 1) 5
  inodestart := word (data 1) 6
  bmapstart := word (data 1) 7

/-- `fsinit`, up to the check of the magic number. -/
def mount (data : Blocks) : Except FsPanic Disk :=
  if (readsb data).magic ≠ fsMagic then .error .invalidFileSystem
  else .ok { sb := readsb data, data := data, logged := [] }

/-- The bit of block `b` in the free bitmap. -/
def Disk.inUse (d : Disk) (b : Nat) : Bool := bit (d.data (d.sb.bblock b)) (b % 8192)

/-- `bzero`. -/
def bzero (d : Disk) (b : Nat) : Disk := d.logWrite b zeroBlock

/-- The inner loop of `balloc`, over the bits of one bitmap block. -/
def freeFrom (d : Disk) (b : Nat) : Option Nat :=
  ((List.range (min 8192 (d.sb.size - b))).find?
    fun bi => !bit (d.data (d.sb.bblock b)) bi).map (b + ·)

/-- `balloc`: 0 if no block is free. -/
def balloc (d : Disk) : Nat × Disk :=
  match (List.range ((d.sb.size + 8192 - 1) / 8192)).findSome? fun i => freeFrom d (8192 * i) with
  | none => (0, d)
  | some b =>
    (b, bzero (d.logWrite (d.sb.bblock b) (setBit (d.data (d.sb.bblock b)) (b % 8192))) b)

/-- `bfree`. -/
def bfree (d : Disk) (b : Nat) : Except FsPanic Disk :=
  if d.inUse b then .ok (d.logWrite (d.sb.bblock b) (clearBit (d.data (d.sb.bblock b)) (b % 8192)))
  else .error .freeingFreeBlock

/-! ## Inodes -/

/-- The inode on the disk. -/
def Disk.dinode (d : Disk) (inum : Nat) : Dinode :=
  getDinode (d.data (d.sb.iblock inum)) (inum % 16)

/-- What `ilock` reads of an inode that is not in memory. -/
def ilock (d : Disk) (inum : Nat) : Except FsPanic Dinode :=
  if (d.dinode inum).type = 0 then .error .ilockNoType else .ok (d.dinode inum)

/-- `iupdate`. -/
def iupdate (d : Disk) (inum : Nat) (ip : Dinode) : Disk :=
  d.logWrite (d.sb.iblock inum) (putDinode (d.data (d.sb.iblock inum)) (inum % 16) ip)

/-- `ip->addrs[a] = addr`. -/
def Dinode.setAddr (ip : Dinode) (a : Fin 13) (addr : Nat) : Dinode :=
  { ip with addrs := Function.update ip.addrs a addr }

/-- `ip->addrs[a]`, with a new block if there is none. -/
def bmapAddr (d : Disk) (ip : Dinode) (a : Fin 13) : Nat × Dinode × Disk :=
  if ip.addrs a = 0 then
    match balloc d with
    | (addr, d) => if addr = 0 then (0, ip, d) else (addr, ip.setAddr a addr, d)
  else (ip.addrs a, ip, d)

/-- Entry `bn` of the indirect block `ind`, with a new block if there is none. -/
def bmapEntry (d : Disk) (ind bn : Nat) : Nat × Disk :=
  if word (d.data ind) bn = 0 then
    match balloc d with
    | (addr, d) =>
      if addr = 0 then (0, d) else (addr, d.logWrite ind (setWord (d.data ind) bn addr))
  else (word (d.data ind) bn, d)

/-- `bmap`. -/
def bmap (d : Disk) (ip : Dinode) (bn : Nat) : Except FsPanic (Nat × Dinode × Disk) :=
  if h : bn < 12 then .ok (bmapAddr d ip ⟨bn, Nat.lt_succ_of_lt h⟩)
  else if bn - 12 < 256 then
    match bmapAddr d ip (Fin.last 12) with
    | (ind, ip, d) =>
      if ind = 0 then .ok (0, ip, d)
      else .ok ((bmapEntry d ind (bn - 12)).1, ip, (bmapEntry d ind (bn - 12)).2)
  else .error .bmapOutOfRange

/-- The loop of `readi`; `n` is what is left to read. -/
def readiLoop : Nat → Disk → Dinode → Nat → Nat → List UInt8 →
    Except FsPanic (List UInt8 × Dinode × Disk)
  | 0, d, ip, _, _, dst => .ok (dst, ip, d)
  | fuel + 1, d, ip, off, n, dst =>
    if n = 0 then .ok (dst, ip, d)
    else do
      let (addr, ip, d) ← bmap d ip (off / 1024)
      if addr = 0 then .ok (dst, ip, d)
      else
        let m := min n (1024 - off % 1024)
        readiLoop fuel d ip (off + m) (n - m) (dst ++ Block.read (d.data addr) (off % 1024) m)

/-- How many bytes `readi(ip, 0, dst, off, n)` goes for. -/
def Dinode.readable (ip : Dinode) (off n : Nat) : Nat :=
  if ip.size < off ∨ toUint (off + n) < off then 0
  else if ip.size < toUint (off + n) then ip.size - off
  else n

/-- `readi` into a kernel buffer: the bytes it copies. -/
def readi (d : Disk) (ip : Dinode) (off n : Nat) : Except FsPanic (List UInt8 × Dinode × Disk) :=
  readiLoop (ip.readable off n) d ip off (ip.readable off n) []

/-! ## Writing -/

/-- What the loop of `writei` leaves. -/
structure Written (σ : Type) where
  tot : Nat
  d : Disk
  ip : Dinode
  s : σ
  /-- The buffer that was changed without `log_write`: its number, and what its block holds. -/
  torn : Option (Nat × Block)

/--
The loop of `writei`; `n` is what is left to write. `either_copyin` is a function of a state `σ`:
the bytes it copies into the buffer, and whether these are all it was asked for.
-/
def writeiLoop {σ : Type} (eitherCopyin : σ → Nat → Nat → Bool × List UInt8 × σ) :
    Nat → Disk → Dinode → σ → Nat → Nat → Nat → Nat → Except FsPanic (Written σ)
  | 0, d, ip, s, _, _, _, tot => .ok { tot := tot, d := d, ip := ip, s := s, torn := none }
  | fuel + 1, d, ip, s, off, src, n, tot =>
    if n = 0 then .ok { tot := tot, d := d, ip := ip, s := s, torn := none }
    else do
      let (addr, ip, d) ← bmap d ip (off / 1024)
      if addr = 0 then .ok { tot := tot, d := d, ip := ip, s := s, torn := none }
      else
        let m := min n (1024 - off % 1024)
        match eitherCopyin s src m with
        | (true, bytes, s) =>
          writeiLoop eitherCopyin fuel
            (d.logWrite addr (Block.write (d.data addr) (off % 1024) bytes)) ip s
            (off + m) (src + m) (n - m) (tot + m)
        | (false, bytes, s) =>
          let data := Function.update d.data addr (Block.write (d.data addr) (off % 1024) bytes)
          .ok { tot := tot, d := { d with data := data }, ip := ip, s := s
                torn := some (addr, d.data addr) }

/-- `writei`; `none` is -1. -/
def writei {σ : Type} (eitherCopyin : σ → Nat → Nat → Bool × List UInt8 × σ) (d : Disk) (inum : Nat)
    (ip : Dinode) (s : σ) (off src n : Nat) : Except FsPanic (Option (Written σ)) :=
  if ip.size < off ∨ toUint (off + n) < off then .ok none
  else if 268 * 1024 < toUint (off + n) then .ok none
  else do
    let w ← writeiLoop eitherCopyin n d ip s off src n 0
    let ip := { w.ip with size := max w.ip.size (off + w.tot) }
    .ok (some { w with ip := ip, d := iupdate w.d inum ip })

/-- `either_copyin` from a kernel buffer; the address counts from its start. -/
def memmove (src : List UInt8) (_ : Unit) (i m : Nat) : Bool × List UInt8 × Unit :=
  (true, (src.drop i).take m, ())

/-- `either_copyin` from user memory; `copyin` does not panic. -/
def copyinUser (k : Kernel) (src m : Nat) : Bool × List UInt8 × Kernel :=
  match copyin k src m with
  | .ok r => r
  | .error _ => (false, [], k)

/-- The blocks once the buffer that `writei` left changed is out of the cache. A buffer that is in
the log is pinned, and is written as it is. -/
def Written.evicted {σ : Type} (w : Written σ) : Disk :=
  match w.torn with
  | none => w.d
  | some (b, old) =>
    if b ∈ w.d.logged then w.d else { w.d with data := Function.update w.d.data b old }

/-- `bfree` of the blocks in the direct addresses. -/
def itruncDirect : List (Fin 13) → Disk → Dinode → Except FsPanic (Dinode × Disk)
  | [], d, ip => .ok (ip, d)
  | a :: as, d, ip =>
    if ip.addrs a = 0 then itruncDirect as d ip
    else do
      let d ← bfree d (ip.addrs a)
      itruncDirect as d (ip.setAddr a 0)

/-- `bfree` of the blocks in the indirect block `ind`. -/
def itruncEntries (ind : Nat) : List Nat → Disk → Except FsPanic Disk
  | [], d => .ok d
  | j :: js, d =>
    if word (d.data ind) j = 0 then itruncEntries ind js d
    else do
      let d ← bfree d (word (d.data ind) j)
      itruncEntries ind js d

/-- `bfree` of the indirect block and what is in it. -/
def itruncIndirect (d : Disk) (ip : Dinode) : Except FsPanic (Dinode × Disk) :=
  if ip.addrs (Fin.last 12) = 0 then .ok (ip, d)
  else do
    let d ← itruncEntries (ip.addrs (Fin.last 12)) (List.range 256) d
    let d ← bfree d (ip.addrs (Fin.last 12))
    .ok (ip.setAddr (Fin.last 12) 0, d)

/-- `itrunc`. -/
def itrunc (d : Disk) (inum : Nat) (ip : Dinode) : Except FsPanic (Dinode × Disk) := do
  let (ip, d) ← itruncDirect ((List.finRange 12).map Fin.castSucc) d ip
  let (ip, d) ← itruncIndirect d ip
  let ip := { ip with size := 0 }
  .ok (ip, iupdate d inum ip)

/-- `ialloc`, up to `iget`: the inode it takes. -/
def ialloc (d : Disk) (type : Nat) : Option Nat × Disk :=
  match (List.range d.sb.ninodes).find? fun n => decide (1 ≤ n) && (d.dinode n).type == 0 with
  | none => (none, d)
  | some n =>
    (some n, iupdate d n
      { type := type, major := 0, minor := 0, nlink := 0, size := 0, addrs := fun _ => 0 })

/-! ## Directories -/

/-- `strncpy`, from a string that goes on with a NUL. -/
def strncpy : List UInt8 → Nat → List UInt8
  | _, 0 => []
  | t, n + 1 => if t.headD 0 = 0 then List.replicate (n + 1) 0 else t.headD 0 :: strncpy t.tail n

/-- `strncmp`, of strings that go on with a NUL. -/
def strncmp : List UInt8 → List UInt8 → Nat → Int
  | _, _, 0 => 0
  | p, q, n + 1 =>
    if p.headD 0 ≠ 0 ∧ p.headD 0 = q.headD 0 then strncmp p.tail q.tail n
    else (p.headD 0).toNat - (q.headD 0).toNat

/-- `namecmp`. -/
def namecmp (s t : List UInt8) : Int := strncmp s t 14

/-- The loop of `dirlookup`. -/
def dirlookupLoop (name : List UInt8) : Nat → Disk → Dinode → Nat →
    Except FsPanic (Option (Nat × Nat) × Dinode × Disk)
  | 0, d, dp, _ => .ok (none, dp, d)
  | fuel + 1, d, dp, off =>
    if off < dp.size then do
      let (bytes, dp, d) ← readi d dp off 16
      if bytes.length ≠ 16 then .error .dirlookupRead
      else
        let de := Dirent.ofBytes bytes
        if de.inum ≠ 0 ∧ namecmp name de.name = 0 then .ok (some (de.inum, off), dp, d)
        else dirlookupLoop name fuel d dp (off + 16)
    else .ok (none, dp, d)

/-- `dirlookup`: the inode number and the offset of the entry. -/
def dirlookup (d : Disk) (dp : Dinode) (name : List UInt8) :
    Except FsPanic (Option (Nat × Nat) × Dinode × Disk) :=
  if dp.type ≠ tDir then .error .dirlookupNotDir else dirlookupLoop name (dp.size / 16 + 1) d dp 0

/-- The loop of `dirlink`, looking for an empty entry. -/
def dirlinkLoop : Nat → Disk → Dinode → Nat → Except FsPanic (Nat × Dinode × Disk)
  | 0, d, dp, off => .ok (off, dp, d)
  | fuel + 1, d, dp, off =>
    if off < dp.size then do
      let (bytes, dp, d) ← readi d dp off 16
      if bytes.length ≠ 16 then .error .dirlinkRead
      else if (Dirent.ofBytes bytes).inum = 0 then .ok (off, dp, d)
      else dirlinkLoop fuel d dp (off + 16)
    else .ok (off, dp, d)

/-- `writei` of an entry: whether all of it was written. -/
def writeDirent (d : Disk) (dnum : Nat) (dp : Dinode) (off : Nat) (de : Dirent) :
    Except FsPanic (Bool × Dinode × Disk) := do
  match ← writei (memmove de.bytes) d dnum dp () off 0 16 with
  | none => .ok (false, dp, d)
  | some w => .ok (w.tot == 16, w.ip, w.d)

/-- `dirlink` for the directory `dp`, which is inode `dnum`. -/
def dirlink (d : Disk) (dnum : Nat) (dp : Dinode) (name : List UInt8) (inum : Nat) :
    Except FsPanic (Bool × Dinode × Disk) := do
  let (found, dp, d) ← dirlookup d dp name
  match found with
  | some _ => .ok (false, dp, d)
  | none => do
    let (off, dp, d) ← dirlinkLoop (dp.size / 16 + 1) d dp 0
    writeDirent d dnum dp off { inum := inum, name := strncpy name 14 }

/-- The entry `sys_unlink` writes over the one it removes. -/
def noDirent : Dirent := { inum := 0, name := List.replicate 14 0 }

end Xv6Paging.Fs
