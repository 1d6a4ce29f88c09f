import Xv6Paging.Kernel.Log
import Xv6Paging.Lib.Linked
import Xv6Paging.Lib.Machine

/-!
# The buffer cache

`bio.c`: the `NBUF` buffers, the ring that links them through `bcache.head`, and the
functions that hand them out and take them back, each of which runs under
`bcache.lock`. The ring's head is the node `none`.

A process that has a buffer may read the block into it, change its bytes and write
it to the disk. Who holds which sleep-lock is not modelled; what is counted is how
many references to a buffer have been handed out and not been given back, because
`brelse` and `bunpin` rely on their caller for one.
-/

namespace Xv6Paging

open Lib

/-- `NBUF`. -/
abbrev nbuf : Nat := 30

/-- `struct buf`, but for its links. -/
structure Buf where
  valid : Bool
  dev : Nat
  blockno : Nat
  refcnt : Nat
  data : Block

/-- `bcache`. -/
structure Bcache where
  buf : Fin nbuf → Buf
  next : Links (Fin nbuf)
  prev : Links (Fin nbuf)

namespace Bcache

/-- Change one buffer. -/
def set (c : Bcache) (b : Fin nbuf) (f : Buf → Buf) : Bcache :=
  { c with buf := Function.update c.buf b (f (c.buf b)) }

/-- `b->refcnt++`. -/
def incr (c : Bcache) (b : Fin nbuf) : Bcache :=
  c.set b fun f => { f with refcnt := (f.refcnt + 1) % 2 ^ 32 }

/-- `b->refcnt--`. -/
def decr (c : Bcache) (b : Fin nbuf) : Bcache :=
  c.set b fun f => { f with refcnt := (f.refcnt + (2 ^ 32 - 1)) % 2 ^ 32 }

/-- Link `b` in right behind the head. -/
def linkFront (c : Bcache) (b : Fin nbuf) : Bcache :=
  { c with next := (pushFront c.next c.prev b).1, prev := (pushFront c.next c.prev b).2 }

/-- Take `b` out of the ring. -/
def linkOut (c : Bcache) (b : Fin nbuf) : Bcache :=
  { c with next := (unlink c.next c.prev b).1, prev := (unlink c.next c.prev b).2 }

/-- `binit`, on the zeroes the kernel's data segment starts with. -/
def binit : Bcache :=
  (List.finRange nbuf).foldl linkFront
    { buf := fun _ => { valid := false, dev := 0, blockno := 0, refcnt := 0, data := fun _ => 0 }
      next := fun _ => none
      prev := fun _ => none }

/-- `bget`. `none` is its panic. -/
def bget (c : Bcache) (dev blockno : Nat) : Option (Fin nbuf × Bcache) :=
  match seek c.next (fun b => (c.buf b).dev == dev && (c.buf b).blockno == blockno) (nbuf + 1)
      (c.next none) with
  | some b => some (b, c.incr b)
  | none =>
    match seek c.prev (fun b => (c.buf b).refcnt == 0) (nbuf + 1) (c.prev none) with
    | some b => some (b, c.set b fun f =>
      { f with dev := dev, blockno := blockno, valid := false, refcnt := 1 })
    | none => none

/-- What `bread` does to a buffer that is not valid yet. -/
def fill (disk : Nat → Blocks) (c : Bcache) (b : Fin nbuf) : Bcache :=
  c.set b fun f => { f with data := disk f.dev f.blockno, valid := true }

/-- `bread`. -/
def bread (disk : Nat → Blocks) (c : Bcache) (dev blockno : Nat) : Option (Fin nbuf × Bcache) :=
  match c.bget dev blockno with
  | some (b, c) => some (b, if (c.buf b).valid then c else c.fill disk b)
  | none => none

/-- What `bwrite` makes of the disks. -/
def flush (disk : Nat → Blocks) (c : Bcache) (b : Fin nbuf) : Nat → Blocks :=
  let f := c.buf b
  Function.update disk f.dev (Function.update (disk f.dev) f.blockno f.data)

/-- `brelse`. -/
def brelse (c : Bcache) (b : Fin nbuf) : Bcache :=
  if ((c.decr b).buf b).refcnt = 0 then ((c.decr b).linkOut b).linkFront b else c.decr b

/-- `bpin`. -/
def bpin (c : Bcache) (b : Fin nbuf) : Bcache := c.incr b

/-- `bunpin`. -/
def bunpin (c : Bcache) (b : Fin nbuf) : Bcache := c.decr b

end Bcache

/-- The cache, the disks behind it and the references handed out. -/
structure BcacheSys where
  cache : Bcache
  disk : Nat → Blocks
  held : Fin nbuf → Nat

/-- What can be done with the cache. -/
inductive BcacheAct where
  | bget (dev blockno : Nat)
  | fill (b : Fin nbuf)
  | store (b : Fin nbuf) (data : Block)
  | bwrite (b : Fin nbuf)
  | brelse (b : Fin nbuf)
  | bpin (b : Fin nbuf)
  | bunpin (b : Fin nbuf)

namespace BcacheSys

/-- After `binit`. -/
def start (disk : Nat → Blocks) : BcacheSys :=
  { cache := Bcache.binit, disk := disk, held := fun _ => 0 }

/-- One more reference to `b`. -/
def take (s : BcacheSys) (b : Fin nbuf) (c : Bcache) : BcacheSys :=
  { s with cache := c, held := Function.update s.held b (s.held b + 1) }

/-- One reference to `b` less, if there is one. -/
def give (s : BcacheSys) (b : Fin nbuf) (c : Bcache) : Option BcacheSys :=
  if 0 < s.held b then
    some { s with cache := c, held := Function.update s.held b (s.held b - 1) }
  else none

/-- One step. `fill` is the second half of `bread`, `store` a change to the bytes of a
buffer, `bwrite` the write of a buffer to its block. -/
def step (s : BcacheSys) : BcacheAct → Option BcacheSys
  | .bget dev blockno =>
    match s.cache.bget dev blockno with
    | some (b, c) => some (s.take b c)
    | none => none
  | .fill b =>
    if 0 < s.held b ∧ (s.cache.buf b).valid = false then
      some { s with cache := s.cache.fill s.disk b }
    else none
  | .store b data =>
    if 0 < s.held b then
      some { s with cache := s.cache.set b fun f => { f with data := data } }
    else none
  | .bwrite b =>
    if 0 < s.held b then
      some { s with disk := s.cache.flush s.disk b }
    else none
  | .brelse b => s.give b (s.cache.brelse b)
  | .bpin b => some (s.take b (s.cache.bpin b))
  | .bunpin b => s.give b (s.cache.bunpin b)

end BcacheSys

end Xv6Paging
