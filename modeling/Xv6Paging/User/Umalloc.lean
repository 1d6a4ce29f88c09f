import Xv6Paging.Kernel.Process
import Xv6Paging.Lib.Machine
import Xv6Paging.Lib.Triple

/-!
# The allocator of user programs

`user/umalloc.c`: a circular list of free blocks in address order, searched first fit from where the
last search stopped. A block begins with a header of 16 bytes and its size is in units of a header.

Memory is what the headers in it hold; all of them lie 16 bytes apart, but for the static `base`,
which is below all memory that comes from `sbrk`. An access at or above the pages of the process
kills it, and a loop that does not end within its fuel gives no result either.
-/

namespace Xv6Paging.Umalloc

open Lib

/-- `union header`. -/
structure Header where
  ptr : Nat
  size : Nat
  deriving DecidableEq, Repr

/-- The program's memory, and its size. -/
structure Heap where
  /-- `&base`. -/
  base : Nat
  /-- `p->sz` at the start of the program. -/
  start : Nat
  /-- `p->sz`. -/
  sz : Nat
  mem : Nat → Header
  freep : Nat

/-- Programs over it. -/
abbrev HeapM (α : Type) : Type := Prog Heap α

/-- The header is on a page of the process. -/
def Heap.Mapped (s : Heap) (p : Nat) : Prop := p + 16 ≤ pgRoundUp s.sz

instance (s : Heap) (p : Nat) : Decidable (s.Mapped p) := inferInstanceAs (Decidable (_ ≤ _))

def Heap.set (s : Heap) (p : Nat) (h : Header) : Heap := { s with mem := Function.update s.mem p h }

/-- `*p`. -/
def load (p : Nat) : HeapM Header := fun s => if s.Mapped p then some (s.mem p, s) else none

/-- `p->s.ptr = v`. -/
def setPtr (p v : Nat) : HeapM Unit := fun s =>
  if s.Mapped p then some ((), s.set p { s.mem p with ptr := v }) else none

/-- `p->s.size = v`. -/
def setSize (p v : Nat) : HeapM Unit := fun s =>
  if s.Mapped p then some ((), s.set p { s.mem p with size := v % 2 ^ 32 }) else none

def setFreep (p : Nat) : HeapM Unit := modify fun s => { s with freep := p }

/-- `p + n` for a `Header *`. -/
def forward (p n : Nat) : Nat := add64 p (16 * n)

/-! ## `sbrk` -/

/-- The pages of physical memory, from `KERNBASE` to `PHYSTOP`. -/
def physPages : Nat := 32768

/-- `sbrk`; `none` is `SBRK_ERROR`. `memory` is whether `kalloc` has a page each time. It has at
most `physPages` for what the process has asked for since its start, as these pages stay in
memory. -/
def sbrk (n : Int) (memory : Bool) : HeapM (Option Nat) := fun s =>
  if 0 < n then
    if trapframeVA < addInt64 s.sz n then some (none, s)
    else if memory ∧ pgRoundUp (addInt64 s.sz n) ≤ pgRoundUp s.start + physPages * 4096 then
      some (some s.sz, { s with sz := addInt64 s.sz n })
    else some (none, s)
  else if n < 0 then
    if s.sz ≤ addInt64 s.sz n then some (some s.sz, s)
    else some (some s.sz, { s with sz := addInt64 s.sz n })
  else some (some s.sz, s)

/-! ## `free`, `morecore` and `malloc` -/

/-- The loop of `free`. -/
def freeLoop (bp : Nat) : Nat → Nat → HeapM Nat
  | 0, _ => failure
  | fuel + 1, p => do
    let h ← load p
    if p < bp ∧ bp < h.ptr then pure p
    else if h.ptr ≤ p ∧ (p < bp ∨ bp < h.ptr) then pure p
    else freeLoop bp fuel h.ptr

/-- `free`, once it has the place: the block joins the next one or points to it. -/
def joinNext (bp p : Nat) : HeapM Unit := do
  let hb ← load bp
  let hp ← load p
  if forward bp hb.size = hp.ptr then do
    let hn ← load hp.ptr
    setSize bp (hb.size + hn.size)
    let hp ← load p
    let hn ← load hp.ptr
    setPtr bp hn.ptr
  else setPtr bp hp.ptr

/-- The block before it joins it or points to it. -/
def joinPrev (bp p : Nat) : HeapM Unit := do
  let hp ← load p
  if forward p hp.size = bp then do
    let hb ← load bp
    setSize p (hp.size + hb.size)
    let hb ← load bp
    setPtr p hb.ptr
  else setPtr p bp

/-- `free`. -/
def free (fuel ap : Nat) : HeapM Unit := do
  let bp := sub64 ap 16
  let s ← get
  let p ← freeLoop bp fuel s.freep
  joinNext bp p
  joinPrev bp p
  setFreep p

/-- `morecore`; 0 is the null pointer. The product is a 64-bit one, and `sbrk` takes an `int`. -/
def morecore (fuel nu : Nat) (memory : Bool) : HeapM Nat := do
  let nu := if nu < 4096 then 4096 else nu
  match ← sbrk (argint (nu * 16 : Nat)) memory with
  | none => pure 0
  | some hp => do
    setSize hp nu
    free fuel (forward hp 1)
    let s ← get
    pure s.freep

/-- A block that is large enough: all of it, or its end. -/
def takeBlock (nunits prevp p : Nat) : HeapM Nat := do
  let h ← load p
  if h.size = nunits then do
    setPtr prevp h.ptr
    setFreep prevp
    pure (forward p 1)
  else do
    setSize p (h.size - nunits)
    let p := forward p (h.size - nunits)
    setSize p nunits
    setFreep prevp
    pure (forward p 1)

/-- The loop of `malloc`. -/
def mallocLoop (nunits : Nat) (memory : Bool) : Nat → Nat → Nat → HeapM Nat
  | 0, _, _ => failure
  | fuel + 1, prevp, p => do
    let h ← load p
    if nunits ≤ h.size then takeBlock nunits prevp p
    else do
      let s ← get
      if p = s.freep then do
        let p ← morecore fuel nunits memory
        if p = 0 then pure 0
        else do
          let h ← load p
          mallocLoop nunits memory fuel p h.ptr
      else mallocLoop nunits memory fuel p h.ptr

/-- `(nbytes + sizeof(Header) - 1)/sizeof(Header) + 1`. -/
def nunits (nbytes : Nat) : Nat := ((nbytes + 16 - 1) / 16 + 1) % 2 ^ 32

/-- `malloc` with the list as `base` alone, if there is none. -/
def initList : HeapM Unit := do
  let s ← get
  if s.freep = 0 then do
    setPtr s.base s.base
    setFreep s.base
    setSize s.base 0
  else pure ()

/-- `malloc`; 0 is the null pointer. -/
def malloc (fuel nbytes : Nat) (memory : Bool) : HeapM Nat := do
  initList
  let s ← get
  let h ← load s.freep
  mallocLoop (nunits nbytes) memory fuel s.freep h.ptr

/-! ## A program that uses it -/

/-- The memory, and the blocks that `malloc` has returned with the sizes asked for. -/
structure Client where
  heap : Heap
  live : List (Nat × Nat)

/-- What the program does. -/
inductive HeapAct where
  | malloc (fuel nbytes : Nat) (memory : Bool)
  | free (fuel ap : Nat)
  /-- Any change to what is in a live block, 16 bytes at a time. -/
  | write (a : Nat) (h : Header)
  deriving DecidableEq, Repr

namespace Client

/-- `a` is in a live block. -/
def Holds (c : Client) (a : Nat) : Prop :=
  ∃ b ∈ c.live, b.1 ≤ a ∧ a < b.1 + b.2 ∧ (a - b.1) % 16 = 0

instance (c : Client) (a : Nat) : Decidable (c.Holds a) :=
  inferInstanceAs (Decidable (∃ b ∈ c.live, _))

/-- One call or store. -/
def step (c : Client) : HeapAct → Option Client
  | .malloc fuel nbytes memory =>
    if nbytes < 2 ^ 32 then
      (Umalloc.malloc fuel nbytes memory c.heap).map fun r =>
        { heap := r.2, live := if r.1 = 0 then c.live else (r.1, nbytes) :: c.live }
    else none
  | .free fuel ap =>
    if ap ∈ c.live.map Prod.fst then
      (Umalloc.free fuel ap c.heap).map fun r =>
        { heap := r.2, live := c.live.filter fun b => b.1 != ap }
    else none
  | .write a h =>
    if c.Holds a ∧ c.heap.Mapped a then some { c with heap := c.heap.set a h } else none

/-- A program that starts: `exec` has rounded its size up to a page, and `base` is below. -/
structure Fresh (c : Client) : Prop where
  base : 0 < c.heap.base
  below : c.heap.base + 16 ≤ c.heap.start
  top : c.heap.start ≤ trapframeVA
  aligned : c.heap.start % 4096 = 0
  size : c.heap.sz = c.heap.start
  freep : c.heap.freep = 0
  live : c.live = []

end Client

end Xv6Paging.Umalloc
