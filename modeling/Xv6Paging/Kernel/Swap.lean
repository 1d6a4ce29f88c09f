import Xv6Paging.Kernel.Proc

/-!
# The swap file

`swap.c`: a process swaps pages out to a file of its own, one page-sized slot each.
Slots are taken lowest first and found again by address.

The rest of the file system enters through three questions, answered call by
call: whether the disk has another block for `writei`, what `kcreate` found or
made under the process's `/pgswp` name (an inode left by an earlier process keeps
its bytes), and whether `filealloc` had a free slot.
-/

namespace Xv6Paging

/-- The answers of the file system, and how many of each have been used up. -/
structure Disk where
  full : Nat → Bool
  asked : Nat
  kcreate : Nat → Option Inode
  filealloc : Nat → Bool
  creates : Nat

/-- `swapfile_create`; the Boolean is whether it returned 0. -/
def swapfileCreate (d : Disk) (p : Proc) : Bool × Disk × Proc :=
  match p.swapfile with
  | some _ => (true, d, p)
  | none =>
    let d' := { d with creates := d.creates + 1 }
    match d.kcreate d.creates with
    | none => (false, d', p)
    | some ip =>
      if d.filealloc d.creates then (true, d', { p with swapfile := some ip })
      else (false, d', p)

/-- The first free slot. -/
def freeSlot (p : Proc) : Option (Fin maxSwapPages) := Fin.find? fun i => !(p.swapTable i).used

/-- The first slot in use for the page address `va0`. -/
def slotOf (p : Proc) (va0 : Nat) : Option (Fin maxSwapPages) :=
  Fin.find? fun i => (p.swapTable i).used && (p.swapTable i).va == va0

/-- The first `memstat` entry at `va0` becomes `state` with this slot, clean. -/
def memstatSwap (p : Proc) (va0 : Nat) (state : PageState) (slot : Int) : Proc :=
  match memstatVa p.memstat va0 with
  | none => p
  | some i =>
    p.setPage i { p.memstat.pages i with state := state, swapSlot := slot, isDirty := false }

/-- The part of `proc_swapout_page` after the swap file is known to exist. -/
def swapoutTo (d : Disk) (p : Proc) (ip : Inode) (va : Nat) (src : Page) : Int × Disk × Proc :=
  match freeSlot p with
  | none => (-1, d, p)
  | some slot =>
    match writei d.full d.asked ip (fun i => src (pgOff i)) (slot.val * 4096) 4096 with
    | (n, ip, asked) =>
      let d := { d with asked := asked }
      let p := { p with swapfile := some ip }
      if n ≠ 4096 then (-1, d, p)
      else
        let p := { p with
          swapTable := Function.update p.swapTable slot ⟨toUint (pgRoundDown va), slot.val, true⟩
          numSwappedPages := p.numSwappedPages + 1 }
        (slot.val, d, memstatSwap p (pgRoundDown va) .swapped slot.val)

/-- `proc_swapout_page`; `src` is what the frame `pa` holds. -/
def procSwapoutPage (d : Disk) (p : Proc) (va : Nat) (src : Page) : Int × Disk × Proc :=
  match swapfileCreate d p with
  | (false, d, p) => (-1, d, p)
  | (true, d, p) =>
    match p.swapfile with
    | none => (-1, d, p)
    | some ip => swapoutTo d p ip va src

/-- `swapin_page`; `dst` is what the buffer held before, and the page what it holds after. -/
def swapinPage (p : Proc) (va : Nat) (dst : Page) : Int × Page × Proc :=
  match p.swapfile with
  | none => (-1, dst, p)
  | some ip =>
    let va0 := pgRoundDown va
    match slotOf p va0 with
    | none => (-1, dst, p)
    | some slot =>
      match readi ip dst (slot.val * 4096) 4096 with
      | (n, mem) =>
        if n ≠ 4096 then (-1, mem, p)
        else
          let p := { p with
            swapTable := Function.update p.swapTable slot ⟨0, -1, false⟩
            numSwappedPages :=
              if 0 < p.numSwappedPages then p.numSwappedPages - 1 else p.numSwappedPages
            swappedPages := if 0 < p.swappedPages then p.swappedPages - 1 else p.swappedPages
            residentPages := p.residentPages + 1
            swapinCount := p.swapinCount + 1 }
          (slot.val, mem, memstatSwap p va0 .resident (-1))

end Xv6Paging
