import Xv6Paging.Kernel.Log
import Xv6Paging.Lib.Machine
import Xv6Paging.Lib.Ring

/-!
# The disk driver

`virtio_disk.c`, and the device as far as the driver can tell: it takes chains of descriptors off
one ring, carries them out in any order, and reports them on another ring. Both rings have
free-running 16-bit counters. A section under `vdisk_lock` is one step, and so is one round of the
loop of `virtio_disk_intr`.

The buffer cache has one buffer for a block, so a buffer is named by its block number; the process
that has it locked calls `virtio_disk_rw`. The device does what it is told, and a chain that it
cannot read counts as a panic.
-/

namespace Xv6Paging.Virtio

open Lib

/-- `NUM`. -/
abbrev num : Nat := 8

instance : NeZero num := ⟨by decide⟩

/-- What a descriptor points to. -/
inductive Addr where
  | null
  | op (i : Fin num)
  | data (b : Nat)
  | status (i : Fin num)

/-- `struct virtq_desc`. -/
structure Desc where
  addr : Addr
  len : Nat
  flags : Nat
  next : Nat

/-- `struct virtio_blk_req`; the type is whether it writes. -/
structure BlkReq where
  write : Bool
  sector : Nat

/-- `disk.info[]`. -/
structure Info where
  b : Option Nat
  status : Nat

/-- `struct buf`, as far as the driver uses it. -/
structure DiskBuf where
  data : Block
  disk : Bool

/-- `struct disk`; `availIdx` is `disk.avail->idx`, `deviceIdx` is `disk.used->idx`. -/
structure Driver where
  desc : Fin num → Desc
  availRing : Fin num → Nat
  availIdx : Nat
  usedRing : Fin num → Nat
  deviceIdx : Nat
  free : Fin num → Bool
  usedIdx : Nat
  info : Fin num → Info
  ops : Fin num → BlkReq

/-- The panics of the driver; the last two are a null pointer and a chain the device cannot read. -/
inductive DiskPanic where
  | freeDesc1 | freeDesc2 | intrStatus | noBuf | badChain
  deriving DecidableEq, Repr

/-- A call of `virtio_disk_rw` for a buffer, with the three descriptors of `idx[]`. -/
structure Call where
  b : Nat
  write : Bool
  i : Fin num
  j : Fin num
  k : Fin num

/-- The descriptors. -/
abbrev Call.descs (c : Call) : List (Fin num) := [c.i, c.j, c.k]

namespace Driver

/-- `virtio_disk_init`. -/
def init : Driver where
  desc _ := ⟨.null, 0, 0, 0⟩
  availRing _ := 0
  availIdx := 0
  usedRing _ := 0
  deviceIdx := 0
  free _ := true
  usedIdx := 0
  info _ := ⟨none, 0⟩
  ops _ := ⟨false, 0⟩

/-- `alloc_desc`. -/
def allocDesc (d : Driver) : Option (Fin num × Driver) :=
  ((List.finRange num).find? d.free).map fun i =>
    (i, { d with free := Function.update d.free i false })

/-- `free_desc`. -/
def freeDesc (d : Driver) (i : Nat) : Except DiskPanic Driver :=
  if h : i < num then
    if d.free ⟨i, h⟩ then .error .freeDesc2
    else .ok { d with
      desc := Function.update d.desc ⟨i, h⟩ ⟨.null, 0, 0, 0⟩
      free := Function.update d.free ⟨i, h⟩ true }
  else .error .freeDesc1

/-- `free_chain`. -/
def freeChain : Nat → Driver → Nat → Except DiskPanic Driver
  | 0, d, _ => .ok d
  | fuel + 1, d, i =>
    if h : i < num then
      let e := d.desc ⟨i, h⟩
      (d.freeDesc i).bind fun d => if e.flags % 2 = 1 then freeChain fuel d e.next else .ok d
    else .error .freeDesc1

/-- The loop of `alloc3_desc`, which has got `idx` so far and is to get `n` more. -/
def allocDescs : Nat → List (Fin num) → Driver → Except DiskPanic (Option (List (Fin num)) × Driver)
  | 0, idx, d => .ok (some idx, d)
  | n + 1, idx, d =>
    match d.allocDesc with
    | some (i, d) => allocDescs n (idx ++ [i]) d
    | none => (idx.foldlM (fun d j => freeDesc d j.val) d).map fun d => (none, d)

/-- What `virtio_disk_rw` writes for a request, up to the notification. -/
def submit (d : Driver) (c : Call) : Driver :=
  { d with
    ops := Function.update d.ops c.i ⟨c.write, c.b * 2 % 2 ^ 32⟩
    desc := Function.update (Function.update (Function.update d.desc c.i ⟨.op c.i, 16, 1, c.j.val⟩)
      c.j ⟨.data c.b, 1024, (if c.write then 0 else 2) + 1, c.k.val⟩) c.k ⟨.status c.i, 1, 2, 0⟩
    info := Function.update d.info c.i ⟨some c.b, 255⟩
    availRing := Function.update d.availRing (Fin.ofNat num d.availIdx) c.i.val
    availIdx := (d.availIdx + 1) % 2 ^ 16 }

end Driver

/-- A request, as the device reads it from a chain. -/
structure Request where
  id : Nat
  b : Nat
  write : Bool
  sector : Nat
  status : Fin num

/-- Follow a chain of three descriptors; their lengths and flags have to be what the device
expects. -/
def Driver.chain (d : Driver) (id : Nat) : Option Request :=
  if h : id < num then
    let x := d.desc ⟨id, h⟩
    if hj : x.next < num then
      let y := d.desc ⟨x.next, hj⟩
      if hk : y.next < num then
        let z := d.desc ⟨y.next, hk⟩
        match x.addr, y.addr, z.addr with
        | .op i, .data b, .status s =>
          if x.len = 16 ∧ x.flags = 1 ∧ y.len = 1024 ∧
            y.flags = (if (d.ops i).write then 1 else 3) ∧ z.len = 1 ∧ z.flags = 2 then
            some ⟨id, b, (d.ops i).write, (d.ops i).sector, s⟩
          else none
        | _, _, _ => none
      else none
    else none
  else none

/-- Where a process is in `virtio_disk_rw`: it sleeps for descriptors, or for the device. -/
inductive Pc where
  | idle
  | wants (b : Nat) (write : Bool)
  | waits (c : Call)

namespace Pc

/-- It was called for this buffer. -/
def on : Pc → Nat → Prop
  | .idle, _ => False
  | .wants c _, b => c = b
  | .waits c, b => c.b = b

instance : ∀ (pc : Pc) (b : Nat), Decidable (pc.on b)
  | .idle, _ => .isFalse id
  | .wants c _, b => decEq c b
  | .waits c, b => decEq c.b b

/-- The descriptors it has. -/
def descs : Pc → List (Fin num)
  | .waits c => c.descs
  | _ => []

end Pc

/-- The driver, the buffers, the disk, what the device has taken, and the processes. -/
structure Sys (P : Type) where
  driver : Driver
  buf : Nat → DiskBuf
  medium : Blocks
  lastAvail : Nat
  taken : List Request
  pc : P → Pc
  panicked : Option DiskPanic

inductive DiskAct (P : Type) where
  /-- The holder of a buffer changes its bytes, or the cache gives the block another buffer. -/
  | store (b : Nat) (data : Block)
  | rw (p : P) (b : Nat) (write : Bool)
  | retry (p : P)
  /-- The device takes a chain. -/
  | fetch
  /-- The device carries out a request it has taken, and reports it. -/
  | complete (n : Nat)
  | intr
  | finish (p : P)

namespace Sys

variable {P : Type} [DecidableEq P]

/-- The request goes to the device, and its process sleeps. -/
def offer (s : Sys P) (d : Driver) (p : P) (c : Call) : Sys P :=
  { s with
    driver := d.submit c
    buf := Function.update s.buf c.b { s.buf c.b with disk := true }
    pc := Function.update s.pc p (.waits c) }

/-- A round of the first loop of `virtio_disk_rw`, and what follows it. -/
def tryRw (s : Sys P) (p : P) (b : Nat) (write : Bool) : Sys P :=
  match s.driver.allocDescs 3 [] with
  | .error e => { s with panicked := some e }
  | .ok (some [i, j, k], d) => s.offer d p ⟨b, write, i, j, k⟩
  | .ok (_, d) => { s with driver := d, pc := Function.update s.pc p (.wants b write) }

/-- The device has a request more. -/
def take (s : Sys P) (r : Request) : Sys P :=
  { s with taken := s.taken ++ [r], lastAvail := (s.lastAvail + 1) % 2 ^ 16 }

/-- The transfer of a request. -/
def transfer (s : Sys P) (r : Request) : Sys P :=
  if r.write then { s with medium := Function.update s.medium (r.sector / 2) (s.buf r.b).data }
  else
    { s with buf := Function.update s.buf r.b { s.buf r.b with data := s.medium (r.sector / 2) } }

/-- Its status, and its entry in the used ring. -/
def report (s : Sys P) (n : Nat) (r : Request) : Sys P :=
  { s with
    taken := s.taken.eraseIdx n
    driver := { s.driver with
      info := Function.update s.driver.info r.status { s.driver.info r.status with status := 0 }
      usedRing := Function.update s.driver.usedRing (Fin.ofNat num s.driver.deviceIdx) r.id
      deviceIdx := (s.driver.deviceIdx + 1) % 2 ^ 16 } }

/-- The driver is told that a request is done. -/
def seen (s : Sys P) (b : Nat) : Sys P :=
  { s with
    buf := Function.update s.buf b { s.buf b with disk := false }
    driver := { s.driver with usedIdx := (s.driver.usedIdx + 1) % 2 ^ 16 } }

/-- A round of the loop of `virtio_disk_intr`. -/
def intr (s : Sys P) : Sys P :=
  let id := s.driver.usedRing (Fin.ofNat num s.driver.usedIdx)
  if h : id < num then
    if (s.driver.info ⟨id, h⟩).status ≠ 0 then { s with panicked := some .intrStatus }
    else
      match (s.driver.info ⟨id, h⟩).b with
      | none => { s with panicked := some .noBuf }
      | some b => s.seen b
  else { s with panicked := some .noBuf }

/-- The end of `virtio_disk_rw`. -/
def finish (s : Sys P) (p : P) (i : Fin num) : Sys P :=
  let d := { s.driver with
    info := Function.update s.driver.info i { s.driver.info i with b := none } }
  match d.freeChain (num + 1) i.val with
  | .error e => { s with panicked := some e }
  | .ok d => { s with driver := d, pc := Function.update s.pc p .idle }

/-- One step; nothing where a process would sleep. -/
def step (s : Sys P) : DiskAct P → Option (Sys P)
  | .store b data => some { s with buf := Function.update s.buf b { s.buf b with data := data } }
  | .rw p b write =>
    match s.pc p with
    | .idle => some (s.tryRw p b write)
    | _ => none
  | .retry p =>
    match s.pc p with
    | .wants b write => some (s.tryRw p b write)
    | _ => none
  | .fetch =>
    if s.lastAvail = s.driver.availIdx then none
    else
      match s.driver.chain (s.driver.availRing (Fin.ofNat num s.lastAvail)) with
      | none => some { s with panicked := some .badChain }
      | some r => some (s.take r)
  | .complete n =>
    match s.taken[n]? with
    | none => none
    | some r => some ((s.transfer r).report n r)
  | .intr => if s.driver.usedIdx = s.driver.deviceIdx then none else some s.intr
  | .finish p =>
    match s.pc p with
    | .waits c => if (s.buf c.b).disk then none else some (s.finish p c.i)
    | _ => none

/-- What the buffer cache sees to: a buffer is used by the process that has locked it, and a block
number is that of a block of the disk. -/
def Allowed (s : Sys P) : DiskAct P → Prop
  | .store b _ => ∀ q, ¬ (s.pc q).on b
  | .rw _ b _ => b < 2 ^ 31 ∧ ∀ q, ¬ (s.pc q).on b
  | _ => True

instance [Fintype P] (s : Sys P) : ∀ a, Decidable (s.Allowed a)
  | .store b _ => inferInstanceAs (Decidable (∀ q, ¬ (s.pc q).on b))
  | .rw _ b _ => inferInstanceAs (Decidable (b < 2 ^ 31 ∧ ∀ q, ¬ (s.pc q).on b))
  | .retry _ | .fetch | .complete _ | .intr | .finish _ => .isTrue trivial

/-- After `virtio_disk_init`. -/
def Start (s : Sys P) : Prop :=
  s.driver = .init ∧ s.lastAvail = 0 ∧ s.taken = [] ∧ (∀ p, s.pc p = .idle) ∧ s.panicked = none

end Sys

end Xv6Paging.Virtio
