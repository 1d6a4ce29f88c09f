import Xv6Paging.Kernel.System
import Xv6Paging.Lib.Machine

/-!
# Replaying a run

A run given as a list of inputs can be evaluated, with a condition checked before every
step, and what it arrives at is a reachable state in the sense of the model.

The machine below is the smallest that shows anything: a free list of sixty
frames, a disk with room, and executables put together from their headers.
-/

namespace Xv6Paging.Proof

open Xv6Paging Lib

/-- The state after a step that returns. -/
def next (k : Kernel) (op : Op) : Option Kernel := (step k op).toOption.map Prod.snd

theorem next_some {k k' : Kernel} {op : Op} (h : next k op = some k') :
    ∃ o, step k op = .ok (o, k') := by
  unfold next at h
  cases hs : step k op with
  | error => rw [hs] at h; cases h
  | ok r => rw [hs] at h; cases h; exact ⟨r.1, rfl⟩

/-- **A replayed run is a run of the model.** -/
theorem replay_reachable {C : Kernel → Op → Prop} {allowed : Kernel → Op → Bool}
    (hC : ∀ k op, allowed k op = true → C k op) {ops : List Op} {k k' : Kernel}
    (hk : ReachableVia C k) (h : replay next allowed k ops = some k') : ReachableVia C k' := by
  refine replay_keeps (fun k op k' hk hop h => ?_) hk h
  obtain ⟨o, hs⟩ := next_some h
  exact .step hk (hC k op hop) hs

/-! ## A machine -/

/-- The allocator at boot; frame 0 is the trampoline, and `drained` are the failing calls. -/
def bootKmem (drained : List Nat) : Kmem :=
  ⟨fun n => if n ∈ drained then .drained else .idle, 0, List.range' 1 60, 61, fun _ => zeroPage⟩

theorem bootKmem_ok (drained : List Nat) : (bootKmem drained).Ok := by
  refine ⟨List.nodup_range', fun f hf => ?_⟩
  have := List.mem_range'_1.mp hf
  simp only [bootKmem]
  omega

/-- A disk with room for everything. -/
def bootDisk : Disk := ⟨fun _ => false, 0, fun _ => some ⟨0, fun _ => 0⟩, fun _ => true, 0⟩

/-- The first process, should the machine have come up. -/
def bootKernel (drained : List Nat) : Option Kernel :=
  match allocproc (bootKmem drained) 1 with
  | .ok (some p, km) => some ⟨km, bootDisk, p, 2⟩
  | _ => none

theorem bootKernel_boot {drained : List Nat} {k : Kernel} (h : bootKernel drained = some k) :
    Boot k := by
  have htramp : ¬ (bootKmem drained).Free trampolineFrame := by
    rintro (hf | hf)
    · have := List.mem_range'_1.mp hf
      simp [trampolineFrame] at this
    · simp [bootKmem, trampolineFrame] at hf
  unfold bootKernel at h
  split at h
  · rename_i p km ha
    have hpid : p.pid = 1 := by
      unfold allocproc at ha
      split at ha
      · simp at ha
      · obtain ⟨⟨pt, km₁⟩, _, hrest⟩ := bind_eq_ok.mp ha
        cases pt with
        | none => simp at hrest
        | some pt =>
          simp only [Except.ok.injEq, Prod.mk.injEq, Option.some.injEq] at hrest
          rw [← hrest.1]
          rfl
    cases h
    exact ⟨bootKmem drained, bootKmem_ok drained, htramp, by rw [hpid]; exact ha⟩
  · simp at h

/-- The state after a run on the machine whose `kalloc` fails at the calls `drained`. -/
def after (allowed : Kernel → Op → Bool) (drained : List Nat) (ops : List Op) : Option Kernel :=
  (bootKernel drained).bind fun k => replay next allowed k ops

theorem after_reachable {C : Kernel → Op → Prop} {allowed : Kernel → Op → Bool}
    (hC : ∀ k op, allowed k op = true → C k op) {drained : List Nat} {ops : List Op} {k : Kernel}
    (h : after allowed drained ops = some k) : ReachableVia C k := by
  obtain ⟨k₀, hboot, hrun⟩ := Option.bind_eq_some_iff.mp h
  exact replay_reachable hC (.boot (bootKernel_boot hboot)) hrun

/-- A number in `n` little-endian bytes. -/
def bytesLE (x n : Nat) : List UInt8 := (List.range n).map fun i => UInt8.ofNat (x / 256 ^ i)

/-- An ELF header announcing `phnum` program headers right behind it. -/
def elfHeader (phnum : Nat) : List UInt8 :=
  bytesLE elfMagic 4 ++ List.replicate 28 0 ++ bytesLE 64 8 ++ List.replicate 16 0 ++
    bytesLE phnum 2 ++ List.replicate 6 0

/-- A `PT_LOAD` program header. -/
def loadHeader (flags off vaddr filesz memsz : Nat) : List UInt8 :=
  bytesLE 1 4 ++ bytesLE flags 4 ++ bytesLE off 8 ++ bytesLE vaddr 8 ++ List.replicate 8 0 ++
    bytesLE filesz 8 ++ bytesLE memsz 8 ++ bytesLE 4096 8

/-- A file with these bytes. -/
def fileOf (bytes : List UInt8) : Inode := ⟨bytes.length, fun i => bytes.getD i 0⟩

end Xv6Paging.Proof
