import Xv6Paging.Proof.Break
import Xv6Paging.Proof.Contents

/-!
# When memory is full

`try_kalloc_or_replace` evicts one page and tries again, once. It gets a frame if
the one page it looks at, the oldest on record, is mapped and can be given up, and
with nobody else returning memory only then. Whether the process has other pages
that could go does not matter, and pages that are not on record (the stack `kexec`
maps, whatever `vmfault` or `growproc` mapped) are never looked at.
-/

namespace Xv6Paging.Proof

open Xv6Paging Lib

/-! ## Room on the disk -/

/-- The disk has the blocks from `off` on, `c` of them, for a file of this size. -/
def HasBlocks (full : Nat → Bool) (asked size off c : Nat) : Prop :=
  ∀ i < c, off + 1024 * i < size ∨ full (asked + (i - (size - off + 1023) / 1024)) = false

/-- `writei`'s loop gets through exactly when the disk has the blocks. -/
theorem writeiLoop_all (full : Nat → Bool) (src : Nat → UInt8) {n : Nat} :
    ∀ (c fuel asked : Nat) (ip : Inode) (tot off : Nat), off % 1024 = 0 → n = tot + 1024 * c →
      c < fuel → ((writeiLoop full src fuel asked ip tot off n).1 = n ↔
        HasBlocks full asked ip.size off c) := by
  intro c
  induction c with
  | zero =>
    intro fuel asked ip tot off _ hn hfuel
    obtain ⟨fuel, rfl⟩ := Nat.exists_eq_succ_of_ne_zero (Nat.ne_of_gt hfuel)
    rw [writeiLoop, if_pos (by omega)]
    exact ⟨fun _ i hi => by omega, fun _ => by omega⟩
  | succ c ih =>
    intro fuel asked ip tot off hoff hn hfuel
    obtain ⟨fuel, rfl⟩ := Nat.exists_eq_succ_of_ne_zero (Nat.ne_of_gt (Nat.lt_of_le_of_lt
      (Nat.zero_le _) hfuel))
    have hblock : off / bSize * bSize = off := by unfold bSize; omega
    have hm : min (n - tot) (bSize - off % bSize) = 1024 := by unfold bSize; omega
    rw [writeiLoop, if_neg (by omega)]
    dsimp only
    rw [hblock, hm]
    by_cases hsize : off < ip.size
    · -- the block is there already
      simp only [hsize, decide_true, Bool.true_or, if_true]
      rw [ih fuel asked (ip.blit src tot off 1024) (tot + 1024) (off + 1024) (by omega) (by omega)
        (by omega), blit_size]
      constructor
      · intro h i hi
        rcases i with _ | i
        · exact Or.inl (by omega)
        · rcases h i (by omega) with hlt | hno
          · exact Or.inl (by omega)
          · refine Or.inr ?_
            rw [show i + 1 - (ip.size - off + 1023) / 1024 =
              i - (ip.size - (off + 1024) + 1023) / 1024 by omega]
            exact hno
      · intro h i hi
        rcases h (i + 1) (by omega) with hlt | hno
        · exact Or.inl (by omega)
        · by_cases hlt : off + 1024 + 1024 * i < ip.size
          · exact Or.inl hlt
          · refine Or.inr ?_
            rw [show i - (ip.size - (off + 1024) + 1023) / 1024 =
              i + 1 - (ip.size - off + 1023) / 1024 by omega]
            exact hno
    · have hzero : (ip.size - off + 1023) / 1024 = 0 := by omega
      have hzero' : (ip.size - (off + 1024) + 1023) / 1024 = 0 := by omega
      simp only [hsize, decide_false, Bool.false_or, Bool.false_eq_true, if_false]
      cases hfull : full asked with
      | true =>
        simp only [Bool.not_true, Bool.false_eq_true, if_false]
        constructor
        · intro h
          omega
        · intro h
          rcases h 0 (by omega) with hlt | hno
          · omega
          · rw [hzero] at hno
            simp [hfull] at hno
      | false =>
        simp only [Bool.not_false, if_true]
        rw [ih fuel (asked + 1) (ip.blit src tot off 1024) (tot + 1024) (off + 1024) (by omega)
          (by omega) (by omega), blit_size]
        unfold HasBlocks
        rw [hzero, hzero']
        constructor
        · intro h i hi
          rcases i with _ | i
          · exact Or.inr hfull
          · rcases h i (by omega) with hlt | hno
            · omega
            · refine Or.inr ?_
              rw [show asked + (i + 1 - 0) = asked + 1 + (i - 0) by omega]
              exact hno
        · intro h i hi
          rcases h (i + 1) (by omega) with hlt | hno
          · omega
          · refine Or.inr ?_
            rw [show asked + 1 + (i - 0) = asked + (i + 1 - 0) by omega]
            exact hno

/-- One more page at `off` fits into the file and onto the disk. -/
structure PageFits (d : Disk) (ip : Inode) (off : Nat) : Prop where
  /-- The file has no hole below it. -/
  reached : off ≤ ip.size
  /-- It ends below `MAXFILE` blocks. -/
  end_le : off + 4096 ≤ maxFile * bSize
  blocks : HasBlocks d.full d.asked ip.size off 4

theorem writei_page_iff (d : Disk) (ip : Inode) (src : Nat → UInt8) {off : Nat}
    (hal : off % 1024 = 0) (hsmall : off + 4096 < 2 ^ 32) :
    (writei d.full d.asked ip src off 4096).1 = 4096 ↔ PageFits d ip off := by
  have hu : toUint (off + 4096) = off + 4096 := toUint_eq hsmall
  unfold writei
  rw [hu]
  split
  · rename_i hout
    exact ⟨fun h => by simp at h, fun h => by have := h.reached; omega⟩
  · rename_i hin
    split
    · rename_i hlong
      exact ⟨fun h => by simp at h, fun h => by have := h.end_le; omega⟩
    · rename_i hfits
      have hloop := writeiLoop_all d.full src (n := 4096) 4 4096 d.asked ip 0 off hal (by omega)
        (by omega)
      split
      rename_i tot ip' asked' hrun
      rw [hrun] at hloop
      constructor
      · intro h
        have htot : (tot : Int) = 4096 := h
        exact ⟨by omega, by omega, hloop.mp (show tot = 4096 by omega)⟩
      · intro h
        have htot : tot = 4096 := hloop.mpr h.blocks
        show (tot : Int) = 4096
        omega

/-- The file `proc_swapout_page` writes to: the one there is, or the one it makes. -/
def swapTarget (d : Disk) (p : Proc) : Option Inode :=
  match p.swapfile with
  | some ip => some ip
  | none => if d.filealloc d.creates then d.kcreate d.creates else none

/-- One more page can be swapped out: there is a file, a free slot, and room at the slot. -/
def SwapRoom (d : Disk) (p : Proc) : Prop :=
  ∃ ip slot, swapTarget d p = some ip ∧ freeSlot p = some slot ∧ PageFits d ip (slot.val * 4096)

theorem swapoutTo_iff {d : Disk} {p : Proc} {ip : Inode} {va : Nat} {src : Page} :
    0 ≤ (swapoutTo d p ip va src).1 ↔
      ∃ slot, freeSlot p = some slot ∧ PageFits d ip (slot.val * 4096) := by
  unfold swapoutTo
  rcases hfree : freeSlot p with _ | slot
  · simp
  · have hslot : slot.val < 1024 := slot.isLt
    have hfits : (writei d.full d.asked ip (fun i => src (pgOff i)) (slot.val * 4096) 4096).1 =
      4096 ↔ PageFits d ip (slot.val * 4096) :=
      writei_page_iff d ip _ (by omega) (by omega)
    dsimp only
    split
    · rename_i hn
      constructor
      · intro h
        simp at h
      · rintro ⟨s, hs, hpage⟩
        cases hs
        exact absurd (hfits.mpr hpage) hn
    · rename_i hn
      constructor
      · intro _
        exact ⟨slot, rfl, hfits.mp (not_not.mp hn)⟩
      · intro _
        exact Int.natCast_nonneg slot.val

/-- **A page can be swapped out exactly when there is room for it.** -/
theorem procSwapoutPage_iff {d d' : Disk} {p p' : Proc} {va : Nat} {src : Page} {r : Int}
    (h : procSwapoutPage d p va src = (r, d', p')) : 0 ≤ r ↔ SwapRoom d p := by
  rw [show r = (procSwapoutPage d p va src).1 by rw [h]]
  unfold procSwapoutPage swapfileCreate SwapRoom swapTarget
  rcases hfile : p.swapfile with _ | ip
  · dsimp only
    rcases hmake : d.kcreate d.creates with _ | ip
    · simp
    · cases halloc : d.filealloc d.creates with
      | false => simp
      | true =>
        simp only [if_true, Option.some.injEq, exists_and_left, exists_eq_left']
        -- making the file asks the disk for nothing
        refine swapoutTo_iff.trans (exists_congr fun slot => and_congr Iff.rfl ?_)
        exact ⟨fun h => ⟨h.reached, h.end_le, h.blocks⟩, fun h => ⟨h.reached, h.end_le, h.blocks⟩⟩
  · dsimp only
    rw [hfile]
    simp only [Option.some.injEq, exists_and_left, exists_eq_left']
    exact swapoutTo_iff

/-! ## One page goes -/

/-- The oldest page on record is mapped, and clean or can be swapped out. -/
def OldestCanGo (k : Kernel) : Prop :=
  ∃ i, (k.p.memstat.pages i).state = .resident ∧
    (∀ j, (k.p.memstat.pages j).state = .resident → ¬ Before k.p.memstat j i) ∧
    (k.p.pagetable.pte (k.p.memstat.pages i).va).v = true ∧
    ((k.p.memstat.pages i).isDirty = false ∨ SwapRoom k.disk k.p)

/-- There is only one oldest page. -/
theorem oldest_unique {m : MemStat} (hm : MemOk m) {i j : Fin maxPagesInfo}
    (hi : (m.pages i).state = .resident) (hj : (m.pages j).state = .resident)
    (hij : ¬ Before m i j) (hji : ¬ Before m j i) : i = j := by
  refine hm.live_inj (resident_live hi) (resident_live hj) ?_
  unfold Before at hij hji
  omega

/-- The one the search returns is it. -/
theorem OldestCanGo.victim {k : Kernel} (h : OldestCanGo k) (hm : MemOk k.p.memstat)
    {i : Fin maxPagesInfo} (hi : selectVictimFifoIndex k.p.memstat = some i) :
    (k.p.pagetable.pte (k.p.memstat.pages i).va).v = true ∧
      ((k.p.memstat.pages i).isDirty = false ∨ SwapRoom k.disk k.p) := by
  obtain ⟨j, hj, hleast, hv, hgo⟩ := h
  have hij := oldest_unique hm (selectVictim_resident hi) hj
    (hleast i (selectVictim_resident hi)) (selectVictim_least hi hj)
  rw [hij]
  exact ⟨hv, hgo⟩

/-- `try_kalloc_or_replace` returns a frame and does not kill the process. -/
def Succeeds (k : Kernel) : Prop :=
  ∃ f k', tryKallocOrReplace k = (some f, k') ∧ k'.p.killed = k.p.killed

/-- A page given back is there for the next call, unless another process takes it first. -/
theorem kalloc_kfree {km : Kmem} {f : Nat} (h : km.others km.calls ≠ .drained) :
    (kalloc (kfree km f)).1 = some f := by
  have hothers : (kfree km f).others (kfree km f).calls = km.others km.calls := rfl
  unfold kalloc
  rw [hothers]
  cases ho : km.others km.calls with
  | idle => rfl
  | drained => exact absurd ho h
  | returned => rfl

theorem kalloc_empty {km : Kmem} (hempty : km.freelist = []) (h : km.others km.calls = .idle) :
    (kalloc km).1 = none := by
  unfold kalloc
  rw [h, hempty]

theorem kalloc_calls {km km' : Kmem} (h : kalloc km = (none, km')) :
    km' = { km with calls := km.calls + 1 } := by
  unfold kalloc at h
  dsimp only at h
  split at h <;> simp only [Prod.mk.injEq, reduceCtorEq, false_and, true_and] at h
  all_goals exact h.symm

/-- What an eviction leaves for the second call. -/
theorem Evicts.frame {k k' : Kernel} {i : Fin maxPagesInfo} (he : Evicts k i true k') :
    ((k.p.pagetable.pte (k.p.memstat.pages i).va).v = false ∧ k'.kmem = k.kmem) ∨
      ((k.p.pagetable.pte (k.p.memstat.pages i).va).v = true ∧
        ((k.p.memstat.pages i).isDirty = false ∨ SwapRoom k.disk k.p) ∧
        ∃ f, k'.kmem = kfree k.kmem f) := by
  cases he with
  | stale hv _ hk' => exact Or.inl ⟨hv, by rw [hk']⟩
  | dropped hv hclean _ hk' => exact Or.inr ⟨hv, Or.inl hclean, _, by rw [hk']; rfl⟩
  | refused r d q _ _ _ _ _ hb _ => simp at hb
  | sent s d q hv _ hout _ _ hk' =>
    refine Or.inr ⟨hv, Or.inr ?_, _, by rw [hk']; rfl⟩
    exact (procSwapoutPage_iff hout).mp (Int.natCast_nonneg _)

/-- An eviction fails only for want of room for a dirty page. -/
theorem Evicts.no_room {k k' : Kernel} {i : Fin maxPagesInfo} (he : Evicts k i false k') :
    (k.p.memstat.pages i).isDirty = true ∧ ¬ SwapRoom k.disk k.p := by
  cases he with
  | stale _ hb _ => simp at hb
  | dropped _ _ hb _ => simp at hb
  | refused r d q _ hdirty hout hneg _ _ _ =>
    refine ⟨hdirty, fun hroom => ?_⟩
    have hok := (procSwapoutPage_iff hout).mpr hroom
    omega
  | sent _ _ _ _ _ _ _ hb _ => simp at hb

/--
**When memory is full, a process gets a frame if the oldest of its pages on record
can go**: if no other process takes the frame that becomes free. It gets one only
then, if no other process gives one back.
-/
theorem memfull_succeeds_iff {k : Kernel} (h : Reachable k) (hfull : (kalloc k.kmem).1 = none)
    (hnext : k.kmem.others (k.kmem.calls + 1) ≠ .drained) :
    (OldestCanGo k → Succeeds k) ∧
      (k.kmem.freelist = [] → k.kmem.others (k.kmem.calls + 1) = .idle → Succeeds k →
        OldestCanGo k) := by
  obtain ⟨S, hs⟩ := reachable_spaceInv h
  obtain ⟨⟨r, k'⟩, ht⟩ : ∃ out, tryKallocOrReplace k = out := ⟨_, rfl⟩
  have fails : r = none → ¬ Succeeds k := by
    rintro hr ⟨f, k₁, ht', _⟩
    rw [ht, hr] at ht'
    simp at ht'
  cases tryKalloc_room hs.mem ht with
  | had hk =>
    rw [hk] at hfull
    simp at hfull
  | nobody _ hnone =>
    refine ⟨fun hgo => ?_, fun _ _ hsuc => absurd hsuc (fails rfl)⟩
    obtain ⟨i, hi, _⟩ := hgo
    exact absurd hi (selectVictim_none hnone i)
  | @stuck km i k₁ hk hi he =>
    refine ⟨fun hgo => ?_, fun _ _ hsuc => absurd hsuc (fails rfl)⟩
    obtain ⟨hdirty, hfull'⟩ : (k.p.memstat.pages i).isDirty = true ∧ ¬ SwapRoom k.disk k.p :=
      he.no_room
    obtain ⟨_, hclean | hroom⟩ := hgo.victim hs.mem hi
    · simp [hdirty] at hclean
    · exact absurd hroom hfull'
  | @made km km' i k₁ r hk hi he hk₁ =>
    have hkm := kalloc_calls hk
    have hkilled : k₁.p.killed = k.p.killed := he.killed
    rcases he.frame with ⟨hv, hmem⟩ | ⟨hv, hgo, f, hmem⟩
    · -- the entry was stale and nothing was freed
      have hmem' : k₁.kmem = km := hmem
      refine ⟨fun hgo => ?_, fun hempty hidle hsuc => ?_⟩
      · have hv' := (hgo.victim hs.mem hi).1
        rw [show (k.p.pagetable.pte (k.p.memstat.pages i).va).v = false from hv] at hv'
        simp at hv'
      · refine absurd hsuc (fails ?_)
        have hnone : (kalloc km).1 = none :=
          kalloc_empty (by rw [hkm]; exact hempty) (by rw [hkm]; exact hidle)
        rw [hmem'] at hk₁
        rw [hk₁] at hnone
        exact hnone
    · have hsome : (kalloc (kfree km f)).1 = some f := kalloc_kfree (by rw [hkm]; exact hnext)
      have hmem' : k₁.kmem = kfree km f := hmem
      rw [hmem'] at hk₁
      rw [hk₁] at hsome
      have hr : r = some f := hsome
      refine ⟨fun _ => ⟨f, { k₁ with kmem := km' }, by rw [ht, hr], hkilled⟩, fun _ _ _ => ?_⟩
      exact ⟨i, selectVictim_resident hi, fun j hj => selectVictim_least hi hj, hv, hgo⟩

theorem memfull_succeeds_iff_dirty_page : ∃ k, Reachable k ∧ (kalloc k.kmem).1 = none ∧
    OldestCanGo k ∧ Succeeds k := by
  have hrun : (after (fun _ _ => true) [12] (swapOutRun.take 4)).map (fun k =>
      ((kalloc k.kmem).1.isNone, decide (k.kmem.others (k.kmem.calls + 1) = .drained),
        selectVictimFifoIndex k.p.memstat, (k.p.memstat.pages 0).va, (k.p.pagetable.pte 12288).v,
        decide (0 ≤ (procSwapoutPage k.disk k.p 12288 zeroPage).1))) =
      some (true, false, some 0, 12288, true, true) := by
    decide +kernel
  obtain ⟨k, hk, hfacts⟩ := Option.map_eq_some_iff.mp hrun
  simp only [Prod.mk.injEq, decide_eq_true_eq, decide_eq_false_iff_not, Option.isNone_iff_eq_none]
    at hfacts
  obtain ⟨hfull, hnext, hvictim, hva, hv, hroom⟩ := hfacts
  have hreach : Reachable k := after_reachable (fun _ _ _ => trivial) hk
  have hgo : OldestCanGo k := by
    refine ⟨0, selectVictim_resident hvictim, fun j hj => selectVictim_least hvictim hj, ?_,
      Or.inr ?_⟩
    · rw [hva]; exact hv
    · exact (procSwapoutPage_iff rfl).mp hroom
  exact ⟨k, hreach, hfull, hgo, (memfull_succeeds_iff hreach hfull hnext).1 hgo⟩

/-- A user page below the break that could be given up: clean on record, or with room to swap it
out. -/
def CanGo (k : Kernel) (va : Nat) : Prop :=
  va < k.p.sz ∧ (k.p.pagetable.pte va).v = true ∧ (k.p.pagetable.pte va).perm.u = true ∧
    ((∃ i, Live k.p.memstat i ∧ (k.p.memstat.pages i).va = toUint va ∧
      (k.p.memstat.pages i).isDirty = false) ∨ SwapRoom k.disk k.p)

/-- Right after `kexec` the stack is mapped and could be swapped out, but it is not on record. -/
theorem memfull_can_kill : ¬ ∀ k va, Reachable k → k.p.killed = false → (kalloc k.kmem).1 = none →
    k.kmem.others (k.kmem.calls + 1) ≠ .drained → CanGo k va → Succeeds k := by
  intro hall
  have hrun : (after (fun _ _ => true) [11] [.exec [47] onePage [[65]]]).map (fun k =>
      [!k.p.killed, (kalloc k.kmem).1.isNone,
        !decide (k.kmem.others (k.kmem.calls + 1) = .drained), decide (8192 < k.p.sz),
        (k.p.pagetable.pte 8192).v, (k.p.pagetable.pte 8192).perm.u,
        decide (0 ≤ (procSwapoutPage k.disk k.p 8192 zeroPage).1),
        (tryKallocOrReplace k).1.isNone]) = some (List.replicate 8 true) := by
    decide +kernel
  obtain ⟨k, hk, hfacts⟩ := Option.map_eq_some_iff.mp hrun
  simp only [List.replicate, List.cons.injEq, Bool.not_eq_true', decide_eq_true_eq,
    decide_eq_false_iff_not, Option.isNone_iff_eq_none] at hfacts
  obtain ⟨hlive, hfull, hnext, hsz, hv, hu, hroom, hnone, _⟩ := hfacts
  have hreach : Reachable k := after_reachable (fun _ _ _ => trivial) hk
  obtain ⟨f, k', ht, _⟩ := hall k 8192 hreach hlive hfull hnext
    ⟨hsz, hv, hu, Or.inr ((procSwapoutPage_iff rfl).mp hroom)⟩
  rw [ht] at hnone
  simp at hnone

end Xv6Paging.Proof
