import Xv6Paging.Proof.Space
import Xv6Paging.Proof.Memfull

/-!
# What an eviction leaves alone

`try_kalloc_or_replace` finds its victim by index, and then updates the victim's entry
through functions that search the table by address: `proc_swapout_page` takes the first
entry with the address whatever its state, `memstat_mark_swapped` the first in use, or
an unused one if there is none. Both arrive at the victim, because an entry in use is
the first one with its address (`MemOk.first`). So an eviction changes one entry, one
page-table entry and at most one slot, and an eviction that fails changes none.
-/

namespace Xv6Paging.Proof

open Xv6Paging Lib

/-- The page an entry speaks of is mapped. -/
def EntryMapped (k : Kernel) (i : Fin maxPagesInfo) : Prop :=
  (k.p.pagetable.pte (k.p.memstat.pages i).va).v = true

/-- The page is dirty, and `proc_swapout_page` cannot write it out. -/
def SwapoutFails (k : Kernel) (i : Fin maxPagesInfo) : Prop :=
  EntryMapped k i ∧ (k.p.memstat.pages i).isDirty = true ∧
    (procSwapoutPage k.disk k.p (k.p.memstat.pages i).va
      (k.kmem.ram (k.p.pagetable.pte (k.p.memstat.pages i).va).frame)).1 < 0

/-- No page is resident, or the victim cannot be written out. -/
def CannotEvict (k : Kernel) : Prop :=
  (∀ i, (k.p.memstat.pages i).state ≠ .resident) ∨
    ∃ i, selectVictimFifoIndex k.p.memstat = some i ∧ SwapoutFails k i

/-- The process is killed, and its three records of pages are as they were. -/
structure GivesUp (k k' : Kernel) (r : Option Nat) : Prop where
  returned : r = none
  killed : k'.p.killed = true
  pagetable : k'.p.pagetable = k.p.pagetable
  memstat : k'.p.memstat = k.p.memstat
  swapTable : k'.p.swapTable = k.p.swapTable

/-- The victim's entry, its page and at most one slot have changed, and nothing else has. -/
structure OnlyVictim (k k' : Kernel) (r : Option Nat) (i : Fin maxPagesInfo) : Prop where
  entries : ∀ j, j ≠ i → k'.p.memstat.pages j = k.p.memstat.pages j
  /-- A clean page, and one that was not mapped, is forgotten. -/
  forgotten : ¬ (EntryMapped k i ∧ (k.p.memstat.pages i).isDirty = true) →
    k'.p.memstat.pages i = { k.p.memstat.pages i with state := .unmapped, swapSlot := -1 } ∧
      k'.p.swapTable = k.p.swapTable
  /-- A dirty page goes to a slot that was free. -/
  sent : EntryMapped k i ∧ (k.p.memstat.pages i).isDirty = true →
    ∃ s, (k.p.swapTable s).used = false ∧
      k'.p.memstat.pages i =
        { k.p.memstat.pages i with state := .swapped, swapSlot := s.val, isDirty := false } ∧
      k'.p.swapTable =
        Function.update k.p.swapTable s ⟨(k.p.memstat.pages i).va, s.val, true⟩
  ptes : ∀ va, va < 2 * maxVA → ¬ va / 4096 = (k.p.memstat.pages i).va / 4096 →
    k'.p.pagetable.pte va = k.p.pagetable.pte va
  kept : ¬ EntryMapped k i → k'.p.pagetable = k.p.pagetable
  cleared : EntryMapped k i → k'.p.pagetable.pte (k.p.memstat.pages i).va = Pte.zero
  /-- The frame that was freed is the one returned, unless another process took it. -/
  frame : EntryMapped k i → k.kmem.others (k.kmem.calls + 1) ≠ .drained →
    r = some (k.p.pagetable.pte (k.p.memstat.pages i).va).frame

/-! ## The page table after the frame is dropped -/

theorem dropFrame_pte {k : Kernel} {i : Fin maxPagesInfo} (hm : MemOk k.p.memstat)
    (hv : EntryMapped k i) {va : Nat} (hva : va < 2 * maxVA) :
    (k.p.pagetable.set (k.p.memstat.pages i).va Pte.zero).pte va =
      if va / 4096 = (k.p.memstat.pages i).va / 4096 then Pte.zero else k.p.pagetable.pte va :=
  pte_set _ (table0_of_valid hv) (lt_maxVA (hm.below_trapframe i)) hva

/-- An eviction that found a page to evict. -/
theorem Evicts.onlyVictim {k k₁ : Kernel} {km km' : Kmem} {i : Fin maxPagesInfo} {r : Option Nat}
    (hm : MemOk k.p.memstat) (hfull : kalloc k.kmem = (none, km))
    (he : Evicts { k with kmem := km } i true k₁) (hr : kalloc k₁.kmem = (r, km')) :
    OnlyVictim k { k₁ with kmem := km' } r i := by
  have hkm := kalloc_calls hfull
  -- nobody else is asked between the `kfree` of the victim's frame and the second `kalloc`
  have hframe : ∀ f, k₁.kmem = kfree km f → k.kmem.others (k.kmem.calls + 1) ≠ .drained →
      r = some f := by
    intro f hf hidle
    have hcalls : km.others km.calls ≠ .drained := by rw [hkm]; exact hidle
    have hpop := kalloc_kfree (f := f) hcalls
    rw [← hf, hr] at hpop
    exact hpop
  cases he with
  | stale hv _ hk₁ =>
    have hnot : ¬ EntryMapped k i := by
      intro hmapped
      rw [EntryMapped, hv] at hmapped
      cases hmapped
    subst hk₁
    exact {
      entries := fun j hj => Function.update_of_ne hj _ _
      forgotten := fun _ => ⟨Function.update_self .., rfl⟩
      sent := fun h => absurd h.1 hnot
      ptes := fun _ _ _ => rfl
      kept := fun _ => rfl
      cleared := fun h => absurd h hnot
      frame := fun h => absurd h hnot }
  | dropped hv hclean _ hk₁ =>
    subst hk₁
    exact {
      entries := fun j hj => Function.update_of_ne hj _ _
      forgotten := fun _ => ⟨Function.update_self .., rfl⟩
      sent := fun h => by
        rw [show (k.p.memstat.pages i).isDirty = false from hclean] at h
        cases h.2
      ptes := fun va hva hne => (dropFrame_pte hm hv hva).trans (if_neg hne)
      kept := fun h => absurd hv h
      cleared := fun _ => (dropFrame_pte hm hv (by
        have := lt_maxVA (hm.below_trapframe i); omega)).trans (if_pos rfl)
      frame := fun _ => hframe _ rfl }
  | refused _ _ _ _ _ _ _ _ hb => cases hb
  | sent s d q hv hdirty _ hs _ hk₁ =>
    subst hk₁
    exact {
      entries := fun j hj => Function.update_of_ne hj _ _
      forgotten := fun h => absurd ⟨hv, hdirty⟩ h
      sent := fun _ => ⟨s, freeSlot_some hs, Function.update_self .., rfl⟩
      ptes := fun va hva hne => (dropFrame_pte hm hv hva).trans (if_neg hne)
      kept := fun h => absurd hv h
      cleared := fun _ => (dropFrame_pte hm hv (by
        have := lt_maxVA (hm.below_trapframe i); omega)).trans (if_pos rfl)
      frame := fun _ => hframe _ rfl }

/-- An eviction that failed. -/
theorem Evicts.givesUp {k k₁ : Kernel} {km : Kmem} {i : Fin maxPagesInfo}
    (he : Evicts { k with kmem := km } i false k₁) : GivesUp k k₁.kill none := by
  cases he with
  | stale _ hb => cases hb
  | dropped _ _ hb => cases hb
  | refused r d q _ _ _ _ hq _ hk₁ =>
    subst hk₁
    refine ⟨rfl, rfl, ?_, ?_, ?_⟩
    all_goals
      rw [hq]
      rfl
  | sent _ _ _ _ _ _ _ hb => cases hb

/-- An eviction fails only where the page has to be written out and is not. -/
theorem Evicts.fails_iff {k k₁ : Kernel} {i : Fin maxPagesInfo} {b : Bool} (he : Evicts k i b k₁) :
    b = false ↔ SwapoutFails k i := by
  unfold SwapoutFails EntryMapped
  cases he with
  | stale hv hb => simp [hb, hv]
  | dropped hv hclean hb => simp [hb, hclean]
  | refused r d q hv hdirty hout hneg _ hb => simp [hb, hv, hdirty, hout, hneg]
  | sent s d q hv hdirty hout _ hb => simp [hb, hv, hdirty, hout]

/--
**Eviction touches only the victim.**

When the first `kalloc` fails, `try_kalloc_or_replace` either gives up, with the page
table, the entries and the slots of the process as they were, or changes what concerns
the victim alone.
-/
theorem eviction_touches_only_victim {k k' : Kernel} {r : Option Nat} (h : Reachable k)
    (hfull : (kalloc k.kmem).1 = none) (ht : tryKallocOrReplace k = (r, k')) :
    (CannotEvict k → GivesUp k k' r) ∧
      (¬ CannotEvict k →
        ∃ i, selectVictimFifoIndex k.p.memstat = some i ∧ OnlyVictim k k' r i) := by
  obtain ⟨S, hok⟩ := reachable_spaceInv h
  cases tryKalloc_room hok.mem ht with
  | had hk => rw [hk] at hfull; cases hfull
  | nobody _ hnone =>
    refine ⟨fun _ => ⟨rfl, rfl, rfl, rfl, rfl⟩, fun hcan => ?_⟩
    exact absurd (.inl fun i => selectVictim_none hnone i) hcan
  | stuck hk hsel he =>
    refine ⟨fun _ => he.givesUp, fun hcan => absurd (.inr ⟨_, hsel, ?_⟩) hcan⟩
    have hfails := he.fails_iff.mp rfl
    rw [kalloc_calls hk] at hfails
    exact hfails
  | made hk hsel he hr =>
    refine ⟨fun hcannot => ?_, fun _ => ⟨_, hsel, he.onlyVictim hok.mem hk hr⟩⟩
    exfalso
    rcases hcannot with hnone | ⟨j, hj, hfails⟩
    · exact hnone _ (selectVictim_resident hsel)
    · rw [hsel] at hj
      cases hj
      rw [kalloc_calls hk] at he
      have hb := he.fails_iff.mpr hfails
      cases hb

theorem eviction_touches_only_victim_dirty_page : ∃ k k' r, Reachable k ∧
    (kalloc k.kmem).1 = none ∧ (k.p.memstat.pages 0).isDirty = true ∧
    tryKallocOrReplace k = (r, k') ∧ OnlyVictim k k' r 0 := by
  have hrun : (after (fun _ _ => true) [12] (swapOutRun.take 4)).map (fun k =>
      ((kalloc k.kmem).1.isNone, selectVictimFifoIndex k.p.memstat, (k.p.memstat.pages 0).va,
        (k.p.memstat.pages 0).isDirty,
        decide (0 ≤ (procSwapoutPage k.disk k.p 12288 zeroPage).1))) =
      some (true, some 0, 12288, true, true) := by
    decide +kernel
  obtain ⟨k, hk, hfacts⟩ := Option.map_eq_some_iff.mp hrun
  simp only [Prod.mk.injEq, decide_eq_true_eq, Option.isNone_iff_eq_none] at hfacts
  obtain ⟨hfull, hvictim, hva, hdirty, hroom⟩ := hfacts
  have hreach : Reachable k := after_reachable (fun _ _ _ => trivial) hk
  have hcan : ¬ CannotEvict k := by
    intro hcannot
    rcases hcannot with hnone | ⟨j, hj, _, _, hneg⟩
    · exact hnone 0 (selectVictim_resident hvictim)
    · rw [hvictim] at hj
      cases hj
      rw [hva] at hneg
      -- whether a page can be written out does not depend on its bytes
      have hfits : SwapRoom k.disk k.p := (procSwapoutPage_iff rfl).mp hroom
      exact absurd hneg (Int.not_lt.mpr ((procSwapoutPage_iff rfl).mpr hfits))
  obtain ⟨i, hi, honly⟩ := (eviction_touches_only_victim hreach hfull rfl).2 hcan
  rw [hvictim] at hi
  cases hi
  exact ⟨k, _, _, hreach, hfull, hdirty, rfl, honly⟩

end Xv6Paging.Proof
