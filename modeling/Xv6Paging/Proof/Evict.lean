import Xv6Paging.Proof.SwapRecords
import Xv6Paging.Proof.Victim

/-!
# Eviction and the swap records

Making room moves at most one page, the oldest resident one, and that page can
only go to the swap file if it was mapped. The second half matters as much as the
first: a handler that has found its page unmapped can rely on eviction not having
swapped out that very page behind its back.
-/

namespace Xv6Paging.Proof

open Xv6Paging

variable {k k' : Kernel} {r : Option Nat}

/-! ## The records of the victim -/

/-- What eviction of entry `i` leaves of the records. -/
structure Evicted (k k' : Kernel) (i : Fin maxPagesInfo) : Prop where
  inv : SwapInv k'.p
  other : ∀ j, j ≠ i → k'.p.memstat.pages j = k.p.memstat.pages j
  addr : (k'.p.memstat.pages i).va = (k.p.memstat.pages i).va
  mapped : (k'.p.memstat.pages i).state = .swapped →
    (k.p.pagetable.pte (k.p.memstat.pages i).va).v = true

/-- The resident entry of the victim becomes unused: no page moves. -/
theorem evicted_forget {i : Fin maxPagesInfo} (h : SwapInv k.p)
    (hi : (k.p.memstat.pages i).state = .resident)
    (hpages : k'.p.memstat.pages = Function.update k.p.memstat.pages i
      { k.p.memstat.pages i with state := .unmapped, swapSlot := -1 })
    (htab : k'.p.swapTable = k.p.swapTable) (hnum : k'.p.numSwappedPages = k.p.numSwappedPages)
    (htot : k'.p.swappedPages = k.p.swappedPages) : Evicted k k' i := by
  have hmem : MemOk k'.p.memstat := by
    have hlive := resident_live hi
    exact (h.mem.withPage_live hlive (e := { k.p.memstat.pages i with
      state := .unmapped, swapSlot := -1 }) rfl).congr hpages
  refine ⟨h.still hmem (fun j hj => ?_) htab hnum htot, fun j hj => ?_, ?_, fun hs => ?_⟩
  · by_cases hji : j = i
    · subst hji
      simp [hpages, hi] at hj
    · simp [hpages, hji]
  · simp [hpages, hj]
  · simp [hpages]
  · simp [hpages] at hs

/-- The victim goes to the swap file. -/
theorem evicted_out {i : Fin maxPagesInfo} {s : Fin maxSwapPages} (h : SwapInv k.p)
    (hi : (k.p.memstat.pages i).state = .resident)
    (hmapped : (k.p.pagetable.pte (k.p.memstat.pages i).va).v = true)
    (hfree : (k.p.swapTable s).used = false)
    (hpages : k'.p.memstat.pages = Function.update k.p.memstat.pages i
      { k.p.memstat.pages i with state := .swapped, swapSlot := s.val, isDirty := false })
    (htab : k'.p.swapTable =
      Function.update k.p.swapTable s ⟨(k.p.memstat.pages i).va, s.val, true⟩)
    (hnum : k'.p.numSwappedPages = k.p.numSwappedPages + 1)
    (htot : k'.p.swappedPages = k.p.swappedPages + 1) : Evicted k k' i := by
  have hlive := resident_live hi
  have hmem : MemOk k'.p.memstat :=
    (h.mem.withPage_live hlive (e := { k.p.memstat.pages i with
      state := .swapped, swapSlot := s.val, isDirty := false }) rfl).congr hpages
  have haddr : (k'.p.memstat.pages i).va = (k.p.memstat.pages i).va := by simp [hpages]
  refine ⟨h.out (i := i) (s := s) hmem (fun j hj => by simp [hpages, hj]) (by simp [hi])
    (by simp [hpages]) (by simp [hpages]) hfree (by rw [haddr]; exact htab) hnum htot,
    fun j hj => by simp [hpages, hj], haddr, fun _ => hmapped⟩

/-- **Eviction keeps the records in agreement**, and swaps out only a mapped page. -/
theorem Evicts.records {i : Fin maxPagesInfo} {b : Bool} (he : Evicts k i b k') (h : SwapInv k.p)
    (hi : (k.p.memstat.pages i).state = .resident) : Evicted k k' i := by
  cases he with
  | stale _ _ hk' =>
    subst hk'
    exact evicted_forget h hi rfl rfl rfl rfl
  | dropped _ _ _ hk' =>
    subst hk'
    exact evicted_forget h hi rfl rfl rfl rfl
  | refused r d q hmapped _ _ _ hq _ hk' =>
    -- only the file may have changed
    subst hk'
    rw [hq]
    exact ⟨h.still h.mem (fun _ _ => ⟨rfl, rfl, rfl⟩) rfl rfl rfl, fun _ _ => rfl, rfl,
      fun _ => hmapped⟩
  | sent s d q hmapped _ _ hs _ hk' =>
    subst hk'
    exact evicted_out h hi hmapped (freeSlot_some hs) rfl rfl rfl rfl

/-! ## `try_kalloc_or_replace` -/

/-- No entry says that page `v` is in the swap file. -/
def NoneSwapped (m : MemStat) (v : Nat) : Prop :=
  ∀ i, (m.pages i).state = .swapped → (m.pages i).va ≠ v

theorem wasSwapped_false {m : MemStat} {v : Nat} (h : wasSwapped m v = false) :
    NoneSwapped m v := by
  intro i hi hva
  unfold wasSwapped at h
  rw [Option.isSome_eq_false_iff, Option.isNone_iff_eq_none] at h
  have hn := Fin.find?_eq_none_iff.mp h i
  simp [hi, hva] at hn

/--
**What `try_kalloc_or_replace` can do to the process**: nothing, or evict one
resident page, and in either case perhaps mark it killed.
-/
theorem tryKalloc_cases (h : SwapInv k.p) (ht : tryKallocOrReplace k = (r, k')) :
    ∃ q : Proc, (q = k.p ∨ ∃ i k₁, Evicted k k₁ i ∧ q = k₁.p) ∧
      (k'.p = q ∨ k'.p = q.setkilled) := by
  -- the frame list plays no part in what an eviction does to the records
  have hev : ∀ {km : Kmem} {i : Fin maxPagesInfo} {b : Bool} {k₁ : Kernel},
      selectVictimFifoIndex k.p.memstat = some i → Evicts { k with kmem := km } i b k₁ →
      Evicted k k₁ i := by
    intro km i b k₁ hv he
    obtain ⟨h1, h2, h3, h4⟩ := he.records h (selectVictim_resident hv)
    exact ⟨h1, h2, h3, h4⟩
  cases tryKalloc_room h.mem ht with
  | had _ => exact ⟨k.p, Or.inl rfl, Or.inl rfl⟩
  | nobody _ _ => exact ⟨k.p, Or.inl rfl, Or.inr rfl⟩
  | stuck _ hv he => exact ⟨_, Or.inr ⟨_, _, hev hv he, rfl⟩, Or.inr rfl⟩
  | made _ hv he _ => exact ⟨_, Or.inr ⟨_, _, hev hv he, rfl⟩, Or.inl rfl⟩

theorem SwapInv.setkilled {p : Proc} (h : SwapInv p) : SwapInv p.setkilled :=
  h.still h.mem (fun _ _ => ⟨rfl, rfl, rfl⟩) rfl rfl rfl

/-- **Making room keeps the records in agreement.** -/
theorem tryKalloc_swapInv (h : SwapInv k.p) (ht : tryKallocOrReplace k = (r, k')) :
    SwapInv k'.p := by
  obtain ⟨q, hq, hk'⟩ := tryKalloc_cases h ht
  have hinv : SwapInv q := by
    rcases hq with rfl | ⟨i, k₁, hev, rfl⟩
    · exact h
    · exact hev.inv
  rcases hk' with hk' | hk'
  · rw [hk']; exact hinv
  · rw [hk']; exact hinv.setkilled

/-- **Making room does not swap out a page that is not mapped.** -/
theorem tryKalloc_noneSwapped {v : Nat} (h : SwapInv k.p) (hnone : NoneSwapped k.p.memstat v)
    (hunmapped : (k.p.pagetable.pte v).v = false) (ht : tryKallocOrReplace k = (r, k')) :
    NoneSwapped k'.p.memstat v := by
  obtain ⟨q, hq, hk'⟩ := tryKalloc_cases h ht
  have hq' : NoneSwapped q.memstat v := by
    rcases hq with rfl | ⟨i, k₁, hev, rfl⟩
    · exact hnone
    · intro j hj hva
      by_cases hji : j = i
      · -- the victim was mapped, and `v` is not
        subst hji
        have hm := hev.mapped hj
        rw [← hev.addr, hva, hunmapped] at hm
        simp at hm
      · rw [hev.other j hji] at hj hva
        exact hnone j hj hva
  rcases hk' with hk' | hk'
  · rw [hk']; exact hq'
  · rw [hk']; exact hq'

end Xv6Paging.Proof
