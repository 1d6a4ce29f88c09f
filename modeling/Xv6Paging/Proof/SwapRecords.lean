import Xv6Paging.Proof.Memstat
import Xv6Paging.Proof.SwapFile

/-!
# Five records of one fact

That a page is in the swap file is on record five times: in a `memstat` entry that
is `SWAPPED`, in a used swap-table entry, in `num_swapped_pages`, in
`swapped_pages`, and in the file. `SwapInv` ties the first four together, and the
moves below are all the kernel ever makes of them: a page goes out, a page comes
in, or an entry that is not `SWAPPED` changes into another that is not.
-/

namespace Xv6Paging.Proof

open Xv6Paging

variable {p p' : Proc} {e : SwapEntry}

/-- The slots in use. -/
def usedSlots (p : Proc) : Finset (Fin maxSwapPages) :=
  Finset.univ.filter fun s => (p.swapTable s).used = true

/-- The entries of swapped-out pages. -/
def swappedEntries (p : Proc) : Finset (Fin maxPagesInfo) :=
  Finset.univ.filter fun i => (p.memstat.pages i).state = .swapped

/-- Entry `i` and slot `s` are about the same page. -/
def Paired (p : Proc) (i : Fin maxPagesInfo) (s : Fin maxSwapPages) : Prop :=
  (p.memstat.pages i).swapSlot = s.val ∧ (p.memstat.pages i).va = (p.swapTable s).va ∧
    (p.swapTable s).slot = s.val

/-- The records agree. -/
structure SwapInv (p : Proc) : Prop where
  mem : MemOk p.memstat
  entry : ∀ i, (p.memstat.pages i).state = .swapped →
    ∃ s, (p.swapTable s).used = true ∧ Paired p i s
  slot : ∀ s, (p.swapTable s).used = true →
    ∃ i, (p.memstat.pages i).state = .swapped ∧ Paired p i s
  num : p.numSwappedPages = (usedSlots p).card
  total : p.swappedPages = (usedSlots p).card

/-- A swapped-out entry has one slot. -/
theorem Paired.slot_inj {i : Fin maxPagesInfo} {s t : Fin maxSwapPages} (hs : Paired p i s)
    (ht : Paired p i t) : s = t := by
  have h := hs.1.symm.trans ht.1
  exact Fin.ext (by exact_mod_cast h)

/-- A used slot has one entry. -/
theorem SwapInv.entry_inj (h : SwapInv p) {i j : Fin maxPagesInfo} {s : Fin maxSwapPages}
    (hi : (p.memstat.pages i).state = .swapped) (hj : (p.memstat.pages j).state = .swapped)
    (his : Paired p i s) (hjs : Paired p j s) : i = j :=
  h.mem.live_inj (swapped_live hi) (swapped_live hj) (his.2.1.trans hjs.2.1.symm)

/-- Slots in use carry different addresses. -/
theorem SwapInv.va_inj (h : SwapInv p) {s t : Fin maxSwapPages} (hs : (p.swapTable s).used = true)
    (ht : (p.swapTable t).used = true) (hva : (p.swapTable s).va = (p.swapTable t).va) : s = t := by
  obtain ⟨i, hi, his⟩ := h.slot s hs
  obtain ⟨j, hj, hjt⟩ := h.slot t ht
  have hij : i = j :=
    h.mem.live_inj (swapped_live hi) (swapped_live hj) (by rw [his.2.1, hjt.2.1, hva])
  subst hij
  exact his.slot_inj hjt

/-- As many entries as slots. -/
theorem SwapInv.card_eq (h : SwapInv p) :
    (swappedEntries p).card = (usedSlots p).card := by
  refine Finset.card_bij'
    (fun i hi => (h.entry i (by simpa [swappedEntries] using hi)).choose)
    (fun s hs => (h.slot s (by simpa [usedSlots] using hs)).choose) ?_ ?_ ?_ ?_
  · intro i hi
    have hspec := (h.entry i (by simpa [swappedEntries] using hi)).choose_spec
    simpa [usedSlots] using hspec.1
  · intro s hs
    have hspec := (h.slot s (by simpa [usedSlots] using hs)).choose_spec
    simpa [swappedEntries] using hspec.1
  · intro i hi
    have hi' : (p.memstat.pages i).state = .swapped := by simpa [swappedEntries] using hi
    have hs := (h.entry i hi').choose_spec
    have hj := (h.slot _ hs.1).choose_spec
    exact h.entry_inj hj.1 hi' hj.2 hs.2
  · intro s hs
    have hs' : (p.swapTable s).used = true := by simpa [usedSlots] using hs
    have hi := (h.slot s hs').choose_spec
    have ht := (h.entry _ hi.1).choose_spec
    exact ht.2.slot_inj hi.2

/-! ## The moves -/

/-- An entry counts for the swap records only while it is `SWAPPED`. -/
def SameSwapped (p p' : Proc) : Prop :=
  ∀ i, ((p'.memstat.pages i).state = .swapped ∨ (p.memstat.pages i).state = .swapped) →
    (p'.memstat.pages i).state = (p.memstat.pages i).state ∧
      (p'.memstat.pages i).va = (p.memstat.pages i).va ∧
      (p'.memstat.pages i).swapSlot = (p.memstat.pages i).swapSlot

/-- **No page moves**: entries that are not `SWAPPED` may change among themselves. -/
theorem SwapInv.still (h : SwapInv p) (hmem : MemOk p'.memstat) (hsame : SameSwapped p p')
    (htab : p'.swapTable = p.swapTable) (hnum : p'.numSwappedPages = p.numSwappedPages)
    (htot : p'.swappedPages = p.swappedPages) :
    SwapInv p' := by
  have hused : usedSlots p' = usedSlots p := by unfold usedSlots; rw [htab]
  refine ⟨hmem, fun i hi => ?_, fun s hs => ?_, by rw [hnum, hused, h.num],
    by rw [htot, hused, h.total]⟩
  · obtain ⟨hst, hva, hsl⟩ := hsame i (Or.inl hi)
    obtain ⟨s, hs, hp⟩ := h.entry i (hst ▸ hi)
    refine ⟨s, by rw [htab]; exact hs, ?_⟩
    unfold Paired
    rw [htab, hva, hsl]
    exact hp
  · rw [htab] at hs
    obtain ⟨i, hi, hp⟩ := h.slot s hs
    obtain ⟨hst, hva, hsl⟩ := hsame i (Or.inr hi)
    refine ⟨i, hst.trans hi, ?_⟩
    unfold Paired
    rw [htab, hva, hsl]
    exact hp

theorem usedSlots_take {s : Fin maxSwapPages}
    (htab : p'.swapTable = Function.update p.swapTable s e) (he : e.used = true) :
    usedSlots p' = insert s (usedSlots p) := by
  ext t
  by_cases ht : t = s
  · subst ht; simp [usedSlots, htab, he]
  · simp [usedSlots, htab, ht]

theorem usedSlots_drop {s : Fin maxSwapPages}
    (htab : p'.swapTable = Function.update p.swapTable s e) (he : e.used = false) :
    usedSlots p' = (usedSlots p).erase s := by
  ext t
  by_cases ht : t = s
  · subst ht; simp [usedSlots, htab, he]
  · simp [usedSlots, htab, ht]

/-- The other entries keep what they say about the swap file. -/
def SameElsewhere (p p' : Proc) (i : Fin maxPagesInfo) : Prop :=
  ∀ j, j ≠ i → p'.memstat.pages j = p.memstat.pages j

/-- **A page goes out**: a free slot is taken for an entry that was not `SWAPPED`. -/
theorem SwapInv.out (h : SwapInv p) {i : Fin maxPagesInfo} {s : Fin maxSwapPages}
    (hmem : MemOk p'.memstat) (hother : SameElsewhere p p' i)
    (hbefore : (p.memstat.pages i).state ≠ .swapped) (hst : (p'.memstat.pages i).state = .swapped)
    (hsl : (p'.memstat.pages i).swapSlot = s.val) (hfree : (p.swapTable s).used = false)
    (htab : p'.swapTable = Function.update p.swapTable s ⟨(p'.memstat.pages i).va, s.val, true⟩)
    (hnum : p'.numSwappedPages = p.numSwappedPages + 1)
    (htot : p'.swappedPages = p.swappedPages + 1) : SwapInv p' := by
  have hcard : (usedSlots p').card = (usedSlots p).card + 1 := by
    rw [usedSlots_take htab rfl, Finset.card_insert_of_notMem (by simp [usedSlots, hfree])]
  refine ⟨hmem, fun j hj => ?_, fun t ht => ?_, ?_, ?_⟩
  · by_cases hji : j = i
    · subst hji
      exact ⟨s, by simp [htab], hsl, by simp [htab], by simp [htab]⟩
    · rw [hother j hji] at hj
      obtain ⟨t, ht, hp⟩ := h.entry j hj
      -- the slot of another entry was in use, so it is not the one just taken
      have hts : t ≠ s := fun he => by simp [he, hfree] at ht
      refine ⟨t, by simpa [htab, hts] using ht, ?_⟩
      simpa [Paired, htab, hts, hother j hji] using hp
  · by_cases hts : t = s
    · subst hts
      exact ⟨i, hst, hsl, by simp [htab], by simp [htab]⟩
    · have ht' : (p.swapTable t).used = true := by simpa [htab, hts] using ht
      obtain ⟨j, hj, hp⟩ := h.slot t ht'
      have hji : j ≠ i := fun he => hbefore (he ▸ hj)
      refine ⟨j, by rw [hother j hji]; exact hj, ?_⟩
      simpa [Paired, htab, hts, hother j hji] using hp
  · rw [hnum, h.num, hcard]; push_cast; rfl
  · rw [htot, h.total, hcard]; push_cast; rfl

/-- **A page comes in**: its slot is freed and its entry is no longer `SWAPPED`. -/
theorem SwapInv.into (h : SwapInv p) {i : Fin maxPagesInfo} {s : Fin maxSwapPages}
    (hmem : MemOk p'.memstat) (hother : SameElsewhere p p' i)
    (hbefore : (p.memstat.pages i).state = .swapped) (hpair : Paired p i s)
    (hused : (p.swapTable s).used = true) (hst : (p'.memstat.pages i).state ≠ .swapped)
    (htab : p'.swapTable = Function.update p.swapTable s e) (he : e.used = false)
    (hnum : p'.numSwappedPages = p.numSwappedPages - 1)
    (htot : p'.swappedPages = p.swappedPages - 1) : SwapInv p' := by
  have hmems : s ∈ usedSlots p := by simp [usedSlots, hused]
  have hpos : 0 < (usedSlots p).card := Finset.card_pos.mpr ⟨s, hmems⟩
  have hcard : (usedSlots p').card = (usedSlots p).card - 1 := by
    rw [usedSlots_drop htab he, Finset.card_erase_of_mem hmems]
  refine ⟨hmem, fun j hj => ?_, fun t ht => ?_, ?_, ?_⟩
  · have hji : j ≠ i := fun heq => hst (heq ▸ hj)
    rw [hother j hji] at hj
    obtain ⟨t, ht, hp⟩ := h.entry j hj
    have hts : t ≠ s := fun heq => hji (h.entry_inj hj hbefore hp (heq ▸ hpair))
    refine ⟨t, by simpa [htab, hts] using ht, ?_⟩
    simpa [Paired, htab, hts, hother j hji] using hp
  · have hts : t ≠ s := fun heq => by simp [heq, htab, he] at ht
    have ht' : (p.swapTable t).used = true := by simpa [htab, hts] using ht
    obtain ⟨j, hj, hp⟩ := h.slot t ht'
    have hji : j ≠ i := fun heq => hts ((heq ▸ hp).slot_inj hpair)
    refine ⟨j, by rw [hother j hji]; exact hj, ?_⟩
    simpa [Paired, htab, hts, hother j hji] using hp
  · rw [hnum, h.num, hcard]; omega
  · rw [htot, h.total, hcard]; omega

end Xv6Paging.Proof
