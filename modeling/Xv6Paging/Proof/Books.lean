import Xv6Paging.Proof.Victim
import Xv6Paging.Proof.Faults

/-!
# Bookkeeping moves no page

Marking, recording, swapping in and killing change the records of a process and
leave its page table and its image alone, and they keep the table of residents in
order. These are the facts every argument about memory needs of the bookkeeping.
-/

namespace Xv6Paging

/-- What decides where a process may have pages, and what a fresh one holds. -/
structure Image where
  trapframe : Nat
  sz : Nat
  textStart : Nat
  textEnd : Nat
  dataStart : Nat
  dataEnd : Nat
  stackTop : Nat
  execIp : Option Inode
  textOff : Nat
  textFilesz : Nat
  dataOff : Nat
  dataFilesz : Nat

/-- The image of a process. -/
def Proc.image (p : Proc) : Image where
  trapframe := p.trapframe
  sz := p.sz
  textStart := p.textStart
  textEnd := p.textEnd
  dataStart := p.dataStart
  dataEnd := p.dataEnd
  stackTop := p.stackTop
  execIp := p.execIp
  textOff := p.textOff
  textFilesz := p.textFilesz
  dataOff := p.dataOff
  dataFilesz := p.dataFilesz

end Xv6Paging

namespace Xv6Paging.Proof

open Xv6Paging Lib

variable {p p' : Proc} {va : Nat} {k k' : Kernel} {pg dst : Page} {r : Int}

/-! ## What an image determines -/

section

variable {p q : Proc} (h : q.image = p.image)

include h

theorem sz_of_image : q.sz = p.sz := congrArg Image.sz h

theorem textRange_of_image (va : Nat) : q.textRange va = p.textRange va :=
  congrArg (fun im : Image => decide (im.textStart ≤ va) && decide (va < im.textEnd)) h

theorem dataRange_of_image (va : Nat) : q.dataRange va = p.dataRange va :=
  congrArg (fun im : Image => decide (im.dataStart ≤ va) && decide (va < im.dataEnd)) h

theorem stackTop_of_image : q.stackTop = p.stackTop := congrArg Image.stackTop h

theorem inGuard_of_image (va : Nat) : q.inGuard va = p.inGuard va := by
  unfold Proc.inGuard Proc.stackGuard Proc.stackBase Proc.stackEnd
  rw [stackTop_of_image h]

theorem underBrk_of_image (va : Nat) : q.underBrk va = p.underBrk va := by
  simp only [Proc.underBrk, sz_of_image h]

theorem inText_of_image (va : Nat) : q.inText va = p.inText va := by
  simp only [Proc.inText, underBrk_of_image h, textRange_of_image h]

theorem inData_of_image (va : Nat) : q.inData va = p.inData va := by
  simp only [Proc.inData, underBrk_of_image h, dataRange_of_image h]

theorem sliceOff_of_image (va : Nat) : q.sliceOff va = p.sliceOff va := by
  have e1 : q.textStart = p.textStart := congrArg Image.textStart h
  have e2 : q.textOff = p.textOff := congrArg Image.textOff h
  have e3 : q.dataStart = p.dataStart := congrArg Image.dataStart h
  have e4 : q.dataOff = p.dataOff := congrArg Image.dataOff h
  unfold Proc.sliceOff
  rw [textRange_of_image h, e1, e2, e3, e4]

theorem sliceFilesz_of_image (va : Nat) : q.sliceFilesz va = p.sliceFilesz va := by
  have e1 : q.textStart = p.textStart := congrArg Image.textStart h
  have e2 : q.textFilesz = p.textFilesz := congrArg Image.textFilesz h
  have e3 : q.dataStart = p.dataStart := congrArg Image.dataStart h
  have e4 : q.dataFilesz = p.dataFilesz := congrArg Image.dataFilesz h
  unfold Proc.sliceFilesz
  rw [textRange_of_image h, e1, e2, e3, e4]

theorem slicePage_of_image (va : Nat) : q.slicePage va = p.slicePage va := by
  have e : q.execIp = p.execIp := congrArg Image.execIp h
  unfold Proc.slicePage
  rw [sliceOff_of_image h, sliceFilesz_of_image h, e]

end

theorem wants_countFault (k : Kernel) (va : Nat) (acc : Access) :
    wants k.countFault va acc = wants k va acc := by
  have hcause : k.countFault.p.cause va acc = k.p.cause va acc := by
    unfold Proc.cause
    rw [inGuard_of_image (q := k.countFault.p) (p := k.p) rfl]
    rfl
  unfold wants
  rw [hcause]
  cases k.p.cause va acc with
  | none => rfl
  | some c =>
    cases c with
    | exec => rfl
    | swap | stack | heap =>
      simp only [wantsFor, inGuard_of_image (q := k.countFault.p) (p := k.p) rfl]
      rfl

/-- Neither the page table nor the image has changed. -/
structure SameSpace (p p' : Proc) : Prop where
  pagetable : p'.pagetable = p.pagetable
  image : p'.image = p.image

theorem SameSpace.trans {q r : Proc} (h : SameSpace p q) (h' : SameSpace q r) : SameSpace p r :=
  ⟨h'.pagetable.trans h.pagetable, h'.image.trans h.image⟩

/-! ## The bookkeeping functions -/

theorem memstatMarkResident_space (p : Proc) (va : Nat) (seq : Int) :
    SameSpace p (memstatMarkResident p va seq) := by
  rcases memstatMarkResident_cases p va seq with h | ⟨i, _, h⟩
  · rw [h]; exact ⟨rfl, rfl⟩
  · rw [h]; exact ⟨rfl, rfl⟩

theorem markDirty_space (p : Proc) (o : Option (Fin maxPagesInfo)) :
    SameSpace p (p.markDirty o) := by
  cases o with
  | none => exact ⟨rfl, rfl⟩
  | some i => exact ⟨rfl, rfl⟩

theorem withResidentPages_space (p : Proc) (n : Int) : SameSpace p { p with residentPages := n } :=
  ⟨rfl, rfl⟩

/-- The order of the table depends on addresses and states alone. -/
theorem MemOk.of_keys {m m' : MemStat} (h : MemOk m) (hva : ∀ i, (m'.pages i).va = (m.pages i).va)
    (hst : ∀ i, (m'.pages i).state = (m.pages i).state) : MemOk m' := by
  refine ⟨fun i => ?_, fun i => ?_, fun i j hj hi => ?_⟩
  · rw [hva]; exact h.aligned i
  · rw [hva]; exact h.small i
  · have hi' : Live m i := by simpa [Live, hst i] using hi
    rw [hva, hva]
    exact h.first i j hj hi'

/-- Only the dirty flag of one entry is new. -/
theorem markDirty_keys (p : Proc) (o : Option (Fin maxPagesInfo)) (j : Fin maxPagesInfo) :
    ((p.markDirty o).memstat.pages j).va = (p.memstat.pages j).va ∧
      ((p.markDirty o).memstat.pages j).state = (p.memstat.pages j).state ∧
      ((p.markDirty o).memstat.pages j).seq = (p.memstat.pages j).seq ∧
      ((p.markDirty o).memstat.pages j).swapSlot = (p.memstat.pages j).swapSlot := by
  cases o with
  | none => exact ⟨rfl, rfl, rfl, rfl⟩
  | some i =>
    by_cases hji : j = i
    · subst hji; simp [Proc.markDirty, Proc.setPage]
    · simp [Proc.markDirty, Proc.setPage, hji]

theorem MemOk.markDirty (h : MemOk p.memstat) (o : Option (Fin maxPagesInfo)) :
    MemOk (p.markDirty o).memstat :=
  h.of_keys (fun j => (markDirty_keys p o j).1) fun j => (markDirty_keys p o j).2.1

/-- The counter goes up first, then the entry is written. -/
theorem recordResident_eq (p : Proc) (va : Nat) :
    ∃ q : Proc, q = { p with memstat :=
        { p.memstat with nextFifoSeq := p.memstat.nextFifoSeq + 1 } } ∧
      p.recordResident va = memstatMarkResident q va p.memstat.nextFifoSeq :=
  ⟨_, rfl, rfl⟩

theorem recordResident_space (p : Proc) (va : Nat) : SameSpace p (p.recordResident va) := by
  obtain ⟨q, hq, hdef⟩ := recordResident_eq p va
  have hpq : SameSpace p q := by rw [hq]; exact ⟨rfl, rfl⟩
  rw [hdef]
  exact hpq.trans (memstatMarkResident_space q va _)

theorem MemOk.recordResident (h : MemOk p.memstat) (hal : va % 4096 = 0) :
    MemOk (p.recordResident va).memstat := by
  obtain ⟨q, hq, hdef⟩ := recordResident_eq p va
  have hqmem : MemOk q.memstat := by rw [hq]; exact h.congr rfl
  rw [hdef]
  exact hqmem.memstatMarkResident hal _

/-- What a handler does to its books on success. -/
structure Recording (record : Proc → Proc) : Prop where
  space : ∀ p, SameSpace p (record p)
  mem : ∀ p, MemOk p.memstat → MemOk (record p).memstat

theorem recording_anon (hal : va % 4096 = 0) (acc : Access) :
    Recording fun p => p.recordAnon va acc := by
  refine ⟨fun p => ?_, fun p h => ?_⟩
  · have hres := recordResident_space p va
    unfold Proc.recordAnon
    dsimp only
    split
    · exact (hres.trans (markDirty_space _ _)).trans (withResidentPages_space _ _)
    · exact hres.trans (withResidentPages_space _ _)
  · have hres := h.recordResident hal
    unfold Proc.recordAnon
    dsimp only
    split
    · exact hres.markDirty _
    · exact hres

theorem recording_exec (hal : va % 4096 = 0) : Recording (recordExec va) := by
  refine ⟨fun p => ?_, fun p h => ?_⟩
  · exact (recordResident_space p va).trans (withResidentPages_space _ _)
  · have hres := h.recordResident hal
    unfold recordExec
    generalize p.recordResident va = q at hres
    exact hres

theorem recording_none : Recording fun p => p := ⟨fun _ => ⟨rfl, rfl⟩, fun _ h => h⟩

/-! ## Swapping in -/

/-- The process after slot `s` has been read back. -/
def readSlot (p : Proc) (s : Fin maxSwapPages) : Proc :=
  { p with
    swapTable := Function.update p.swapTable s ⟨0, -1, false⟩
    numSwappedPages := if 0 < p.numSwappedPages then p.numSwappedPages - 1 else p.numSwappedPages
    swappedPages := if 0 < p.swappedPages then p.swappedPages - 1 else p.swappedPages
    residentPages := p.residentPages + 1
    swapinCount := p.swapinCount + 1 }

/-- **All that `swapin_page` does to the process.** -/
theorem swapinPage_eq (h : swapinPage p va dst = (r, pg, p')) :
    (r = -1 ∧ p' = p) ∨ ∃ s, slotOf p (pgRoundDown va) = some s ∧ r = (s.val : Int) ∧
      p' = memstatSwap (readSlot p s) (pgRoundDown va) .resident (-1) := by
  unfold swapinPage at h
  split at h
  · cases h
    exact Or.inl ⟨rfl, rfl⟩
  · dsimp only at h
    split at h
    · cases h
      exact Or.inl ⟨rfl, rfl⟩
    · rename_i s hs
      split at h
      · cases h
        exact Or.inl ⟨rfl, rfl⟩
      · cases h
        exact Or.inr ⟨s, hs, rfl, rfl⟩

theorem memstatSwap_space (p : Proc) (va : Nat) (st : PageState) (slot : Int) :
    SameSpace p (memstatSwap p va st slot) := by
  unfold memstatSwap
  split
  · exact ⟨rfl, rfl⟩
  · exact ⟨rfl, rfl⟩

theorem swapinPage_space (hs : swapinPage p va dst = (r, pg, p')) : SameSpace p p' := by
  rcases swapinPage_eq hs with ⟨_, hp⟩ | ⟨slot, _, _, hp⟩
  · rw [hp]
    exact ⟨rfl, rfl⟩
  · rw [hp]
    have hr : SameSpace p (readSlot p slot) := ⟨rfl, rfl⟩
    exact hr.trans (memstatSwap_space _ _ _ _)

theorem swapinPage_memOk (h : MemOk p.memstat) (hs : swapinPage p va dst = (r, pg, p')) :
    MemOk p'.memstat := by
  rcases swapinPage_eq hs with ⟨_, hp⟩ | ⟨slot, _, _, hp⟩
  · rw [hp]
    exact h
  · rw [hp]
    have hr : MemOk (readSlot p slot).memstat := h
    exact hr.memstatSwap _ _ _

/-- Filling a frame is bookkeeping too, as far as the process is concerned. -/
theorem fill_books {src : Fill} {f : Nat} {o : Option Page} (h : src.page k va f = (o, p)) :
    SameSpace k.p p ∧ (MemOk k.p.memstat → MemOk p.memstat) := by
  cases src with
  | zero => cases h; exact ⟨⟨rfl, rfl⟩, id⟩
  | slice => cases h; exact ⟨⟨rfl, rfl⟩, id⟩
  | slot =>
    rcases hin : swapinPage k.p va (k.kmem.ram f) with ⟨s, pg, q⟩
    simp only [Fill.page, hin, Prod.mk.injEq] at h
    obtain ⟨_, rfl⟩ := h
    exact ⟨swapinPage_space hin, fun hm => swapinPage_memOk hm hin⟩

/-! ## Eviction -/

theorem memstatMark_space (p : Proc) (va : Nat) (st : PageState) (slot : Int) :
    SameSpace p (memstatMark p va st slot) := by
  rcases memstatMark_cases p va st slot with h | ⟨i, _, h⟩
  · rw [h]; exact ⟨rfl, rfl⟩
  · rw [h]; exact ⟨rfl, rfl⟩

theorem procSwapoutPage_space {d d' : Disk} {src : Page}
    (h : procSwapoutPage d p va src = (r, d', p')) : SameSpace p p' := by
  rcases procSwapoutPage_eq h with ⟨_, file, hp⟩ | ⟨slot, file, _, _, hp⟩
  · rw [hp]; exact ⟨rfl, rfl⟩
  · rw [hp]
    have hw : SameSpace p (wroteSlot p va slot file) := ⟨rfl, rfl⟩
    exact hw.trans (memstatSwap_space _ _ _ _)

/-- The image is as it was, and at most one entry of the page table has been cleared. -/
structure Vacates (p p' : Proc) : Prop where
  pagetable : p'.pagetable = p.pagetable ∨ ∃ a, p'.pagetable = p.pagetable.set a Pte.zero
  image : p'.image = p.image

theorem SameSpace.vacates (h : SameSpace p p') : Vacates p p' :=
  ⟨Or.inl h.pagetable, h.image⟩

theorem SameSpace.dropFrame (h : SameSpace p k.p) (va : Nat) :
    Vacates p (k.dropFrame va).p :=
  ⟨Or.inr ⟨va, by rw [← h.pagetable]; rfl⟩, h.image⟩

/-- **What an eviction leaves alone**, in any state of the kernel. -/
theorem evict_vacates {i : Fin maxPagesInfo} {b : Bool} (h : evict k i = (b, k')) :
    Vacates k.p k'.p := by
  generalize hva : pgRoundDown (k.p.memstat.pages i).va = va0
  obtain ⟨q, hq⟩ : ∃ q, memstatMarkUnmapped k.p va0 = q := ⟨_, rfl⟩
  have hforgot : SameSpace k.p q := by
    rw [← hq]
    exact memstatMark_space k.p va0 .unmapped (-1)
  unfold evict at h
  dsimp only at h
  rw [hva, hq] at h
  split at h
  · -- there is no such page: only its entry goes
    obtain ⟨_, rfl⟩ := Prod.mk.inj h
    exact hforgot.vacates
  · split at h
    · -- a dirty page goes to the swap file
      rcases hs : procSwapoutPage k.disk k.p va0 (k.kmem.ram (k.p.pagetable.pte va0).frame) with
        ⟨slot, d, p⟩
      have hp := procSwapoutPage_space hs
      rw [hs] at h
      dsimp only at h
      split at h
      · obtain ⟨_, rfl⟩ := Prod.mk.inj h
        exact hp.vacates
      · generalize hp' : ({ p.residentPagesDown with
          swappedPages := p.residentPagesDown.swappedPages + 1
          swapoutCount := p.residentPagesDown.swapoutCount + 1 } : Proc) = p' at h
        have hpp' : SameSpace p p' := by
          rw [← hp']
          exact ⟨rfl, rfl⟩
        have hsent : SameSpace k.p (memstatMarkSwapped p' va0 slot) :=
          (hp.trans hpp').trans (memstatMark_space p' va0 .swapped slot)
        generalize memstatMarkSwapped p' va0 slot = q' at h hsent
        obtain ⟨_, rfl⟩ := Prod.mk.inj h
        exact SameSpace.dropFrame (k := { k with disk := d, p := q' }) hsent va0
    · obtain ⟨_, rfl⟩ := Prod.mk.inj h
      exact SameSpace.dropFrame (k := { k with p := q.residentPagesDown }) ⟨hforgot.pagetable,
        hforgot.image⟩ va0

theorem tryKalloc_vacates {r : Option Nat} (h : tryKallocOrReplace k = (r, k')) :
    Vacates k.p k'.p := by
  unfold tryKallocOrReplace at h
  split at h
  · cases h
    exact ⟨Or.inl rfl, rfl⟩
  · dsimp only at h
    split at h
    · cases h
      exact ⟨Or.inl rfl, rfl⟩
    · split at h
      · rename_i hev
        cases h
        exact ⟨(evict_vacates hev).pagetable, (evict_vacates hev).image⟩
      · rename_i hev
        cases h
        exact ⟨(evict_vacates hev).pagetable, (evict_vacates hev).image⟩

theorem MemOk.forgot (h : MemOk p.memstat) {i : Fin maxPagesInfo} (hi : Live p.memstat i) :
    MemOk (forgot p i).memstat :=
  (h.withPage_live hi (e := { p.memstat.pages i with state := .unmapped, swapSlot := -1 })
    rfl).congr
    rfl

theorem MemOk.sentOut (h : MemOk p.memstat) {i : Fin maxPagesInfo} (hi : Live p.memstat i)
    (s : Fin maxSwapPages) (file : Option Inode) :
    MemOk (sentOut p i s file).memstat :=
  h.withPage_live hi (e := { p.memstat.pages i with
    state := .swapped, swapSlot := s.val, isDirty := false }) rfl

/--
**All that an eviction does to memory**: nothing, or drop the victim's frame; the
rest is bookkeeping.
-/
theorem Evicts.memory {i : Fin maxPagesInfo} {b : Bool} (he : Evicts k i b k')
    (h : MemOk k.p.memstat) (hi : Live k.p.memstat i) :
    ∃ q d, SameSpace k.p q ∧ MemOk q.memstat ∧ (k' = { k with disk := d, p := q } ∨
      (k.p.pagetable.pte (k.p.memstat.pages i).va).v = true ∧
        k' = { k with disk := d, p := q }.dropFrame (k.p.memstat.pages i).va) := by
  cases he with
  | stale _ _ hk' => exact ⟨forgot k.p i, k.disk, ⟨rfl, rfl⟩, h.forgot hi, Or.inl hk'⟩
  | dropped hv _ _ hk' =>
    exact ⟨(forgot k.p i).residentPagesDown, k.disk, ⟨rfl, rfl⟩, h.forgot hi, Or.inr ⟨hv, hk'⟩⟩
  | refused r d q _ _ _ _ hq _ hk' =>
    refine ⟨q, d, ?_, ?_, Or.inl hk'⟩
    · rw [hq]; exact ⟨rfl, rfl⟩
    · rw [hq]; exact h
  | sent s d q hv _ _ _ _ hk' =>
    exact ⟨sentOut k.p i s q.swapfile, d, ⟨rfl, rfl⟩, h.sentOut hi s _, Or.inr ⟨hv, hk'⟩⟩

end Xv6Paging.Proof
