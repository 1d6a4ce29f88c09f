import Xv6Paging.Proof.Memstat

/-!
# What an eviction does

`try_kalloc_or_replace` picks the oldest resident entry and drops the entry, drops
the page, or sends the page to the swap file. `Evicts` says which of these
happened and what is left behind, `Room` does the same for the whole call. It is
enough for this that the table is in order.
-/

namespace Xv6Paging.Proof

open Xv6Paging

variable {p : Proc} {m : MemStat}

/-! ## The victim -/

/-- Entry `j` comes before entry `i` in the order of the search. -/
def Before (m : MemStat) (j i : Fin maxPagesInfo) : Prop :=
  (m.pages j).seq % 2 ^ 32 < (m.pages i).seq % 2 ^ 32 ∨
    (m.pages j).seq % 2 ^ 32 = (m.pages i).seq % 2 ^ 32 ∧ (m.pages j).va < (m.pages i).va

/-- What the search knows once it has been through the entries `seen`. -/
structure Scanned (m : MemStat) (seen : List (Fin maxPagesInfo)) (best : Victim) : Prop where
  none : best.index = none → ∀ j ∈ seen, (m.pages j).state ≠ .resident
  some : ∀ b, best.index = some b → (m.pages b).state = .resident ∧
    best.seq = (m.pages b).seq ∧ best.va = (m.pages b).va ∧
    ∀ j ∈ seen, (m.pages j).state = .resident → ¬ Before m j b

theorem Scanned.scan {seen : List (Fin maxPagesInfo)} {best : Victim} (h : Scanned m seen best)
    (a : Fin maxPagesInfo) : Scanned m (seen ++ [a]) (best.scan m a) := by
  unfold Victim.scan
  dsimp only
  split
  · -- `a` is the new minimum
    rename_i hbest
    refine ⟨fun hno => by simp at hno, fun b hb => ?_⟩
    cases hb
    refine ⟨hbest.1, rfl, rfl, fun j hj hres => ?_⟩
    rcases List.mem_append.mp hj with hj | hj
    · rcases hi : best.index with _ | b
      · exact absurd hres (h.none hi j hj)
      · obtain ⟨_, hseq, hva, hleast⟩ := h.some b hi
        have hold := hleast j hj hres
        rcases hbest.2 with hno | hlt
        · simp [hi] at hno
        · rw [hseq, hva] at hlt
          unfold Before at hold ⊢
          omega
    · rw [List.mem_singleton.mp hj]
      unfold Before
      omega
  · rename_i hbest
    refine ⟨fun hno j hj => ?_, fun b hb => ?_⟩
    · rcases List.mem_append.mp hj with hj | hj
      · exact h.none hno j hj
      · rw [List.mem_singleton.mp hj]
        exact fun hres => hbest ⟨hres, Or.inl hno⟩
    · obtain ⟨hres, hseq, hva, hleast⟩ := h.some b hb
      refine ⟨hres, hseq, hva, fun j hj hj' => ?_⟩
      rcases List.mem_append.mp hj with hj | hj
      · exact hleast j hj hj'
      · have haj := List.mem_singleton.mp hj
        subst haj
        intro hlt
        rw [Before, ← hseq, ← hva] at hlt
        exact hbest ⟨hj', Or.inr hlt⟩

theorem Scanned.foldl : ∀ (l : List (Fin maxPagesInfo)) {seen : List (Fin maxPagesInfo)}
    {best : Victim}, Scanned m seen best →
    Scanned m (seen ++ l) (l.foldl (Victim.scan m) best) := by
  intro l
  induction l with
  | nil =>
    intro seen best h
    rw [List.append_nil]
    exact h
  | cons a l ih =>
    intro seen best h
    rw [List.append_cons]
    exact ih (h.scan a)

theorem selectVictim_scanned (m : MemStat) : Scanned m (List.finRange maxPagesInfo)
    ((List.finRange maxPagesInfo).foldl (Victim.scan m) ⟨none, 0, 0⟩) := by
  have hstart : Scanned m [] ⟨none, 0, 0⟩ :=
    ⟨fun _ j hj => by simp at hj, fun b hb => by simp at hb⟩
  exact hstart.foldl (List.finRange maxPagesInfo)

/-- The victim is a resident page. -/
theorem selectVictim_resident {i : Fin maxPagesInfo} (h : selectVictimFifoIndex m = some i) :
    (m.pages i).state = .resident :=
  ((selectVictim_scanned m).some i h).1

/-- **No resident page comes before the victim.** -/
theorem selectVictim_least {i j : Fin maxPagesInfo} (h : selectVictimFifoIndex m = some i)
    (hj : (m.pages j).state = .resident) : ¬ Before m j i :=
  ((selectVictim_scanned m).some i h).2.2.2 j (List.mem_finRange j) hj

/-- Where nothing is resident there is no victim, and only there. -/
theorem selectVictim_none (h : selectVictimFifoIndex m = none) (i : Fin maxPagesInfo) :
    (m.pages i).state ≠ .resident :=
  (selectVictim_scanned m).none h i (List.mem_finRange i)

/-! ## What becomes of the records -/

/-- `memstatSwap` at the address of an entry in use rewrites that entry. -/
theorem memstatSwap_live (h : MemOk p.memstat) {i : Fin maxPagesInfo} (hi : Live p.memstat i)
    (st : PageState) (slot : Int) :
    memstatSwap p (p.memstat.pages i).va st slot =
      p.setPage i { p.memstat.pages i with state := st, swapSlot := slot, isDirty := false } := by
  unfold memstatSwap
  rw [h.memstatVa_eq hi]

/-- Marking the address of an entry in use rewrites that entry. -/
theorem memstatMark_live (h : MemOk p.memstat) {i : Fin maxPagesInfo} (hi : Live p.memstat i)
    (st : PageState) (slot : Int) :
    memstatMark p (p.memstat.pages i).va st slot = recorded p i
      { p.memstat.pages i with state := st, swapSlot := slot }
      (residentDown p.memstat (p.memstat.pages i)) := by
  have hlive := h.memstatLive_eq hi (toUint_eq (h.small i)).symm
  unfold memstatMark memstatFindIndex
  rw [hlive]
  rfl

/-- Marking a page `SWAPPED` that is on record with this slot already changes nothing. -/
theorem memstatMarkSwapped_again (h : MemOk p.memstat) {i : Fin maxPagesInfo}
    (hst : (p.memstat.pages i).state = .swapped) :
    memstatMarkSwapped p (p.memstat.pages i).va (p.memstat.pages i).swapSlot = p := by
  have hsame : ({ p.memstat.pages i with
      state := .swapped, swapSlot := (p.memstat.pages i).swapSlot } : PageStat)
      = p.memstat.pages i := by rw [← hst]
  rw [memstatMarkSwapped, memstatMark_live h (swapped_live hst), hsame]
  simp [recorded, residentDown, hst]

/-- The process after a page at `va` has been written to `slot`. -/
def wroteSlot (p : Proc) (va : Nat) (slot : Fin maxSwapPages) (file : Option Inode) : Proc :=
  { p with
    swapfile := file
    swapTable := Function.update p.swapTable slot ⟨toUint (pgRoundDown va), slot.val, true⟩
    numSwappedPages := p.numSwappedPages + 1 }

theorem swapfileCreate_eq {d d' : Disk} {p' : Proc} {ok : Bool}
    (h : swapfileCreate d p = (ok, d', p')) : ∃ file, p' = { p with swapfile := file } := by
  unfold swapfileCreate at h
  split at h
  · cases h; exact ⟨p.swapfile, rfl⟩
  · dsimp only at h
    split at h
    · cases h; exact ⟨p.swapfile, rfl⟩
    · split at h
      · cases h; exact ⟨_, rfl⟩
      · cases h; exact ⟨p.swapfile, rfl⟩

/-- **All that `proc_swapout_page` does to the process.** -/
theorem procSwapoutPage_eq {d d' : Disk} {p' : Proc} {va : Nat} {src : Page} {r : Int}
    (h : procSwapoutPage d p va src = (r, d', p')) :
    (r = -1 ∧ ∃ file, p' = { p with swapfile := file }) ∨
      ∃ slot file, r = (slot.val : Int) ∧ freeSlot p = some slot ∧
        p' = memstatSwap (wroteSlot p va slot file) (pgRoundDown va) .swapped slot.val := by
  unfold procSwapoutPage at h
  split at h
  · rename_i d₁ p₁ hc
    cases h
    exact Or.inl ⟨rfl, swapfileCreate_eq hc⟩
  · rename_i d₁ p₁ hc
    obtain ⟨file, rfl⟩ := swapfileCreate_eq hc
    split at h
    · cases h
      exact Or.inl ⟨rfl, file, rfl⟩
    · unfold swapoutTo at h
      split at h
      · cases h
        exact Or.inl ⟨rfl, file, rfl⟩
      · rename_i slot hslot
        dsimp only at h
        split at h
        · cases h
          exact Or.inl ⟨rfl, _, rfl⟩
        · cases h
          exact Or.inr ⟨slot, _, rfl, hslot, rfl⟩

/-! ## Eviction -/

/-- The process after entry `i` has been given up. -/
def forgot (p : Proc) (i : Fin maxPagesInfo) : Proc :=
  recorded p i { p.memstat.pages i with state := .unmapped, swapSlot := -1 }
    (residentDown p.memstat (p.memstat.pages i))

/-- The process after the page of entry `i` has gone to slot `s`. -/
def sentOut (p : Proc) (i : Fin maxPagesInfo) (s : Fin maxSwapPages) (file : Option Inode) : Proc :=
  { p with
    swapfile := file
    swapTable := Function.update p.swapTable s ⟨(p.memstat.pages i).va, s.val, true⟩
    numSwappedPages := p.numSwappedPages + 1
    memstat := withPage p.memstat i
      { p.memstat.pages i with state := .swapped, swapSlot := s.val, isDirty := false }
    residentPages := if 0 < p.residentPages then p.residentPages - 1 else p.residentPages
    swappedPages := p.swappedPages + 1
    swapoutCount := p.swapoutCount + 1 }

/-- **Everything the eviction of entry `i` can do.** -/
inductive Evicts (k : Kernel) (i : Fin maxPagesInfo) (b : Bool) (k' : Kernel) : Prop where
  /-- The entry did not speak of a mapped page. -/
  | stale : (k.p.pagetable.pte (k.p.memstat.pages i).va).v = false → b = true →
      k' = { k with p := forgot k.p i } → Evicts k i b k'
  /-- A clean page is dropped. -/
  | dropped : (k.p.pagetable.pte (k.p.memstat.pages i).va).v = true →
      (k.p.memstat.pages i).isDirty = false → b = true →
      k' = { k with p := (forgot k.p i).residentPagesDown }.dropFrame (k.p.memstat.pages i).va →
      Evicts k i b k'
  /-- A dirty page could not be written out. -/
  | refused (r : Int) (d : Disk) (q : Proc) :
      (k.p.pagetable.pte (k.p.memstat.pages i).va).v = true →
      (k.p.memstat.pages i).isDirty = true →
      procSwapoutPage k.disk k.p (k.p.memstat.pages i).va
        (k.kmem.ram (k.p.pagetable.pte (k.p.memstat.pages i).va).frame) = (r, d, q) → r < 0 →
      q = { k.p with swapfile := q.swapfile } → b = false → k' = { k with disk := d, p := q } →
      Evicts k i b k'
  /-- A dirty page is written to a free slot. -/
  | sent (s : Fin maxSwapPages) (d : Disk) (q : Proc) :
      (k.p.pagetable.pte (k.p.memstat.pages i).va).v = true →
      (k.p.memstat.pages i).isDirty = true →
      procSwapoutPage k.disk k.p (k.p.memstat.pages i).va
        (k.kmem.ram (k.p.pagetable.pte (k.p.memstat.pages i).va).frame) = ((s.val : Int), d, q) →
      freeSlot k.p = some s → b = true →
      k' = { k with disk := d, p := sentOut k.p i s q.swapfile }.dropFrame
        (k.p.memstat.pages i).va →
      Evicts k i b k'

/-- The two markings after a swap-out hit the same entry, the second to no effect. -/
theorem sentOut_eq (h : MemOk p.memstat) {i : Fin maxPagesInfo} (hi : Live p.memstat i)
    {s : Fin maxSwapPages} {file : Option Inode} {q q' : Proc}
    (hq : q = memstatSwap (wroteSlot p (p.memstat.pages i).va s file)
      (pgRoundDown (p.memstat.pages i).va) .swapped s.val) (hq' : q' = { q.residentPagesDown with
      swappedPages := q.residentPagesDown.swappedPages + 1
      swapoutCount := q.residentPagesDown.swapoutCount + 1 }) :
    memstatMarkSwapped q' (p.memstat.pages i).va s.val = sentOut p i s q.swapfile := by
  have hround : pgRoundDown (p.memstat.pages i).va = (p.memstat.pages i).va :=
    pgRoundDown_eq_of_mod (h.aligned i)
  have huint : toUint (p.memstat.pages i).va = (p.memstat.pages i).va := toUint_eq (h.small i)
  have hswap : q = (wroteSlot p (p.memstat.pages i).va s file).setPage i
      { p.memstat.pages i with state := .swapped, swapSlot := s.val, isDirty := false } := by
    rw [hq, hround]
    exact memstatSwap_live (p := wroteSlot p (p.memstat.pages i).va s file) h hi _ _
  have hpages : q'.memstat.pages = Function.update p.memstat.pages i
      { p.memstat.pages i with state := .swapped, swapSlot := s.val, isDirty := false } := by
    rw [hq', hswap]; rfl
  have hmem : MemOk q'.memstat := (h.withPage_live hi (e := { p.memstat.pages i with
    state := .swapped, swapSlot := s.val, isDirty := false }) rfl).congr hpages
  have hagain := memstatMarkSwapped_again hmem (i := i) (by simp [hpages])
  simp only [hpages, Function.update_self] at hagain
  rw [hagain, hq', hswap]
  simp only [sentOut, withPage, Proc.residentPagesDown, Proc.setPage, wroteSlot, hround, huint]

theorem evict_cases {k k' : Kernel} {i : Fin maxPagesInfo} {b : Bool} (h : MemOk k.p.memstat)
    (hi : Live k.p.memstat i) (he : evict k i = (b, k')) : Evicts k i b k' := by
  have hround : pgRoundDown (k.p.memstat.pages i).va = (k.p.memstat.pages i).va :=
    pgRoundDown_eq_of_mod (h.aligned i)
  have hmark : memstatMarkUnmapped k.p (k.p.memstat.pages i).va = forgot k.p i :=
    memstatMark_live h hi .unmapped (-1)
  unfold evict at he
  dsimp only at he
  rw [hround] at he
  split at he
  · rename_i hv
    rw [hmark] at he
    cases he
    exact .stale (by simpa using hv) rfl rfl
  · rename_i hv
    have hmapped : (k.p.pagetable.pte (k.p.memstat.pages i).va).v = true := by simpa using hv
    split at he
    · rename_i hd
      rcases hc : procSwapoutPage k.disk k.p (k.p.memstat.pages i).va
        (k.kmem.ram (k.p.pagetable.pte (k.p.memstat.pages i).va).frame) with ⟨r, d, q⟩
      rw [hc] at he
      dsimp only at he
      rcases procSwapoutPage_eq hc with ⟨hr, file, hq⟩ | ⟨s, file, hr, hs, hq⟩
      · have hneg : r < 0 := by omega
        rw [if_pos hneg] at he
        cases he
        exact .refused r d q hmapped hd hc hneg (by rw [hq]) rfl rfl
      · have hpos : ¬ r < 0 := by omega
        obtain ⟨q', hq'⟩ : ∃ q' : Proc, q' = { q.residentPagesDown with
            swappedPages := q.residentPagesDown.swappedPages + 1
            swapoutCount := q.residentPagesDown.swapoutCount + 1 } := ⟨_, rfl⟩
        rw [if_neg hpos, ← hq', hr, sentOut_eq h hi hq hq'] at he
        cases he
        rw [hr] at hc
        exact .sent s d q hmapped hd hc hs rfl rfl
    · rename_i hd
      rw [hmark] at he
      cases he
      exact .dropped hmapped (by simpa using hd) rfl rfl

/-- **Everything `try_kalloc_or_replace` can do.** -/
inductive Room (k : Kernel) : Option Nat → Kernel → Prop where
  | had {f : Nat} {km : Kmem} : kalloc k.kmem = (some f, km) → Room k (some f) { k with kmem := km }
  /-- No page to evict. -/
  | nobody {km : Kmem} : kalloc k.kmem = (none, km) → selectVictimFifoIndex k.p.memstat = none →
      Room k none { k with kmem := km, p := k.p.setkilled }
  /-- The victim could not be written out. -/
  | stuck {km : Kmem} {i : Fin maxPagesInfo} {k₁ : Kernel} : kalloc k.kmem = (none, km) →
      selectVictimFifoIndex k.p.memstat = some i → Evicts { k with kmem := km } i false k₁ →
      Room k none k₁.kill
  | made {km km' : Kmem} {i : Fin maxPagesInfo} {k₁ : Kernel} {r : Option Nat} :
      kalloc k.kmem = (none, km) → selectVictimFifoIndex k.p.memstat = some i →
      Evicts { k with kmem := km } i true k₁ → kalloc k₁.kmem = (r, km') →
      Room k r { k₁ with kmem := km' }

theorem tryKalloc_room {k k' : Kernel} {r : Option Nat} (h : MemOk k.p.memstat)
    (ht : tryKallocOrReplace k = (r, k')) : Room k r k' := by
  unfold tryKallocOrReplace at ht
  rcases hk : kalloc k.kmem with ⟨_ | f, km⟩
  · rw [hk] at ht
    dsimp only at ht
    split at ht
    · rename_i hv
      cases ht
      exact .nobody hk hv
    · rename_i i hv
      have hlive := resident_live (selectVictim_resident hv)
      rcases he : evict { k with kmem := km } i with ⟨_ | _, k₁⟩
      · rw [he] at ht
        cases ht
        exact .stuck hk hv (evict_cases (k := { k with kmem := km }) h hlive he)
      · rw [he] at ht
        dsimp only at ht
        rcases hk₁ : kalloc k₁.kmem with ⟨r₁, km₁⟩
        rw [hk₁] at ht
        cases ht
        exact .made hk hv (evict_cases (k := { k with kmem := km }) h hlive he) hk₁
  · rw [hk] at ht
    cases ht
    exact .had hk

end Xv6Paging.Proof
