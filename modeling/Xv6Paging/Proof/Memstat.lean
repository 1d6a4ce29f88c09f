import Xv6Paging.Kernel.Trap

/-!
# The resident-page table

`memstat` is searched in three ways: for the entry in use at an address, for any
entry at an address whatever its state, and for an unused one. The functions mix
them freely, and what keeps the mixture sound is that no earlier entry carries the
address of an entry in use. `MemOk` says so, and then all searches for an address
in use end at the same entry.
-/

namespace Xv6Paging.Proof

open Xv6Paging

variable {m : MemStat} {va : Nat} {e : PageStat} {p : Proc}

/-- An entry that stands for a page. -/
def Live (m : MemStat) (i : Fin maxPagesInfo) : Prop := (m.pages i).state ≠ .unmapped

/-- The table is in order. -/
structure MemOk (m : MemStat) : Prop where
  aligned : ∀ i, (m.pages i).va % 4096 = 0
  small : ∀ i, (m.pages i).va < 2 ^ 32
  first : ∀ i j, j < i → Live m i → (m.pages j).va ≠ (m.pages i).va

theorem resident_live {i : Fin maxPagesInfo} (h : (m.pages i).state = .resident) :
    Live m i := by
  unfold Live
  rw [h]
  decide

theorem swapped_live {i : Fin maxPagesInfo} (h : (m.pages i).state = .swapped) :
    Live m i := by
  unfold Live
  rw [h]
  decide

/-- Two entries in use never share an address. -/
theorem MemOk.live_inj (h : MemOk m) {i j : Fin maxPagesInfo} (hi : Live m i) (hj : Live m j)
    (hva : (m.pages i).va = (m.pages j).va) : i = j := by
  rcases lt_trichotomy i j with hlt | heq | hlt
  · exact absurd hva (h.first j i hlt hj)
  · exact heq
  · exact absurd hva.symm (h.first i j hlt hi)

/-! ## The searches -/

theorem memstatLive_some {i : Fin maxPagesInfo} (h : memstatLive m va = some i) :
    Live m i ∧ (m.pages i).va = toUint va := by
  unfold memstatLive at h
  have hi := (Fin.find?_eq_some_iff.mp h).1
  simpa [Live] using hi

theorem memstatLive_none (h : memstatLive m va = none) (i : Fin maxPagesInfo) (hi : Live m i) :
    (m.pages i).va ≠ toUint va := by
  unfold memstatLive at h
  have hn := Fin.find?_eq_none_iff.mp h i
  simp only [Live] at hi
  simpa [hi] using hn

theorem memstatUnused_some {i : Fin maxPagesInfo} (h : memstatUnused m = some i) :
    (m.pages i).state = .unmapped ∧ ∀ j, j < i → Live m j := by
  unfold memstatUnused at h
  obtain ⟨hi, hlt⟩ := Fin.find?_eq_some_iff.mp h
  refine ⟨by simpa using hi, fun j hj => ?_⟩
  have hn := hlt j hj
  simpa [Live] using hn

/-- The search that ignores the state still finds the entry in use. -/
theorem MemOk.memstatVa_eq (h : MemOk m) {i : Fin maxPagesInfo} (hi : Live m i) :
    memstatVa m (m.pages i).va = some i := by
  unfold memstatVa
  refine Fin.find?_eq_some_iff.mpr ⟨by simp, fun j hj => ?_⟩
  have hne := h.first i j hj hi
  simpa using hne

theorem MemOk.memstatLive_eq (h : MemOk m) {i : Fin maxPagesInfo} (hi : Live m i)
    (hva : (m.pages i).va = toUint va) : memstatLive m va = some i := by
  cases hs : memstatLive m va with
  | none => exact absurd hva (memstatLive_none hs i hi)
  | some j =>
    obtain ⟨hj, hjva⟩ := memstatLive_some hs
    rw [h.live_inj hj hi (hjva.trans hva.symm)]

/-! ## Changing one entry -/

/-- `m` with entry `i` replaced. -/
def withPage (m : MemStat) (i : Fin maxPagesInfo) (e : PageStat) : MemStat :=
  { m with pages := Function.update m.pages i e }

/-- An entry may change its state when nothing before it has its address. -/
theorem MemOk.withPage (h : MemOk m) {i : Fin maxPagesInfo} (hal : e.va % 4096 = 0)
    (hsm : e.va < 2 ^ 32) (hbefore : e.state ≠ .unmapped → ∀ j, j < i → (m.pages j).va ≠ e.va)
    (hafter : ∀ j, i < j → Live m j → e.va ≠ (m.pages j).va) : MemOk (withPage m i e) := by
  refine ⟨fun j => ?_, fun j => ?_, fun j l hl hj => ?_⟩
  · by_cases hji : j = i
    · subst hji; simpa [Proof.withPage] using hal
    · simpa [Proof.withPage, hji] using h.aligned j
  · by_cases hji : j = i
    · subst hji; simpa [Proof.withPage] using hsm
    · simpa [Proof.withPage, hji] using h.small j
  · by_cases hji : j = i
    · subst hji
      have hli : l ≠ j := ne_of_lt hl
      have hst : e.state ≠ .unmapped := by simpa [Live, Proof.withPage] using hj
      simpa [Proof.withPage, hli] using hbefore hst l hl
    · have hj' : Live m j := by simpa [Live, Proof.withPage, hji] using hj
      by_cases hli : l = i
      · subst hli
        simpa [Proof.withPage, hji] using hafter j hl hj'
      · simpa [Proof.withPage, hji, hli] using h.first j l hl hj'

/-- Keeping the address of an entry in use keeps the table in order. -/
theorem MemOk.withPage_live (h : MemOk m) {i : Fin maxPagesInfo} (hi : Live m i)
    (hva : e.va = (m.pages i).va) : MemOk (Proof.withPage m i e) := by
  refine h.withPage (hva ▸ h.aligned i) (hva ▸ h.small i) (fun _ j hj => ?_) (fun j hj hlive => ?_)
  · rw [hva]; exact h.first i j hj hi
  · rw [hva]; exact h.first j i hj hlive

/-- The first unused entry may be taken for an address no entry in use has. -/
theorem MemOk.withPage_unused (h : MemOk m) {i : Fin maxPagesInfo} (hi : memstatUnused m = some i)
    (hnone : memstatLive m va = none) (hal : va % 4096 = 0) (hva : e.va = toUint va) :
    MemOk (Proof.withPage m i e) := by
  obtain ⟨_, hbefore⟩ := memstatUnused_some hi
  refine h.withPage (hva ▸ toUint_mod hal) (hva ▸ toUint_lt va) (fun _ j hj => ?_)
    (fun j _ hlive => ?_)
  · rw [hva]; exact memstatLive_none hnone j (hbefore j hj)
  · rw [hva]; exact (memstatLive_none hnone j hlive).symm

/-! ## Recording a page -/

theorem MemOk.congr {m' : MemStat} (h : MemOk m) (hp : m'.pages = m.pages) : MemOk m' := by
  refine ⟨fun i => ?_, fun i => ?_, fun i j hj hi => ?_⟩
  · rw [hp]; exact h.aligned i
  · rw [hp]; exact h.small i
  · have hi' : Live m i := by simpa [Live, hp] using hi
    rw [hp]
    exact h.first i j hj hi'

/-- The entry `memstat_find_index` settles on for `va`. -/
def Chosen (m : MemStat) (va : Nat) (i : Fin maxPagesInfo) : Prop :=
  memstatLive m va = some i ∨ memstatLive m va = none ∧ memstatUnused m = some i

/-- The process with the entry chosen for `va` rewritten, and a new count of residents. -/
def recorded (p : Proc) (i : Fin maxPagesInfo) (e : PageStat) (n : Int) : Proc :=
  { p with memstat :=
    { p.memstat with pages := Function.update p.memstat.pages i e, numResidentPages := n } }

theorem memstatFindIndex_cases (p : Proc) (va : Nat) :
    memstatFindIndex p va = (none, p) ∨
      ∃ i, Chosen p.memstat va i ∧
        memstatFindIndex p va = (some i,
          p.setPage i { p.memstat.pages i with va := toUint va }) := by
  unfold memstatFindIndex
  cases hl : memstatLive p.memstat va with
  | some i =>
    refine Or.inr ⟨i, Or.inl hl, ?_⟩
    -- the entry has this address already, so writing it changes nothing
    have hva := (memstatLive_some hl).2
    have hsame : ({ p.memstat.pages i with va := toUint va } : PageStat) = p.memstat.pages i := by
      rw [← hva]
    rw [hsame]
    simp [Proc.setPage]
  | none =>
    cases hu : memstatUnused p.memstat with
    | some i => exact Or.inr ⟨i, Or.inr ⟨hl, hu⟩, rfl⟩
    | none => exact Or.inl rfl

/-- `memstat_mark_unmapped` and `memstat_mark_swapped` rewrite one entry or do nothing. -/
theorem memstatMark_cases (p : Proc) (va : Nat) (st : PageState) (slot : Int) :
    memstatMark p va st slot = p ∨
      ∃ i, Chosen p.memstat va i ∧ memstatMark p va st slot = recorded p i
        { p.memstat.pages i with va := toUint va, state := st, swapSlot := slot }
        (residentDown p.memstat (p.memstat.pages i)) := by
  unfold memstatMark
  rcases memstatFindIndex_cases p va with h | ⟨i, hi, h⟩
  · rw [h]; exact Or.inl rfl
  · rw [h]
    refine Or.inr ⟨i, hi, ?_⟩
    simp [recorded, Proc.setPage, residentDown]

/-- `memstat_mark_resident` rewrites one entry or does nothing. -/
theorem memstatMarkResident_cases (p : Proc) (va : Nat) (seq : Int) :
    memstatMarkResident p va seq = p ∨
      ∃ i, Chosen p.memstat va i ∧ memstatMarkResident p va seq = recorded p i
        ⟨toUint va, .resident, false, seq, -1⟩
        (if (p.memstat.pages i).state ≠ .resident then p.memstat.numResidentPages + 1
          else p.memstat.numResidentPages) := by
  unfold memstatMarkResident
  rcases memstatFindIndex_cases p va with h | ⟨i, hi, h⟩
  · rw [h]; exact Or.inl rfl
  · rw [h]
    refine Or.inr ⟨i, hi, ?_⟩
    simp [recorded, Proc.setPage]

/-- Whatever a recording function writes at the entry it chose, the table stays in order. -/
theorem MemOk.recorded (h : MemOk p.memstat) {i : Fin maxPagesInfo} {n : Int}
    (hi : Chosen p.memstat va i) (hal : va % 4096 = 0) (hva : e.va = toUint va) :
    MemOk (recorded p i e n).memstat := by
  rcases hi with hl | ⟨hnone, hu⟩
  · obtain ⟨hlive, hiva⟩ := memstatLive_some hl
    exact (h.withPage_live hlive (hva.trans hiva.symm)).congr rfl
  · exact (h.withPage_unused hu hnone hal hva).congr rfl

/-! ## The order survives every function -/

/-- The first entry with an address may take any state. -/
theorem MemOk.withPage_first (h : MemOk m) {i : Fin maxPagesInfo} (hi : memstatVa m va = some i)
    (hva : e.va = (m.pages i).va) :
    MemOk (Proof.withPage m i e) := by
  unfold memstatVa at hi
  obtain ⟨hiva, hbefore⟩ := Fin.find?_eq_some_iff.mp hi
  have hiva' : (m.pages i).va = va := by simpa using hiva
  refine h.withPage (hva ▸ h.aligned i) (hva ▸ h.small i) (fun _ j hj => ?_) (fun j hj hlive => ?_)
  · have hne := hbefore j hj
    rw [hva, hiva']
    simpa using hne
  · rw [hva]
    exact h.first j i hj hlive

theorem MemOk.memstatSwap (h : MemOk p.memstat) (va : Nat) (st : PageState) (slot : Int) :
    MemOk (memstatSwap p va st slot).memstat := by
  unfold Xv6Paging.memstatSwap
  cases hi : memstatVa p.memstat va with
  | none => exact h
  | some i =>
    have hw := h.withPage_first hi (e := { p.memstat.pages i with
      state := st, swapSlot := slot, isDirty := false }) rfl
    exact hw.congr rfl

theorem MemOk.memstatMark (h : MemOk p.memstat) (hal : va % 4096 = 0) (st : PageState)
    (slot : Int) : MemOk (memstatMark p va st slot).memstat := by
  rcases memstatMark_cases p va st slot with hm | ⟨i, hi, hm⟩
  · rw [hm]; exact h
  · rw [hm]; exact h.recorded hi hal rfl

theorem MemOk.memstatMarkResident (h : MemOk p.memstat) (hal : va % 4096 = 0) (seq : Int) :
    MemOk (memstatMarkResident p va seq).memstat := by
  rcases memstatMarkResident_cases p va seq with hm | ⟨i, hi, hm⟩
  · rw [hm]; exact h
  · rw [hm]; exact h.recorded hi hal rfl

end Xv6Paging.Proof
