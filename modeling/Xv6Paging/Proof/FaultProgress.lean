import Xv6Paging.Proof.FaultSafe
import Xv6Paging.Proof.Loading

/-!
# Faults that are taken again

A fault is taken because the entry of its page does not permit the access. The handler
returns to the same instruction, so unless the process has been killed the entry had
better permit it now, or after the second time: a page of the data is first mapped
read-only, and a write to it faults once more.

There are two ways to get stuck. An instruction fetch from a page of the executable that is
not text finds the page, takes away the permission it did not have, and returns. And the
handlers for the heap, the stack and the swap file do nothing about a page that is mapped.
-/

namespace Xv6Paging.Proof

open Xv6Paging Lib

variable {k k' : Kernel} {va va0 : Nat} {acc : Access} {p : Proc} {swapped : Bool}

/-- The process is dead, or the access goes through. -/
def Resolved (k : Kernel) (va : Nat) (acc : Access) : Prop :=
  k.p.killed = true ∨ (k.pte va).permits acc = true

/-- An address for the handler of the heap, the stack and the swap file. -/
structure AnonPage (p : Proc) (va : Nat) : Prop where
  guard : p.inGuard va = false
  kind : wasSwapped p.memstat (toUint (pgRoundDown va)) = true ∨
    va < p.sz ∧ p.inText va = false ∧ p.inData va = false

/-- The faults that are taken again and again. -/
inductive Stuck (k : Kernel) (va : Nat) (acc : Access) : Prop where
  /-- An instruction fetch from data. -/
  | fetch : k.p.killed = false → acc = .exec → ExecPage k.p va →
      k.p.textRange (pgRoundDown va) = false →
      ((k.pte va).v = true ∧ (k.pte va).perm.u = true ∨
        (k.pte va).v = false ∧ SliceThere k.p (pgRoundDown va)) → Stuck k va acc
  /-- A load or store to a page that is mapped, but not for that. -/
  | ignored : k.p.killed = false → acc ≠ .exec → AnonPage k.p va → (k.pte va).v = true →
      (k.pte va).permits acc = false → Stuck k va acc

/-! ## Which handler is asked -/

theorem ExecPage.below (h : ExecPage p va) : va < p.sz := by
  rcases h.segment with hs | hs
  · simp only [Proc.inText, Proc.underBrk, Bool.and_eq_true, decide_eq_true_eq] at hs
    exact hs.1
  · simp only [Proc.inData, Proc.underBrk, Bool.and_eq_true, decide_eq_true_eq] at hs
    exact hs.1

theorem AnonPage.cause (h : AnonPage p va) (hacc : acc ≠ .exec) :
    ∃ c, p.cause va acc = some c ∧ c ≠ .exec := by
  by_cases hsw : wasSwapped p.memstat (toUint (pgRoundDown va)) = true
  · exact ⟨.swap, LooksSwapped.cause ⟨h.guard, hsw⟩ acc, by decide⟩
  · obtain ⟨hlt, htext, hdata⟩ := h.kind.resolve_left hsw
    have hns : wasSwapped p.memstat (toUint (pgRoundDown va)) = false := by simpa using hsw
    unfold Proc.cause
    rw [h.guard, hns, htext, hdata]
    cases hstack : p.inStack va with
    | true => exact ⟨.stack, by simp [hacc], by decide⟩
    | false =>
      have hheap : p.inHeap va = true := by
        simp [Proc.inHeap, Proc.underBrk, hlt, htext, hdata, hstack, h.guard]
      exact ⟨.heap, by simp [hacc, hheap], by decide⟩

theorem anonPage_of_cause {c : Cause} (h : p.cause va acc = some c) (hne : c ≠ .exec) :
    AnonPage p va := by
  refine ⟨cause_guard h, ?_⟩
  by_cases hsw : wasSwapped p.memstat (toUint (pgRoundDown va)) = true
  · exact Or.inl hsw
  · have hns : wasSwapped p.memstat (toUint (pgRoundDown va)) = false := by simpa using hsw
    refine Or.inr ⟨cause_underBrk h hns, ?_⟩
    -- a page of the executable would have been handled as one
    by_contra hseg
    have hexec : ExecPage p va := by
      refine ⟨cause_guard h, hns, ?_⟩
      cases htext : p.inText va with
      | true => exact Or.inl rfl
      | false =>
        cases hdata : p.inData va with
        | true => exact Or.inr rfl
        | false => exact absurd ⟨htext, hdata⟩ hseg
    rw [hexec.cause] at h
    exact hne (Option.some.inj h).symm

theorem handleFault_anon {c : Cause} (hne : c ≠ .exec)
    (h : handleFault k va0 acc swapped (some c) = .ok k') :
    va0 < maxVA ∧ faultAnon k va0 acc swapped = .ok k' := by
  unfold handleFault at h
  dsimp only at h
  split at h
  · cases h
  · rename_i hge
    refine ⟨Nat.lt_of_not_le hge, ?_⟩
    cases c with
    | exec => exact absurd rfl hne
    | swap => exact h
    | stack => exact h
    | heap => exact h

theorem handleFault_exec (h : handleFault k va0 acc swapped (some .exec) = .ok k') :
    va0 < maxVA ∧ faultExec k va0 acc = .ok k' := by
  rw [handleFault] at h
  split at h
  · cases h
  · rename_i hge
    exact ⟨Nat.lt_of_not_le hge, h⟩

theorem AnonPage.handled (h : AnonPage k.p va) (hacc : acc ≠ .exec)
    (ht : usertrapPageFault k va acc = .ok k') :
    pgRoundDown va < maxVA ∧ faultAnon k.countFault (pgRoundDown va) acc
      (wasSwapped k.p.memstat (toUint (pgRoundDown va))) = .ok k' := by
  obtain ⟨c, hc, hne⟩ := h.cause hacc
  unfold usertrapPageFault at ht
  rw [hc] at ht
  exact handleFault_anon hne ht

theorem ExecPage.handled (h : ExecPage k.p va) (ht : usertrapPageFault k va acc = .ok k') :
    pgRoundDown va < maxVA ∧ faultExec k.countFault (pgRoundDown va) acc = .ok k' := by
  unfold usertrapPageFault at ht
  rw [h.cause] at ht
  exact handleFault_exec ht

/-- Whose fault does not kill is a page of the executable, or one of the others and no fetch. -/
theorem usertrap_kinds (ht : usertrapPageFault k va acc = .ok k') :
    k'.p.killed = true ∨ ExecPage k.p va ∨ AnonPage k.p va ∧ acc ≠ .exec := by
  unfold usertrapPageFault at ht
  cases hc : k.p.cause va acc with
  | none =>
    rw [hc] at ht
    cases ht
    exact Or.inl rfl
  | some c =>
    rw [hc] at ht
    by_cases hexec : c = .exec
    · rw [hexec] at hc
      exact Or.inr (Or.inl (execPage_of_cause hc))
    · by_cases hacc : acc = .exec
      · obtain ⟨_, hf⟩ := handleFault_anon hexec ht
        rw [faultAnon, if_pos hacc] at hf
        cases hf
        exact Or.inl rfl
      · exact Or.inr (Or.inr ⟨anonPage_of_cause hc hexec, hacc⟩)

/-! ## A page that is there -/

/-- Nothing but the permissions of the page of `va` has changed, as far as a fault there is
concerned. -/
structure Adjusted (k k' : Kernel) (va : Nat) (perm : Perm) : Prop where
  pte : k'.pte va = { k.pte va with perm := perm }
  killed : k'.p.killed = k.p.killed
  image : k'.p.image = k.p.image
  swapped : wasSwapped k'.p.memstat (toUint (pgRoundDown va)) =
    wasSwapped k.p.memstat (toUint (pgRoundDown va))

theorem kernelPte_eq (k : Kernel) (hmax : pgRoundDown va < maxVA) :
    k.pte va = k.p.pagetable.pte (pgRoundDown va) := by
  have hva : va < maxVA := by
    rw [maxVA_eq] at hmax ⊢
    unfold pgRoundDown at hmax
    omega
  unfold Kernel.pte
  rw [if_pos hva]
  exact (pte_congr _ (pgRoundDown_div va)).symm

theorem wasSwapped_iff (m : MemStat) (v : Nat) :
    wasSwapped m v = true ↔ ∃ i, (m.pages i).state = .swapped ∧ (m.pages i).va = v := by
  constructor
  · intro h
    obtain ⟨i, hi⟩ := Option.isSome_iff_exists.mp h
    have hfound := (Fin.find?_eq_some_iff.mp hi).1
    exact ⟨i, by simpa using hfound⟩
  · rintro ⟨i, hst, hva⟩
    by_contra hno
    exact wasSwapped_false (by simpa using hno) i hst hva

theorem wasSwapped_markDirty (p : Proc) (o : Option (Fin maxPagesInfo)) (v : Nat) :
    wasSwapped (p.markDirty o).memstat v = wasSwapped p.memstat v := by
  rw [Bool.eq_iff_iff, wasSwapped_iff, wasSwapped_iff]
  refine exists_congr fun i => ?_
  obtain ⟨hva, hst, _⟩ := markDirty_keys p o i
  rw [hva, hst]

theorem markDirty_killed (p : Proc) (o : Option (Fin maxPagesInfo)) :
    (p.markDirty o).killed = p.killed := by
  cases o <;> rfl

theorem adjusted_markDirty (k₁ : Kernel) {perm : Perm} (o : Option (Fin maxPagesInfo))
    (hmax : pgRoundDown va < maxVA) (hpte : k₁.p.pagetable.pte (pgRoundDown va) =
      { k.p.pagetable.pte (pgRoundDown va) with perm := perm }) (hkilled : k₁.p.killed = k.p.killed)
    (himage : k₁.p.image = k.p.image) (hmem : k₁.p.memstat = k.p.memstat) :
    Adjusted k { k₁ with p := k₁.p.markDirty o } va perm := by
  refine ⟨?_, (markDirty_killed _ _).trans hkilled, (markDirty_space _ _).image.trans himage, ?_⟩
  · rw [kernelPte_eq _ hmax, kernelPte_eq _ hmax]
    show (k₁.p.markDirty o).pagetable.pte (pgRoundDown va) = _
    rw [(markDirty_space _ _).pagetable]
    exact hpte
  · show wasSwapped (k₁.p.markDirty o).memstat _ = _
    rw [wasSwapped_markDirty, hmem]

/-- The handler for the heap, the stack and the swap file at most marks a mapped page dirty. -/
theorem faultAnon_mapped (hacc : acc ≠ .exec) (hv : (k.p.pagetable.pte va0).v = true)
    (h : faultAnon k va0 acc swapped = .ok k') : ∃ o, k' = { k with p := k.p.markDirty o } := by
  rw [faultAnon, if_neg hacc, hv, if_neg (by simp)] at h
  split at h
  · obtain ⟨o, ho⟩ : ∃ o, o = memstatResident k.p.memstat (toUint va0) := ⟨_, rfl⟩
    rw [← ho] at h
    cases h
    exact ⟨o, rfl⟩
  · cases h
    exact ⟨none, rfl⟩

/-- The handler for the executable sets the permissions of a mapped page. -/
theorem faultExec_mapped (hmax : va0 < maxVA) (hwt : ¬ (acc = .write ∧ k.p.textRange va0 = true))
    (hv : (k.p.pagetable.pte va0).v = true) (hu : (k.p.pagetable.pte va0).perm.u = true)
    (h : faultExec k va0 acc = .ok k') :
    ∃ o k₁, k₁ = k.setPerm va0 (grantedPerm k.p va0 acc (k.p.pagetable.pte va0).perm) ∧
      k' = { k₁ with p := k₁.p.markDirty o } := by
  have hwalk : walkaddr k.p.pagetable va0 = some (k.p.pagetable.pte va0).frame := by
    unfold walkaddr
    rw [if_neg (Nat.not_le.mpr hmax)]
    simp [hv, hu]
  unfold faultExec at h
  dsimp only at h
  rw [if_neg hwt, hwalk] at h
  dsimp only at h
  unfold grantedPerm
  split at h
  · rename_i hw
    rw [if_pos hw]
    obtain ⟨k₁, hk₁⟩ : ∃ k₁, k₁ = k.setPerm va0
      { (k.p.pagetable.pte va0).perm with w := true } := ⟨_, rfl⟩
    rw [← hk₁] at h ⊢
    obtain ⟨o, ho⟩ : ∃ o, o = memstatVa k₁.p.memstat (toUint va0) := ⟨_, rfl⟩
    rw [← ho] at h
    cases h
    exact ⟨o, k₁, rfl, rfl⟩
  · rename_i hw
    rw [if_neg hw]
    cases h
    exact ⟨none, _, rfl, rfl⟩

theorem AnonPage.adjusts (h : AnonPage k.p va) (hacc : acc ≠ .exec) (hv : (k.pte va).v = true)
    (ht : usertrapPageFault k va acc = .ok k') :
    Adjusted k k' va (k.pte va).perm := by
  obtain ⟨hmax, hf⟩ := h.handled hacc ht
  rw [kernelPte_eq _ hmax] at hv ⊢
  obtain ⟨o, hk'⟩ := faultAnon_mapped (k := k.countFault) hacc hv hf
  rw [hk']
  exact adjusted_markDirty k.countFault o hmax rfl rfl rfl rfl

theorem ExecPage.adjusts (h : ExecPage k.p va)
    (hwt : ¬ (acc = .write ∧ k.p.textRange (pgRoundDown va) = true)) (hv : (k.pte va).v = true)
    (hu : (k.pte va).perm.u = true) (ht : usertrapPageFault k va acc = .ok k') :
    Adjusted k k' va (grantedPerm k.p (pgRoundDown va) acc (k.pte va).perm) := by
  obtain ⟨hmax, hf⟩ := h.handled ht
  rw [kernelPte_eq _ hmax] at hv hu ⊢
  obtain ⟨o, k₁, hk₁, hk'⟩ := faultExec_mapped (k := k.countFault) hmax hwt hv hu hf
  rw [hk']
  refine adjusted_markDirty k₁ o hmax ?_ ?_ ?_ ?_
  · rw [hk₁]
    refine (pte_set _ (table0_of_valid hv) hmax ?_).trans (if_pos rfl)
    exact Nat.lt_of_lt_of_le hmax (by omega)
  · rw [hk₁]; rfl
  · rw [hk₁]; rfl
  · rw [hk₁]; rfl

theorem AnonPage.of_adjusted {perm : Perm} (h : AnonPage k.p va) (ha : Adjusted k k' va perm) :
    AnonPage k'.p va := by
  refine ⟨(inGuard_of_image ha.image va).trans h.guard, ?_⟩
  rw [ha.swapped, sz_of_image ha.image, inText_of_image ha.image, inData_of_image ha.image]
  exact h.kind

theorem ExecPage.of_image {q : Proc} (h : ExecPage p va) (himage : q.image = p.image)
    (hns : wasSwapped q.memstat (toUint (pgRoundDown va)) = false) : ExecPage q va := by
  refine ⟨(inGuard_of_image himage va).trans h.guard, hns, ?_⟩
  rw [inText_of_image himage, inData_of_image himage]
  exact h.segment

/-! ## A page that is not there -/

section

variable {C : Prop} {U S : Set Nat}

/-- A page for the heap, the stack or from the swap file is the user's to read and write. -/
theorem AnonPage.installs (h : AnonPage k.p va) (hok : SpaceOk C U S k.kmem k.p)
    (hacc : acc ≠ .exec) (hv : (k.pte va).v = false) (ht : usertrapPageFault k va acc = .ok k') :
    Resolved k' va acc := by
  have hal := pgRoundDown_mod va
  have h₀ : SpaceOk C U S k.countFault.kmem k.countFault.p := hok.same ⟨rfl, rfl⟩ hok.mem
  obtain ⟨hmax, hf⟩ := h.handled hacc ht
  rw [kernelPte_eq _ hmax] at hv
  have hv' : (k.countFault.p.pagetable.pte (pgRoundDown va)).v = false := hv
  rw [faultAnon, if_neg hacc, hv', if_pos (by rfl)] at hf
  split at hf
  · cases hf
    exact Or.inl rfl
  · obtain ⟨r, k₂, hi, hk'⟩ := installAnon_cases hf
    cases r with
    | none =>
      rw [hk']
      exact Or.inl rfl
    | some f =>
      obtain ⟨_, _, _, _, _, hpage⟩ := (hi.contents (recording_anon hal acc) h₀ hal hmax
        (hok.unmapped_low hmax hv)).2 f rfl
      obtain ⟨hpte, _⟩ := hpage rfl
      right
      rw [hk', settle_some, kernelPte_eq _ hmax, hpte]
      cases acc with
      | read => rfl
      | write => rfl
      | exec => exact absurd rfl hacc

theorem recordExec_swapped {v : Nat} (h : wasSwapped p.memstat v = false) :
    wasSwapped (recordExec va p).memstat v = false := by
  have hnone := wasSwapped_false h
  by_contra hsw
  obtain ⟨i, hst, hva⟩ := (wasSwapped_iff _ _).mp (by simpa using hsw)
  obtain ⟨q, hq, hdef⟩ := recordResident_eq p va
  have hpages : q.memstat.pages = p.memstat.pages := by rw [hq]
  have hrec : (recordExec va p).memstat = (p.recordResident va).memstat := by
    unfold recordExec
    generalize p.recordResident va = q
    rfl
  rw [hrec, hdef] at hst hva
  rcases memstatMarkResident_cases q va p.memstat.nextFifoSeq with hr | ⟨j, _, hr⟩
  · rw [hr, hpages] at hst hva
    exact hnone i hst hva
  · have hupd : (memstatMarkResident q va p.memstat.nextFifoSeq).memstat.pages =
        Function.update p.memstat.pages j ⟨toUint va, .resident, false,
        p.memstat.nextFifoSeq, -1⟩ := by
      rw [hr, ← hpages]
      rfl
    rw [hupd] at hst hva
    by_cases hij : i = j
    · rw [hij, Function.update_self] at hst
      cases hst
    · rw [Function.update_of_ne hij] at hst hva
      exact hnone i hst hva

/-- The page of the executable has been mapped, with what its place permits at first. -/
structure Loaded (k k' : Kernel) (va : Nat) : Prop where
  pte : ∃ f, k'.pte va =
    ⟨true, if k.p.textRange (pgRoundDown va) then permURX else permUR, f⟩
  killed : k'.p.killed = k.p.killed
  image : k'.p.image = k.p.image
  page : ExecPage k'.p va

/-- A page of the executable that is not mapped for the user goes to `installExec`. -/
theorem ExecPage.fetched (h : ExecPage k.p va)
    (hwt : ¬ (acc = .write ∧ k.p.textRange (pgRoundDown va) = true))
    (hvu : ¬ ((k.pte va).v = true ∧ (k.pte va).perm.u = true))
    (ht : usertrapPageFault k va acc = .ok k') :
    pgRoundDown va < maxVA ∧ installExec k.countFault (pgRoundDown va) = .ok k' := by
  obtain ⟨hmax, hf⟩ := h.handled ht
  refine ⟨hmax, ?_⟩
  rw [kernelPte_eq _ hmax] at hvu
  have hwt' : ¬ (acc = .write ∧ k.countFault.p.textRange (pgRoundDown va) = true) := hwt
  have hwalk : walkaddr k.countFault.p.pagetable (pgRoundDown va) = none := by
    unfold walkaddr
    rw [if_neg (Nat.not_le.mpr hmax)]
    exact if_neg hvu
  unfold faultExec at hf
  dsimp only at hf
  rw [if_neg hwt', hwalk] at hf
  exact hf

theorem ExecPage.writesText (h : ExecPage k.p va)
    (hwt : acc = .write ∧ k.p.textRange (pgRoundDown va) = true)
    (ht : usertrapPageFault k va acc = .ok k') : k'.p.killed = true := by
  obtain ⟨_, hf⟩ := h.handled ht
  have hwt' : acc = .write ∧ k.countFault.p.textRange (pgRoundDown va) = true := hwt
  unfold faultExec at hf
  dsimp only at hf
  rw [if_pos hwt'] at hf
  cases hf
  rfl

/-- The file has become too short for the page. -/
theorem ExecPage.unreadable (h : ExecPage k.p va) (hok : SpaceOk C U S k.kmem k.p)
    (hwt : ¬ (acc = .write ∧ k.p.textRange (pgRoundDown va) = true))
    (hvu : ¬ ((k.pte va).v = true ∧ (k.pte va).perm.u = true))
    (hno : ¬ SliceThere k.p (pgRoundDown va)) (ht : usertrapPageFault k va acc = .ok k') :
    k'.p.killed = true := by
  have h₀ : SpaceOk C U S k.countFault.kmem k.countFault.p := hok.same ⟨rfl, rfl⟩ hok.mem
  obtain ⟨_, hf⟩ := h.fetched hwt hvu ht
  have hnone : k.countFault.p.slicePage (pgRoundDown va) = none := by
    rw [show k.countFault.p.slicePage (pgRoundDown va) = k.p.slicePage (pgRoundDown va) from
      slicePage_of_image rfl _]
    by_contra hsome
    exact hno ((slicePage_iff _ _).mp hsome)
  obtain ⟨k₁, hk₁, hkilled⟩ := installExec_unreadable h₀ hnone
  rw [hk₁] at hf
  cases hf
  exact hkilled

/-- With frames for it, any other page of the executable is loaded. -/
theorem ExecPage.loads (h : ExecPage k.p va) (hok : SpaceOk C U S k.kmem k.p)
    (hp : kallocs 3 k.kmem = true) (hwt : ¬ (acc = .write ∧ k.p.textRange (pgRoundDown va) = true))
    (hv : (k.pte va).v = false) (hthere : SliceThere k.p (pgRoundDown va))
    (ht : usertrapPageFault k va acc = .ok k') :
    Loaded k k' va := by
  have hal := pgRoundDown_mod va
  have h₀ : SpaceOk C U S k.countFault.kmem k.countFault.p := hok.same ⟨rfl, rfl⟩ hok.mem
  obtain ⟨hmax, hf⟩ := h.fetched hwt (fun hvu => by rw [hv] at hvu; cases hvu.1) ht
  rw [kernelPte_eq _ hmax] at hv
  obtain ⟨pg, hpg⟩ := Option.ne_none_iff_exists'.mp ((slicePage_iff _ _).mpr hthere)
  obtain ⟨r, k₂, hi, hk'⟩ := installExec_cases hf
  obtain ⟨hsome, _, km, g, pt, hrec⟩ := hi.available hp h₀ hal hmax fun km f => by
    have hfill : (k.p.slicePage (pgRoundDown va)).isSome = true := by
      rw [hpg]
      rfl
    rw [← show k.countFault.p.slicePage (pgRoundDown va) = k.p.slicePage (pgRoundDown va) from
      slicePage_of_image rfl _] at hfill
    exact hfill
  obtain ⟨f, hf⟩ := Option.isSome_iff_exists.mp hsome
  subst hf
  rw [settle_some] at hk'
  rw [hk']
  obtain ⟨k₁, _, _, hroom, _, hpage⟩ := (hi.contents (recording_exec hal) h₀ hal hmax
    (hok.unmapped_low hmax hv)).2 f rfl
  have himage : k₂.p.image = k.p.image := hi.image (recording_exec hal) h₀.mem
  refine ⟨⟨f, ?_⟩, hi.killed (fun p => recordExec_killed p _) h₀.mem, himage, ?_⟩
  · rw [kernelPte_eq _ hmax, (hpage rfl).1,
      textRange_of_image (tryKalloc_room h₀.mem hroom).image]
    rfl
  · refine h.of_image himage ?_
    rw [hrec]
    exact recordExec_swapped h.swapped

end

/-! ## Once resolved -/

theorem Handled.killed_stays (hh : Handled k va acc k') (hm : MemOk k.p.memstat)
    (hdead : k.p.killed = true) : k'.p.killed = true := by
  cases hh with
  | killed _ hk' => rw [hk']; rfl
  | noted o _ _ _ hk' => rw [hk']; exact (markDirty_killed _ _).trans hdead
  | granted o k₁ _ _ _ _ _ _ hk₁ hk' =>
    rw [hk']
    refine (markDirty_killed _ _).trans ?_
    rw [hk₁]
    exact hdead
  | anon swapped r k₁ _ _ hi hk' =>
    rw [hk']
    cases r with
    | none => rfl
    | some f => exact (hi.killed (fun p => recordAnon_killed p _ _) hm).trans hdead
  | exec r k₁ _ _ hi hk' =>
    rw [hk']
    cases r with
    | none => rfl
    | some f => exact (hi.killed (fun p => recordExec_killed p _) hm).trans hdead

theorem permits_valid {e : Pte} (h : e.permits acc = true) :
    e.v = true ∧ e.perm.u = true := by
  cases acc with
  | read | write | exec =>
    simp only [Pte.permits, Bool.and_eq_true] at h
    exact h.1

/-- What the handler for the executable grants is what was asked for, but for a fetch from data. -/
theorem granted_permits {e : Pte} (hv : e.v = true) (hu : e.perm.u = true)
    (hfetch : acc = .exec → p.textRange va0 = true) :
    ({ e with perm := grantedPerm p va0 acc e.perm } : Pte).permits acc = true := by
  cases acc with
  | read =>
    unfold grantedPerm
    rw [if_neg (by decide)]
    split <;> simp [Pte.permits, hv, permURX, permUR]
  | write => simp [Pte.permits, grantedPerm, hv, hu]
  | exec =>
    unfold grantedPerm
    rw [if_neg (by decide), if_pos (hfetch rfl)]
    simp [Pte.permits, hv, permURX]

section

variable {C : Prop} {U S : Set Nat}

theorem ExecPage.low (h : ExecPage k.p va) (hok : SpaceOk C U S k.kmem k.p) :
    pgRoundDown va < trapframeVA :=
  Nat.lt_of_le_of_lt (pgRoundDown_le va) (Nat.lt_of_lt_of_le h.below hok.brk)

/-- Only pages of the text can be executed. -/
theorem SpaceOk.fetch_text (hok : SpaceOk C U S k.kmem k.p) (hlow : pgRoundDown va < trapframeVA)
    (hx : (k.pte va).permits .exec = true) :
    k.p.textRange (pgRoundDown va) = true := by
  rw [kernelPte_eq _ (lt_maxVA hlow)] at hx
  simp only [Pte.permits, Bool.and_eq_true] at hx
  have hexcl := (hok.wx _ hlow hx.1.1 hx.2).2
  rwa [pgRoundDown_eq_of_mod (pgRoundDown_mod va)] at hexcl

/-- **An access that goes through still does** after another fault there, or the process is dead. -/
theorem Resolved.stays (h : Resolved k va acc) (hok : SpaceOk C U S k.kmem k.p)
    (ht : usertrapPageFault k va acc = .ok k') :
    Resolved k' va acc := by
  rcases h with hdead | hperm
  · have hm : MemOk k.countFault.p.memstat := hok.mem
    exact Or.inl ((usertrap_cases ht).killed_stays hm hdead)
  · obtain ⟨hv, hu⟩ := permits_valid hperm
    rcases usertrap_kinds ht with hdead | hexec | ⟨hanon, hacc⟩
    · exact Or.inl hdead
    · by_cases hwt : acc = .write ∧ k.p.textRange (pgRoundDown va) = true
      · exact Or.inl (hexec.writesText hwt ht)
      · right
        rw [(hexec.adjusts hwt hv hu ht).pte]
        refine granted_permits hv hu fun hfetch => ?_
        rw [hfetch] at hperm
        exact hok.fetch_text (hexec.low hok) hperm
    · right
      rw [(hanon.adjusts hacc hv ht).pte]
      exact hperm

/-- A page of the data, mapped and waiting for the second fault of a write. -/
structure Pending (k : Kernel) (va : Nat) : Prop where
  page : ExecPage k.p va
  data : k.p.textRange (pgRoundDown va) = false
  mapped : (k.pte va).v = true
  user : (k.pte va).perm.u = true

theorem Loaded.outcome (h : Loaded k k' va)
    (hwt : ¬ (acc = .write ∧ k.p.textRange (pgRoundDown va) = true))
    (hfetch : acc = .exec → k.p.textRange (pgRoundDown va) = true) :
    Resolved k' va acc ∨ acc = .write ∧ Pending k' va := by
  obtain ⟨f, hpte⟩ := h.pte
  cases acc with
  | read =>
    left; right
    rw [hpte]
    split <;> rfl
  | exec =>
    left; right
    rw [hpte, if_pos (hfetch rfl)]
    rfl
  | write =>
    right
    have hdata : k.p.textRange (pgRoundDown va) = false := by simpa using hwt
    refine ⟨rfl, h.page, (textRange_of_image h.image _).trans hdata, ?_, ?_⟩
    · rw [hpte]
    · rw [hpte, hdata]
      rfl

/-- **The first fault** resolves the access or prepares a write to data, unless it is stuck. -/
theorem first_fault (hok : SpaceOk C U S k.kmem k.p) (hp : kallocs 3 k.kmem = true)
    (hfree : ¬ Stuck k va acc) (ht : usertrapPageFault k va acc = .ok k') :
    Resolved k' va acc ∨ acc = .write ∧ Pending k' va := by
  by_cases hdead : k.p.killed = true
  · exact Or.inl (Resolved.stays (Or.inl hdead) hok ht)
  have halive : k.p.killed = false := by simpa using hdead
  rcases usertrap_kinds ht with hkill | hexec | ⟨hanon, hacc⟩
  · exact Or.inl (Or.inl hkill)
  · by_cases hwt : acc = .write ∧ k.p.textRange (pgRoundDown va) = true
    · exact Or.inl (Or.inl (hexec.writesText hwt ht))
    · -- a fetch is from text, or it would be stuck
      have hfetch : (k.pte va).v = true ∧ (k.pte va).perm.u = true ∨
          (k.pte va).v = false ∧ SliceThere k.p (pgRoundDown va) → acc = .exec →
          k.p.textRange (pgRoundDown va) = true := by
        intro hthere hacc
        by_contra hdata
        exact hfree (.fetch halive hacc hexec (by simpa using hdata) hthere)
      by_cases hvu : (k.pte va).v = true ∧ (k.pte va).perm.u = true
      · left; right
        rw [(hexec.adjusts hwt hvu.1 hvu.2 ht).pte]
        exact granted_permits hvu.1 hvu.2 (hfetch (Or.inl hvu))
      · by_cases hthere : SliceThere k.p (pgRoundDown va)
        · have hmax := (hexec.fetched hwt hvu ht).1
          cases hv : (k.pte va).v with
          | true =>
            -- mapped, but not for the user: that would have been a panic
            have hu : (k.pte va).perm.u = false := by simpa [hv] using hvu
            rw [kernelPte_eq _ hmax] at hv hu
            obtain ⟨msg, hpanic⟩ := remap_panics hp hexec hwt hv hu hthere
            rw [ht] at hpanic
            cases hpanic
          | false =>
            have hl := hexec.loads hok hp hwt hv hthere ht
            exact hl.outcome hwt (hfetch (Or.inr ⟨hv, hthere⟩))
        · exact Or.inl (Or.inl (hexec.unreadable hok hwt hvu hthere ht))
  · cases hv : (k.pte va).v with
    | false => exact Or.inl (hanon.installs hok hacc hv ht)
    | true =>
      have hperm : (k.pte va).permits acc = true := by
        by_contra hno
        exact hfree (.ignored halive hacc hanon hv (by simpa using hno))
      exact Or.inl (Resolved.stays (Or.inr hperm) hok ht)

/-! ## Stuck for good -/

theorem Stuck.not_resolved (h : Stuck k va acc) (hok : SpaceOk C U S k.kmem k.p) :
    ¬ Resolved k va acc := by
  cases h with
  | fetch halive hacc hexec hdata _ =>
    rintro (hdead | hperm)
    · rw [halive] at hdead
      cases hdead
    · rw [hacc] at hperm
      rw [hok.fetch_text (hexec.low hok) hperm] at hdata
      cases hdata
  | ignored halive _ _ _ hno =>
    rintro (hdead | hperm)
    · rw [halive] at hdead
      cases hdead
    · rw [hno] at hperm
      cases hperm

/-- **Nothing changes that would help**, and the page is mapped from then on. -/
theorem Stuck.step (h : Stuck k va acc) (hok : SpaceOk C U S k.kmem k.p)
    (hp : (k.pte va).v = false → kallocs 3 k.kmem = true)
    (ht : usertrapPageFault k va acc = .ok k') : Stuck k' va acc ∧ (k'.pte va).v = true := by
  cases h with
  | fetch halive hacc hexec hdata hthere =>
    have hwt : ¬ (acc = .write ∧ k.p.textRange (pgRoundDown va) = true) := by
      rw [hacc]
      exact fun hw => by cases hw.1
    rcases hthere with ⟨hv, hu⟩ | ⟨hv, hslice⟩
    · have ha := hexec.adjusts hwt hv hu ht
      have hperm : grantedPerm k.p (pgRoundDown va) acc (k.pte va).perm = permUR := by
        unfold grantedPerm
        rw [hacc, if_neg (by decide), hdata]
        rfl
      rw [hperm] at ha
      have hv' : (k'.pte va).v = true := by rw [ha.pte]; exact hv
      have hu' : (k'.pte va).perm.u = true := by rw [ha.pte]; rfl
      exact ⟨.fetch (ha.killed.trans halive) hacc
        (hexec.of_image ha.image (ha.swapped.trans hexec.swapped))
        ((textRange_of_image ha.image _).trans hdata) (Or.inl ⟨hv', hu'⟩), hv'⟩
    · have hl := hexec.loads hok (hp hv) hwt hv hslice ht
      obtain ⟨f, hpte⟩ := hl.pte
      rw [hdata] at hpte
      have hv' : (k'.pte va).v = true := by rw [hpte]
      have hu' : (k'.pte va).perm.u = true := by rw [hpte]; rfl
      exact ⟨.fetch (hl.killed.trans halive) hacc hl.page
        ((textRange_of_image hl.image _).trans hdata) (Or.inl ⟨hv', hu'⟩), hv'⟩
  | ignored halive hacc hanon hv hno =>
    have ha := hanon.adjusts hacc hv ht
    have hpte : k'.pte va = k.pte va := ha.pte
    rw [hpte]
    refine ⟨.ignored (ha.killed.trans halive) hacc (hanon.of_adjusted ha) ?_ ?_, hv⟩
    · rw [hpte]; exact hv
    · rw [hpte]; exact hno

end

/-- The same fault, taken any number of times. -/
inductive Retries (va : Nat) (acc : Access) (k : Kernel) : Kernel → Prop where
  | none : Retries va acc k k
  | again {k₁ k₂ : Kernel} : Retries va acc k k₁ → usertrapPageFault k₁ va acc = .ok k₂ →
      Retries va acc k k₂

/-- **A stuck fault is taken forever.** -/
theorem Stuck.retries (h : Stuck k va acc) (hspace : SpaceInv False k)
    (hp : kallocs 3 k.kmem = true) (hr : Retries va acc k k') :
    ¬ Resolved k' va acc := by
  have hkept : SpaceInv False k' ∧ Stuck k' va acc ∧
      ((k'.pte va).v = false → kallocs 3 k'.kmem = true) := by
    induction hr with
    | none => exact ⟨hspace, h, fun _ => hp⟩
    | again _ ht ih =>
      obtain ⟨⟨S, hok⟩, hstuck, hmem⟩ := ih
      obtain ⟨hstuck', hv⟩ := hstuck.step hok hmem ht
      refine ⟨⟨S, usertrap_spaceOk hok (fun hC => hC.elim) ht⟩, hstuck', fun hno => ?_⟩
      rw [hv] at hno
      cases hno
  obtain ⟨⟨S, hok⟩, hstuck, _⟩ := hkept
  exact hstuck.not_resolved hok

/-- The second fault of a write to data grants it. -/
theorem Pending.second_fault (h : Pending k va) (ht : usertrapPageFault k va .write = .ok k') :
    Resolved k' va .write := by
  have hwt : ¬ (Access.write = .write ∧ k.p.textRange (pgRoundDown va) = true) := by
    rw [h.data]
    simp
  right
  rw [(h.page.adjusts hwt h.mapped h.user ht).pte]
  exact granted_permits h.mapped h.user fun hacc => by cases hacc

/--
**Two faults are enough** exactly where the access is not stuck: with a frame for the page and two
for the page table, the process is then dead or the entry of the page permits the access.
-/
theorem second_fault_resolves_iff {k k₁ k₂ : Kernel} {va : Nat} {acc : Access} (h : Reachable k)
    (hp : kallocs 3 k.kmem = true) (ht₁ : usertrapPageFault k va acc = .ok k₁)
    (ht₂ : usertrapPageFault k₁ va acc = .ok k₂) : Resolved k₂ va acc ↔ ¬ Stuck k va acc := by
  obtain ⟨S, hok⟩ := reachable_spaceInv h
  have hok₁ : SpaceOk False ∅ S k₁.kmem k₁.p := usertrap_spaceOk hok (fun hC => hC.elim) ht₁
  constructor
  · intro hres hstuck
    exact hstuck.retries ⟨S, hok⟩ hp (.again (.again .none ht₁) ht₂) hres
  · intro hfree
    rcases first_fault hok hp hfree ht₁ with hres | ⟨hacc, hpending⟩
    · exact hres.stays hok₁ ht₂
    · rw [hacc] at ht₂ ⊢
      exact hpending.second_fault ht₂

/-- Two faults in a row. -/
def twice (k : Kernel) (va : Nat) (acc : Access) : Option (Kernel × Kernel) :=
  (usertrapPageFault k va acc).toOption.bind fun k₁ =>
    (usertrapPageFault k₁ va acc).toOption.map fun k₂ => (k₁, k₂)

theorem ok_of_toOption {α : Type} {x : Except Halt α} {a : α} (h : x.toOption = some a) :
    x = .ok a := by
  cases x with
  | error e => cases h
  | ok b => cases h; rfl

theorem twice_some {k₁ k₂ : Kernel} (h : twice k va acc = some (k₁, k₂)) :
    usertrapPageFault k va acc = .ok k₁ ∧ usertrapPageFault k₁ va acc = .ok k₂ := by
  obtain ⟨k', hk', hrest⟩ := Option.bind_eq_some_iff.mp h
  obtain ⟨k'', hk'', hpair⟩ := Option.map_eq_some_iff.mp hrest
  obtain ⟨h₁, h₂⟩ := Prod.mk.inj hpair
  rw [← h₁, ← h₂]
  exact ⟨ok_of_toOption hk', ok_of_toOption hk''⟩

theorem second_fault_resolves_write_to_data :
    ∃ k k₁ k₂, Reachable k ∧ usertrapPageFault k 0 .write = .ok k₁ ∧
      usertrapPageFault k₁ 0 .write = .ok k₂ ∧ Resolved k₂ 0 .write := by
  have hrun : (after (fun _ _ => true) [] [.exec [47] onePage [[65]]]).map (fun k =>
      (kallocs 3 k.kmem, k.p.inData 0, wasSwapped k.p.memstat 0, (twice k 0 .write).isSome)) =
      some (true, true, false, true) := by decide +kernel
  obtain ⟨k, hk, hat⟩ := Option.map_eq_some_iff.mp hrun
  have hreach : Reachable k := after_reachable (fun _ _ _ => trivial) hk
  simp only [Prod.mk.injEq] at hat
  obtain ⟨hp, hdata, hns, htwice⟩ := hat
  obtain ⟨⟨k₁, k₂⟩, hboth⟩ := Option.isSome_iff_exists.mp htwice
  obtain ⟨ht₁, ht₂⟩ := twice_some hboth
  refine ⟨k, k₁, k₂, hreach, ht₁, ht₂, (second_fault_resolves_iff hreach hp ht₁ ht₂).mpr ?_⟩
  intro hstuck
  cases hstuck with
  | fetch _ hacc _ _ _ => cases hacc
  | ignored _ _ hanon _ _ =>
    rcases hanon.kind with hsw | ⟨_, _, hno⟩
    · rw [show toUint (pgRoundDown 0) = 0 from rfl, hns] at hsw
      cases hsw
    · rw [hdata] at hno
      cases hno

/-- A program that jumps into its data is not killed, and its fault is never resolved. -/
theorem fault_can_repeat :
    ¬ ∀ k k₁ k₂ va acc, Reachable k → kallocs 6 k.kmem = true →
    usertrapPageFault k va acc = .ok k₁ →
      usertrapPageFault k₁ va acc = .ok k₂ → Resolved k₂ va acc := by
  intro hall
  have hrun : (after (fun _ _ => true) [] [.exec [47] onePage [[65]]]).map (fun k =>
      (kallocs 6 k.kmem, (twice k 0 .exec).map fun x =>
        (x.2.p.killed, (x.2.pte 0).permits .exec))) = some (true, some (false, false)) := by
    decide +kernel
  obtain ⟨k, hk, hat⟩ := Option.map_eq_some_iff.mp hrun
  have hreach : Reachable k := after_reachable (fun _ _ _ => trivial) hk
  obtain ⟨hp, htwice⟩ := Prod.mk.inj hat
  obtain ⟨⟨k₁, k₂⟩, hboth, hend⟩ := Option.map_eq_some_iff.mp htwice
  obtain ⟨ht₁, ht₂⟩ := twice_some hboth
  obtain ⟨halive, hno⟩ := Prod.mk.inj hend
  rcases hall k k₁ k₂ 0 .exec hreach hp ht₁ ht₂ with hdead | hperm
  · rw [halive] at hdead
    cases hdead
  · rw [hno] at hperm
    cases hperm

end Xv6Paging.Proof
