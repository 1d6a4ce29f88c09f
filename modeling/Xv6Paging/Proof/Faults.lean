import Xv6Paging.Lib.Run
import Xv6Paging.Kernel.Vm

/-!
# What a fault can do

`usertrap` and `vmfault` install pages in five places that differ in where the
bytes come from, in the permissions and in what is put on record, and are
otherwise the same: find a frame, fill it, map it, give it back where that fails.
`Installs` is that common course. The case lemmas below say once what a handler
can have done; everything proved about faults reads it off them.
-/

namespace Xv6Paging.Proof

open Xv6Paging Lib

variable {k k' : Kernel} {f va va0 : Nat} {acc : Access} {c : Cause} {r : Option Nat}

/-- Where the bytes of an installed page come from. -/
inductive Fill where
  /-- `memset` to 0. -/
  | zero
  /-- The executable. -/
  | slice
  /-- The swap file. -/
  | slot
  deriving DecidableEq, Repr

/-- What frame `f` is filled with for `va0`, and the process after that. -/
def Fill.page (k : Kernel) (va0 f : Nat) : Fill → Option Page × Proc
  | .zero => (some zeroPage, k.p)
  | .slice => (k.p.slicePage va0, k.p)
  | .slot =>
    match swapinPage k.p va0 (k.kmem.ram f) with
    | (s, pg, p) => (if s < 0 then none else some pg, p)

/--
One attempt to install the page `va0`: the frame that was mapped, if any, and the
kernel after it. `record` is what the handler does to its books on success.
-/
inductive Installs (src : Fill) (perm : Proc → Perm) (record : Proc → Proc) (k : Kernel)
    (va0 : Nat) : Option Nat → Kernel → Prop where
  /-- No frame. -/
  | starved {k₁ : Kernel} : tryKallocOrReplace k = (none, k₁) →
      Installs src perm record k va0 none k₁
  /-- Nothing to fill it with. -/
  | unfilled {k₁ : Kernel} {f : Nat} {pg : Page} {p : Proc} :
      tryKallocOrReplace k = (some f, k₁) → src.page k₁ va0 f = (none, p) →
      Installs src perm record k va0 none
        { k₁ with kmem := kfree (k₁.kmem.setRam f pg) f, p := p }
  /-- No room for the page-table pages on the way. -/
  | unmapped {k₁ k₂ : Kernel} {f : Nat} {pg : Page} {p : Proc} :
      tryKallocOrReplace k = (some f, k₁) → src.page k₁ va0 f = (some pg, p) →
      mapUser { k₁ with kmem := k₁.kmem.setRam f pg, p := p } va0 f (perm k₁.p) = .ok (false, k₂) →
      Installs src perm record k va0 none k₂
  | mapped {k₁ k₂ : Kernel} {f : Nat} {pg : Page} {p : Proc} :
      tryKallocOrReplace k = (some f, k₁) → src.page k₁ va0 f = (some pg, p) →
      mapUser { k₁ with kmem := k₁.kmem.setRam f pg, p := p } va0 f (perm k₁.p) = .ok (true, k₂) →
      Installs src perm record k va0 (some f) { k₂ with p := record k₂.p }

theorem kfree_setRam (km : Kmem) (f : Nat) (pg : Page) : kfree (km.setRam f pg) f = kfree km f := by
  simp [kfree, Kmem.setRam]

/-- Mapping a page is no concern of the records. -/
theorem mapUser_records {perm : Perm} {ok : Bool} (h : mapUser k va f perm = .ok (ok, k')) :
    ∃ pt, k'.p = { k.p with pagetable := pt } := by
  obtain ⟨⟨ok', km, pt⟩, _, hrest⟩ := bind_eq_ok.mp h
  cases hrest
  exact ⟨pt, rfl⟩

/-! ## `usertrap` -/

/-- The bookkeeping after a text or data page has been mapped. -/
def recordExec (va0 : Nat) (p : Proc) : Proc :=
  { p.recordResident va0 with residentPages := (p.recordResident va0).residentPages + 1 }

/-- A process whose page could not be installed is killed. -/
def settle (r : Option Nat) (k : Kernel) : Kernel := if r.isSome then k else k.kill

@[simp] theorem settle_some (f : Nat) (k : Kernel) : settle (some f) k = k := rfl

@[simp] theorem settle_none (k : Kernel) : settle none k = k.kill := rfl

theorem finishAnon_cases (h : finishAnon k va0 f acc = .ok k') :
    (∃ k₂, mapUser k va0 f permURW = .ok (false, k₂) ∧ k' = k₂.kill) ∨
      ∃ k₂, mapUser k va0 f permURW = .ok (true, k₂) ∧
        k' = { k₂ with p := k₂.p.recordAnon va0 acc } := by
  obtain ⟨⟨ok, k₂⟩, hmap, hrest⟩ := bind_eq_ok.mp h
  cases ok with
  | false => cases hrest; exact Or.inl ⟨k₂, hmap, rfl⟩
  | true => cases hrest; exact Or.inr ⟨k₂, hmap, rfl⟩

/-- `installAnon` is an installation of a zero page or of a swapped-out page. -/
theorem installAnon_cases {swapped : Bool} (h : installAnon k va0 acc swapped = .ok k') :
    ∃ r k₂, Installs (if swapped then .slot else .zero) (fun _ => permURW)
      (fun p => p.recordAnon va0 acc) k va0 r k₂ ∧ k' = settle r k₂ := by
  unfold installAnon at h
  rcases ht : tryKallocOrReplace k with ⟨_ | f, k₁⟩
  · rw [ht] at h
    cases h
    exact ⟨none, k₁, .starved ht, rfl⟩
  · rw [ht] at h
    dsimp only at h
    cases swapped with
    | false =>
      rw [if_neg (by simp)] at h
      rcases finishAnon_cases h with ⟨k₂, hmap, rfl⟩ | ⟨k₂, hmap, rfl⟩
      · exact ⟨none, k₂, .unmapped ht rfl hmap, rfl⟩
      · exact ⟨some f, _, .mapped ht rfl hmap, rfl⟩
    | true =>
      rcases hin : swapinPage k₁.p va0 (k₁.kmem.ram f) with ⟨s, pg, p⟩
      rw [if_pos rfl, hin] at h
      dsimp only at h
      split at h
      · rename_i hneg
        have hpage : Fill.page k₁ va0 f .slot = (none, p) := by
          simp only [Fill.page, hin, if_pos hneg]
        cases h
        exact ⟨none, _, .unfilled ht hpage, rfl⟩
      · rename_i hpos
        have hpage : Fill.page k₁ va0 f .slot = (some pg, p) := by
          simp only [Fill.page, hin, if_neg hpos]
        rcases finishAnon_cases h with ⟨k₂, hmap, rfl⟩ | ⟨k₂, hmap, rfl⟩
        · exact ⟨none, k₂, .unmapped ht hpage hmap, rfl⟩
        · exact ⟨some f, _, .mapped ht hpage hmap, rfl⟩

/-- `installExec` is an installation from the executable. -/
theorem installExec_cases (h : installExec k va0 = .ok k') :
    ∃ r k₂, Installs .slice (fun p => if p.textRange va0 then permURX else permUR)
      (recordExec va0) k va0 r k₂ ∧ k' = settle r k₂ := by
  unfold installExec at h
  rcases ht : tryKallocOrReplace k with ⟨_ | f, k₁⟩
  · rw [ht] at h
    cases h
    exact ⟨none, k₁, .starved ht, rfl⟩
  · rw [ht] at h
    dsimp only at h
    split at h
    · rename_i hpage
      cases h
      refine ⟨none, { k₁ with kmem := kfree (k₁.kmem.setRam f zeroPage) f }, ?_, ?_⟩
      · exact .unfilled ht (by simp only [Fill.page, hpage])
      · rw [kfree_setRam]; rfl
    · rename_i pg hpage
      have hfill : Fill.page k₁ va0 f .slice = (some pg, k₁.p) := by simp only [Fill.page, hpage]
      obtain ⟨⟨ok, k₂⟩, hmap, hrest⟩ := bind_eq_ok.mp h
      cases ok with
      | false =>
        dsimp only at hrest
        rw [if_neg (by simp)] at hrest
        cases hrest
        exact ⟨none, k₂, .unmapped ht hfill hmap, (settle_none k₂).symm⟩
      | true =>
        dsimp only at hrest
        rw [if_pos rfl] at hrest
        cases hrest
        exact ⟨some f, _, .mapped ht hfill hmap, by rw [settle_some, recordExec]⟩

/-- The source a fault of this cause installs its page from, if it comes to that. -/
def wantsFor (k : Kernel) (va0 : Nat) (acc : Access) : Option Cause → Option Fill
  | none => none
  | some .exec =>
    if acc = .write ∧ k.p.textRange va0 = true then none
    else if (walkaddr k.p.pagetable va0).isSome then none else some .slice
  | some _ =>
    if acc = .exec ∨ (k.p.pagetable.pte va0).v = true ∨ k.p.inGuard va0 = true then none
    else some (if wasSwapped k.p.memstat (toUint va0) then .slot else .zero)

/-- The source a fault at `va` installs its page from. -/
def wants (k : Kernel) (va : Nat) (acc : Access) : Option Fill :=
  wantsFor k (pgRoundDown va) acc (k.p.cause va acc)

theorem wantsFor_anon (hc : c ≠ .exec) (hacc : acc ≠ .exec) (hv : (k.p.pagetable.pte va0).v = false)
    (hg : k.p.inGuard va0 = false) :
    wantsFor k va0 acc (some c) =
      some (if wasSwapped k.p.memstat (toUint va0) then .slot else .zero) := by
  cases c with
  | exec => exact absurd rfl hc
  | swap | stack | heap => simp only [wantsFor, hacc, hv, hg, Bool.false_eq_true, or_self, if_false]

theorem wantsFor_exec (hwt : ¬ (acc = .write ∧ k.p.textRange va0 = true))
    (hwalk : walkaddr k.p.pagetable va0 = none) :
    wantsFor k va0 acc (some .exec) = some .slice := by
  simp only [wantsFor, if_neg hwt, hwalk, Option.isSome_none, Bool.false_eq_true, if_false]

/-- A valid fault on a page that is not in the swap file is below the break. -/
theorem cause_underBrk {p : Proc} (h : p.cause va acc = some c)
    (hns : wasSwapped p.memstat (toUint (pgRoundDown va)) = false) :
    va < p.sz := by
  unfold Proc.cause at h
  rw [hns] at h
  simp only [Bool.false_eq_true, if_false] at h
  split at h
  · simp at h
  · split at h
    · rename_i hte
      simp only [Proc.inText, Proc.inData, Proc.underBrk, Bool.or_eq_true, Bool.and_eq_true,
        decide_eq_true_eq] at hte
      rcases hte with hte | hte <;> exact hte.1
    · split at h
      · rename_i hst
        simp only [Proc.inStack, Proc.underBrk, Bool.and_eq_true, decide_eq_true_eq] at hst
        exact hst.1.1
      · split at h
        · rename_i hhp
          simp only [Proc.inHeap, Proc.underBrk, Bool.and_eq_true, decide_eq_true_eq] at hhp
          exact hhp.1.1.1.1.1
        · simp at h

theorem cause_exec {p : Proc} (h : p.cause va acc = some .exec) :
    wasSwapped p.memstat (toUint (pgRoundDown va)) = false ∧
      (p.inText va || p.inData va) = true := by
  unfold Proc.cause at h
  split at h
  · simp at h
  · split at h
    · simp at h
    · rename_i hns
      split at h
      · rename_i hte
        exact ⟨by simpa using hns, hte⟩
      · split at h
        · simp at h
        · split at h <;> simp at h

/-- A page loaded from the executable lies in a segment below the break. -/
theorem wants_slice (h : wants k va acc = some .slice) :
    (k.p.inText va || k.p.inData va) = true ∧
      wasSwapped k.p.memstat (toUint (pgRoundDown va)) = false := by
  unfold wants at h
  rcases hc : k.p.cause va acc with _ | c
  · rw [hc] at h
    simp [wantsFor] at h
  · rw [hc] at h
    cases c with
    | exec => exact ⟨(cause_exec hc).2, (cause_exec hc).1⟩
    | swap | stack | heap =>
      simp only [wantsFor] at h
      split at h
      · simp at h
      · split at h <;> simp at h

/-- A zero page is installed below the break, for a page that is not swapped out. -/
theorem wants_zero (h : wants k va acc = some .zero) :
    va < k.p.sz ∧ wasSwapped k.p.memstat (toUint (pgRoundDown va)) = false ∧
      (k.p.pagetable.pte (pgRoundDown va)).v = false := by
  unfold wants at h
  rcases hc : k.p.cause va acc with _ | c
  · rw [hc] at h
    simp [wantsFor] at h
  · rw [hc] at h
    cases c with
    | exec =>
      simp only [wantsFor] at h
      split at h
      · simp at h
      · split at h <;> simp at h
    | swap | stack | heap =>
      simp only [wantsFor] at h
      split at h
      · simp at h
      · rename_i hno
        split at h
        · simp at h
        · rename_i hns
          have hns' : wasSwapped k.p.memstat (toUint (pgRoundDown va)) = false := by simpa using hns
          exact ⟨cause_underBrk hc hns', hns', by
            by_contra hv
            exact hno (Or.inr (Or.inl (by simpa using hv)))⟩

/-- A page is swapped in that is on record as swapped out, and not mapped. -/
theorem wants_slot (h : wants k va acc = some .slot) :
    wasSwapped k.p.memstat (toUint (pgRoundDown va)) = true ∧
      (k.p.pagetable.pte (pgRoundDown va)).v = false := by
  unfold wants at h
  rcases hc : k.p.cause va acc with _ | c
  · rw [hc] at h
    simp [wantsFor] at h
  · rw [hc] at h
    cases c with
    | exec =>
      simp only [wantsFor] at h
      split at h
      · simp at h
      · split at h <;> simp at h
    | swap | stack | heap =>
      simp only [wantsFor] at h
      split at h
      · simp at h
      · rename_i hno
        split at h
        · rename_i hs
          exact ⟨hs, by
            by_contra hv
            exact hno (Or.inr (Or.inl (by simpa using hv)))⟩
        · simp at h

/-- The permissions a fault on a page that is already there ends up with. -/
def grantedPerm (p : Proc) (va0 : Nat) (acc : Access) (old : Perm) : Perm :=
  if acc = .write then { old with w := true } else if p.textRange va0 then permURX else permUR

/--
**Everything a page fault can do** when it returns: kill the process, note a store
to a page that is there, grant a permission on a page that is there, or install a
page.
-/
inductive Handled (k : Kernel) (va : Nat) (acc : Access) (k' : Kernel) : Prop where
  | killed : wants k va acc = none → k' = k.kill → Handled k va acc k'
  | noted (o : Option (Fin maxPagesInfo)) : wants k va acc = none →
      (k.p.pagetable.pte (pgRoundDown va)).v = true →
      (∀ i, o = some i → (k.p.memstat.pages i).va = toUint (pgRoundDown va)) →
      k' = { k with p := k.p.markDirty o } → Handled k va acc k'
  | granted (o : Option (Fin maxPagesInfo)) (k₁ : Kernel) : wants k va acc = none →
      pgRoundDown va < maxVA → (k.p.pagetable.pte (pgRoundDown va)).v = true →
      (k.p.pagetable.pte (pgRoundDown va)).perm.u = true →
      ¬ (acc = .write ∧ k.p.textRange (pgRoundDown va) = true) →
      (∀ i, o = some i → (k.p.memstat.pages i).va = toUint (pgRoundDown va)) →
      k₁ = k.setPerm (pgRoundDown va)
        (grantedPerm k.p (pgRoundDown va) acc (k.p.pagetable.pte (pgRoundDown va)).perm) →
      k' = { k₁ with p := k₁.p.markDirty o } → Handled k va acc k'
  | anon (swapped : Bool) (r : Option Nat) (k₁ : Kernel) :
      pgRoundDown va < maxVA → wants k va acc = some (if swapped then .slot else .zero) →
      Installs (if swapped then .slot else .zero) (fun _ => permURW)
        (fun p => p.recordAnon (pgRoundDown va) acc) k (pgRoundDown va) r k₁ →
      k' = settle r k₁ → Handled k va acc k'
  | exec (r : Option Nat) (k₁ : Kernel) :
      pgRoundDown va < maxVA → wants k va acc = some .slice →
      Installs .slice (fun p => if p.textRange (pgRoundDown va) then permURX else permUR)
        (recordExec (pgRoundDown va)) k (pgRoundDown va) r k₁ →
      k' = settle r k₁ → Handled k va acc k'

theorem walkaddr_some {pt : PageTable} (h : walkaddr pt va = some f) :
    va < maxVA ∧ (pt.pte va).v = true ∧ (pt.pte va).perm.u = true ∧ f = (pt.pte va).frame := by
  unfold walkaddr at h
  split at h
  · simp at h
  · rename_i hmax
    dsimp only at h
    split at h
    · rename_i hvu
      exact ⟨Nat.lt_of_not_le hmax, hvu.1, hvu.2, (Option.some.inj h).symm⟩
    · simp at h

theorem memstatResident_some {m : MemStat} {v : Nat} {i : Fin maxPagesInfo}
    (h : memstatResident m v = some i) : (m.pages i).va = v ∧ (m.pages i).state = .resident := by
  unfold memstatResident at h
  have hi := (Fin.find?_eq_some_iff.mp h).1
  simpa using hi

theorem memstatVa_some {m : MemStat} {v : Nat} {i : Fin maxPagesInfo}
    (h : memstatVa m v = some i) : (m.pages i).va = v := by
  unfold memstatVa at h
  have hi := (Fin.find?_eq_some_iff.mp h).1
  simpa using hi

theorem markDirty_none (p : Proc) : p.markDirty none = p := rfl

theorem faultAnon_cases {swapped : Bool} (hc : k.p.cause va acc = some c) (hne : c ≠ .exec)
    (hmax : pgRoundDown va < maxVA)
    (hsw : wasSwapped k.p.memstat (toUint (pgRoundDown va)) = swapped)
    (h : faultAnon k (pgRoundDown va) acc swapped = .ok k') : Handled k va acc k' := by
  -- nothing is installed by an instruction fetch, over a mapped page, or in the guard page
  have idle : acc = .exec ∨ (k.p.pagetable.pte (pgRoundDown va)).v = true ∨
      k.p.inGuard (pgRoundDown va) = true → wants k va acc = none := by
    intro hx
    rw [wants, hc]
    cases c with
    | exec => exact absurd rfl hne
    | swap | stack | heap => simp only [wantsFor, if_pos hx]
  unfold faultAnon at h
  split at h
  · rename_i hacc
    exact .killed (idle (Or.inl hacc)) (Except.ok.inj h).symm
  · rename_i hacc
    split at h
    · rename_i hv
      split at h
      · rename_i hg
        exact .killed (idle (Or.inr (Or.inr hg))) (Except.ok.inj h).symm
      · rename_i hg
        have hw : wants k va acc = some (if swapped then .slot else .zero) := by
          rw [wants, hc, wantsFor_anon hne hacc (by simpa using hv) (by simpa using hg), hsw]
        obtain ⟨r, k₂, hi, hk'⟩ := installAnon_cases h
        exact .anon swapped r k₂ hmax hw hi hk'
    · rename_i hv
      have hv' : (k.p.pagetable.pte (pgRoundDown va)).v = true := by simpa using hv
      have hw := idle (Or.inr (Or.inl hv'))
      split at h
      · exact .noted _ hw hv' (fun i hi => (memstatResident_some hi).1) (Except.ok.inj h).symm
      · refine .noted none hw hv' (fun i hi => by simp at hi) ?_
        rw [markDirty_none]
        exact (Except.ok.inj h).symm

theorem faultExec_cases (hc : k.p.cause va acc = some .exec) (hmax : pgRoundDown va < maxVA)
    (h : faultExec k (pgRoundDown va) acc = .ok k') : Handled k va acc k' := by
  unfold faultExec at h
  dsimp only at h
  split at h
  · rename_i hwt
    exact .killed (by rw [wants, hc]; exact if_pos hwt) (Except.ok.inj h).symm
  · rename_i hwt
    split at h
    · rename_i hwalk
      have hw : wants k va acc = some .slice := by rw [wants, hc, wantsFor_exec hwt hwalk]
      obtain ⟨r, k₂, hi, hk'⟩ := installExec_cases h
      exact .exec r k₂ hmax hw hi hk'
    · rename_i f hwalk
      obtain ⟨_, hv, hu, _⟩ := walkaddr_some hwalk
      have hw : wants k va acc = none := by
        rw [wants, hc]
        simp only [wantsFor, if_neg hwt, hwalk, Option.isSome_some, if_true]
      split at h
      · rename_i hacc
        refine .granted _ _ hw hmax hv hu hwt (fun i hi => memstatVa_some hi) ?_
          (Except.ok.inj h).symm
        rw [grantedPerm, if_pos hacc]
      · rename_i hacc
        refine .granted none _ hw hmax hv hu hwt (fun i hi => by simp at hi) rfl ?_
        rw [markDirty_none, grantedPerm, if_neg hacc]
        exact (Except.ok.inj h).symm

/-- **The page-fault branch of `usertrap`** does one of the things above. -/
theorem usertrap_cases (h : usertrapPageFault k va acc = .ok k') :
    Handled k.countFault va acc k' := by
  obtain ⟨k₀, hk₀⟩ : ∃ k₀, k.countFault = k₀ := ⟨_, rfl⟩
  have hcause : k₀.p.cause va acc = k.p.cause va acc := by rw [← hk₀]; rfl
  have hmem : k₀.p.memstat = k.p.memstat := by rw [← hk₀]; rfl
  unfold usertrapPageFault at h
  rw [hk₀, ← hcause, ← hmem] at h
  rw [hk₀]
  rcases hc : k₀.p.cause va acc with _ | c
  · rw [hc] at h
    exact .killed (by rw [wants, hc]; rfl) (Except.ok.inj h).symm
  · rw [hc] at h
    unfold handleFault at h
    dsimp only at h
    split at h
    · simp at h
    · rename_i hmax
      cases c with
      | exec => exact faultExec_cases hc (Nat.lt_of_not_le hmax) h
      | swap | stack | heap =>
        exact faultAnon_cases hc (by simp) (Nat.lt_of_not_le hmax) rfl h

/-! ## `vmfault` -/

/-- The source `vmfault` installs the page `va0` from, if it does. -/
def vmWants (k : Kernel) (va0 : Nat) : Option Fill :=
  if k.p.inGuard va0 = true ∨ (k.p.pagetable.pte va0).v = true then none
  else if k.p.inText va0 = true ∨ k.p.inData va0 = true then some .slice
  else if k.p.underBrk va0 = true then some .zero
  else none

/-- The permissions `vmfault` maps with. -/
def vmPerm (p : Proc) (va0 : Nat) : Perm := if p.inText va0 then permURX else permURW

theorem finishVmfault_cases {pg : Page} {perm : Perm}
    (h : finishVmfault k va f pg perm = .ok (r, k')) :
    ∃ ok, mapUser { k with kmem := k.kmem.setRam f pg } va f perm = .ok (ok, k') ∧
      r = if ok then some f else none := by
  obtain ⟨⟨ok, k₁⟩, hmap, hrest⟩ := bind_eq_ok.mp h
  simp only [Except.ok.injEq, Prod.mk.injEq] at hrest
  obtain ⟨hr, hk⟩ := hrest
  subst hk
  exact ⟨ok, hmap, hr.symm⟩

theorem installs_vmfault {src : Fill} {k₁ : Kernel} {pg : Page}
    (ht : tryKallocOrReplace k = (some f, k₁)) (hfill : src.page k₁ va0 f = (some pg, k₁.p))
    (h : finishVmfault k₁ va0 f pg (vmPerm k.p va0) = .ok (r, k')) :
    Installs src (fun _ => vmPerm k.p va0) (fun p => p) k va0 r k' := by
  obtain ⟨ok, hmap, hr⟩ := finishVmfault_cases h
  cases ok with
  | false =>
    rw [hr]
    exact .unmapped ht hfill hmap
  | true =>
    rw [hr]
    exact .mapped ht hfill hmap

/-- **`vmfault`** returns 0 and changes nothing, or takes the common course. -/
theorem vmfault_cases (h : vmfault k va = .ok (r, k')) :
    (vmWants k (pgRoundDown va) = none ∧ r = none ∧ k' = k) ∨
      ∃ src, pgRoundDown va < maxVA ∧ vmWants k (pgRoundDown va) = some src ∧
      Installs src (fun _ => vmPerm k.p (pgRoundDown va)) (fun p => p) k (pgRoundDown va) r k' := by
  obtain ⟨va0, hva0⟩ : ∃ va0, pgRoundDown va = va0 := ⟨_, rfl⟩
  unfold vmfault at h
  dsimp only at h
  rw [hva0] at h ⊢
  split at h
  · rename_i hg
    cases h
    exact Or.inl ⟨by rw [vmWants, if_pos (Or.inl hg)], rfl, rfl⟩
  · rename_i hg
    split at h
    · simp at h
    · rename_i hmax
      split at h
      · rename_i hv
        have hmapped : (k.p.pagetable.pte va0).v = true := hv
        cases h
        exact Or.inl ⟨by rw [vmWants, if_pos (Or.inr hmapped)], rfl, rfl⟩
      · rename_i hv
        have hout : ¬ (k.p.inGuard va0 = true ∨ (k.p.pagetable.pte va0).v = true) := by
          rintro (hx | hx)
          · exact hg hx
          · exact hv hx
        split at h
        · rename_i hseg
          have hseg' : k.p.inText va0 = true ∨ k.p.inData va0 = true := by simpa using hseg
          have hw : vmWants k va0 = some .slice := by rw [vmWants, if_neg hout, if_pos hseg']
          refine Or.inr ⟨.slice, Nat.lt_of_not_le hmax, hw, ?_⟩
          split at h
          · rename_i k₁ ht
            cases h
            exact .starved ht
          · rename_i f k₁ ht
            split at h
            · rename_i hpage
              cases h
              rw [← kfree_setRam k₁.kmem f zeroPage]
              exact .unfilled ht (by simp only [Fill.page, hpage])
            · rename_i pg hpage
              exact installs_vmfault ht (by simp only [Fill.page, hpage]) h
        · rename_i hseg
          have hseg' : ¬ (k.p.inText va0 = true ∨ k.p.inData va0 = true) := by simpa using hseg
          split at h
          · rename_i hin
            have hbrk : k.p.underBrk va0 = true := by
              simp only [Proc.inStack, Bool.or_eq_true, Bool.and_eq_true] at hin
              rcases hin with hin | hin
              · exact hin.1
              · exact hin.1.1.1.1
            have hw : vmWants k va0 = some .zero := by
              rw [vmWants, if_neg hout, if_neg hseg', if_pos hbrk]
            have hperm : vmPerm k.p va0 = permURW := by
              rw [vmPerm, if_neg (fun hx => hseg' (Or.inl hx))]
            refine Or.inr ⟨.zero, Nat.lt_of_not_le hmax, hw, ?_⟩
            split at h
            · rename_i k₁ ht
              cases h
              exact .starved ht
            · rename_i f k₁ ht
              rw [← hperm] at h
              exact installs_vmfault ht rfl h
          · rename_i hin
            have hbrk : ¬ k.p.underBrk va0 = true := by
              intro hb
              have hg' : k.p.inGuard va0 = false := by simpa using hg
              have hseg₀ : k.p.inText va0 = false ∧ k.p.inData va0 = false := by simpa using hseg'
              simp [hb, hg', hseg₀.1, hseg₀.2] at hin
            cases h
            exact Or.inl ⟨by rw [vmWants, if_neg hout, if_neg hseg', if_neg hbrk], rfl, rfl⟩

end Xv6Paging.Proof
