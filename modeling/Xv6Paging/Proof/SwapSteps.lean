import Xv6Paging.Proof.Evict
import Xv6Paging.Proof.Books
import Xv6Paging.Proof.Calls
import Xv6Paging.Proof.Steps
import Xv6Paging.Proof.Replay

/-!
# The swap records through every step of a process

Each entry into the kernel is a chain of the moves of `SwapRecords`. Only one of
them needs an argument of its own: a fault handler records the page it mapped as
resident, and that is harmless as long as the page is not in the swap file at that
moment. It is not when the handler found the page unmapped, because eviction
swaps out mapped pages only.
-/

namespace Xv6Paging.Proof

open Xv6Paging Lib

variable {k k' : Kernel} {va : Nat} {p : Proc} {acc : Access} {r : Option Nat}

/-! ## Recording -/

/-- Only four fields of the process are swap records. -/
theorem SwapInv.of_records {p' : Proc} (h : SwapInv p) (hmem : p'.memstat = p.memstat)
    (htab : p'.swapTable = p.swapTable) (hnum : p'.numSwappedPages = p.numSwappedPages)
    (htot : p'.swappedPages = p.swappedPages) : SwapInv p' := by
  refine h.still (hmem ▸ h.mem) (fun i _ => ?_) htab hnum htot
  rw [hmem]
  exact ⟨rfl, rfl, rfl⟩

theorem SwapInv.withResidentPages (h : SwapInv p) (n : Int) :
    SwapInv { p with residentPages := n } :=
  h.of_records rfl rfl rfl rfl

theorem SwapInv.markDirty (h : SwapInv p) (o : Option (Fin maxPagesInfo)) :
    SwapInv (p.markDirty o) := by
  have hkeys := markDirty_keys p o
  refine h.still (h.mem.markDirty o)
    (fun j _ => ⟨(hkeys j).2.1, (hkeys j).1, (hkeys j).2.2.2⟩) ?_ ?_ ?_ <;> cases o <;> rfl

/-- The entry chosen for a page that is not in the swap file is not `SWAPPED`. -/
theorem chosen_not_swapped {m : MemStat} {i : Fin maxPagesInfo} (hi : Chosen m va i)
    (hnone : NoneSwapped m (toUint va)) : (m.pages i).state ≠ .swapped := by
  intro hs
  rcases hi with hl | ⟨_, hu⟩
  · exact hnone i hs (memstatLive_some hl).2
  · rw [(memstatUnused_some hu).1] at hs
    simp at hs

/-- Recording a page that is not in the swap file moves no page. -/
theorem SwapInv.recordResident (h : SwapInv p) (hal : va % 4096 = 0)
    (hnone : NoneSwapped p.memstat (toUint va)) : SwapInv (p.recordResident va) := by
  obtain ⟨q, hq⟩ : ∃ q : Proc, q = { p with memstat :=
      { p.memstat with nextFifoSeq := p.memstat.nextFifoSeq + 1 } } := ⟨_, rfl⟩
  have hinv : SwapInv q := by
    rw [hq]
    exact h.still (h.mem.congr rfl) (fun _ _ => ⟨rfl, rfl, rfl⟩) rfl rfl rfl
  have hnone' : NoneSwapped q.memstat (toUint va) := by rw [hq]; exact hnone
  have hdef : p.recordResident va = memstatMarkResident q va p.memstat.nextFifoSeq := by
    rw [hq]; rfl
  rw [hdef]
  rcases memstatMarkResident_cases q va p.memstat.nextFifoSeq with hr | ⟨i, hi, hr⟩
  · rw [hr]; exact hinv
  · rw [hr]
    refine hinv.still (hinv.mem.recorded hi hal rfl) (fun j hj => ?_) rfl rfl rfl
    by_cases hji : j = i
    · subst hji
      simp [recorded, chosen_not_swapped hi hnone'] at hj
    · simp [recorded, hji]

theorem SwapInv.recordAnon (h : SwapInv p) (acc : Access) (hal : va % 4096 = 0)
    (hnone : NoneSwapped p.memstat (toUint va)) :
    SwapInv (p.recordAnon va acc) := by
  have hres := h.recordResident hal hnone
  unfold Proc.recordAnon
  dsimp only
  split
  · exact (hres.markDirty _).withResidentPages _
  · exact hres.withResidentPages _

/-! ## Swapping in -/

/-- **Swapping a page in keeps the records in agreement**, and then no entry has it out. -/
theorem swapinPage_swapInv {p' : Proc} {dst pg : Page} {r : Int} (h : SwapInv p)
    (hin : swapinPage p va dst = (r, pg, p')) :
    SwapInv p' ∧ (0 ≤ r → NoneSwapped p'.memstat (toUint (pgRoundDown va))) := by
  rcases swapinPage_eq hin with ⟨hr, rfl⟩ | ⟨s, hslot, _, hp'⟩
  · exact ⟨h, fun hpos => by omega⟩
  · obtain ⟨hused, hsva⟩ := slotOf_some hslot
    obtain ⟨i, hi, hpair⟩ := h.slot s hused
    have hva : (p.memstat.pages i).va = pgRoundDown va := hpair.2.1.trans hsva
    have hlive := swapped_live hi
    -- the entry the search by address finds is the one paired with the slot
    have hset : p' = (readSlot p s).setPage i
        { p.memstat.pages i with state := .resident, swapSlot := -1, isDirty := false } := by
      rw [hp', ← hva]
      exact memstatSwap_live (p := readSlot p s) h.mem hlive _ _
    have hpages : p'.memstat.pages = Function.update p.memstat.pages i
        { p.memstat.pages i with state := .resident, swapSlot := -1, isDirty := false } := by
      rw [hset]; rfl
    have hmem : MemOk p'.memstat := (h.mem.withPage_live hlive (e := { p.memstat.pages i with
      state := .resident, swapSlot := -1, isDirty := false }) rfl).congr hpages
    have hpos : 0 < (usedSlots p).card := Finset.card_pos.mpr ⟨s, by simp [usedSlots, hused]⟩
    have hnum : 0 < p.numSwappedPages := by rw [h.num]; exact_mod_cast hpos
    have htot : 0 < p.swappedPages := by rw [h.total]; exact_mod_cast hpos
    have hother : SameElsewhere p p' i := fun j hj => by simp [hpages, hj]
    refine ⟨h.into hmem hother hi hpair hused (by simp [hpages]) (e := ⟨0, -1, false⟩)
      (by rw [hset]; rfl) rfl ?_ ?_, fun _ j hj hjva => ?_⟩
    · rw [hset]; simp [readSlot, Proc.setPage, hnum]
    · rw [hset]; simp [readSlot, Proc.setPage, htot]
    · by_cases hji : j = i
      · subst hji
        simp [hpages] at hj
      · rw [hother j hji] at hj hjva
        have hsmall : pgRoundDown va < 2 ^ 32 := hva ▸ h.mem.small i
        rw [toUint_eq hsmall, ← hva] at hjva
        exact hji (h.mem.live_inj (swapped_live hj) hlive hjva)

/-! ## Faults -/

theorem SwapInv.withPagetable (h : SwapInv p) (pt : PageTable) :
    SwapInv { p with pagetable := pt } :=
  h.of_records rfl rfl rfl rfl

theorem finishAnon_swapInv {f : Nat} (h : SwapInv k.p) (hal : va % 4096 = 0)
    (hnone : NoneSwapped k.p.memstat (toUint va)) (hf : finishAnon k va f acc = .ok k') :
    SwapInv k'.p := by
  obtain ⟨⟨ok, k₁⟩, hmap, hrest⟩ := bind_eq_ok.mp hf
  obtain ⟨pt, hpt⟩ := mapUser_records hmap
  have h₁ : SwapInv k₁.p := hpt ▸ h.withPagetable pt
  have hnone₁ : NoneSwapped k₁.p.memstat (toUint va) := by rw [hpt]; exact hnone
  cases ok with
  | true => cases hrest; exact h₁.recordAnon acc hal hnone₁
  | false => cases hrest; exact h₁.setkilled

theorem installAnon_swapInv {swapped : Bool} (h : SwapInv k.p) (hal : va % 4096 = 0)
    (hlow : swapped = false → va < 2 ^ 32)
    (hnone : swapped = false → NoneSwapped k.p.memstat (toUint va))
    (hunmapped : (k.p.pagetable.pte va).v = false) (hi : installAnon k va acc swapped = .ok k') :
    SwapInv k'.p := by
  unfold installAnon at hi
  rcases ht : tryKallocOrReplace k with ⟨_ | f, k₁⟩
  · rw [ht] at hi
    cases hi
    exact (tryKalloc_swapInv h ht).setkilled
  · have h₁ := tryKalloc_swapInv h ht
    rw [ht] at hi
    dsimp only at hi
    cases swapped with
    | true =>
      rcases hin : swapinPage k₁.p va (k₁.kmem.ram f) with ⟨r, mem, p⟩
      obtain ⟨h₂, hnone₂⟩ := swapinPage_swapInv h₁ hin
      rw [if_pos rfl, hin] at hi
      dsimp only at hi
      split at hi
      · cases hi
        exact h₂.setkilled
      · rename_i hr
        have hnone₃ := hnone₂ (by omega)
        rw [pgRoundDown_eq_of_mod hal] at hnone₃
        exact finishAnon_swapInv h₂ hal hnone₃ hi
    | false =>
      have heq : toUint va = va := toUint_eq (hlow rfl)
      have hnone₁ : NoneSwapped k₁.p.memstat (toUint va) := by
        have hn := hnone rfl
        rw [heq] at hn ⊢
        exact tryKalloc_noneSwapped h hn hunmapped ht
      rw [if_neg (by simp)] at hi
      exact finishAnon_swapInv (k := { k₁ with kmem := k₁.kmem.setRam f zeroPage }) h₁ hal hnone₁ hi

theorem faultAnon_swapInv {swapped : Bool} (h : SwapInv k.p) (hal : va % 4096 = 0)
    (hlow : swapped = false → va < 2 ^ 32)
    (hnone : swapped = false → NoneSwapped k.p.memstat (toUint va))
    (hf : faultAnon k va acc swapped = .ok k') : SwapInv k'.p := by
  unfold faultAnon at hf
  split at hf
  · cases hf; exact h.setkilled
  · split at hf
    · rename_i hv
      split at hf
      · cases hf; exact h.setkilled
      · exact installAnon_swapInv h hal hlow hnone (by simpa using hv) hf
    · split at hf
      · obtain ⟨o, ho⟩ : ∃ o, o = memstatResident k.p.memstat (toUint va) := ⟨_, rfl⟩
        rw [← ho] at hf
        cases hf
        exact h.markDirty o
      · cases hf; exact h

theorem installExec_swapInv (h : SwapInv k.p) (hal : va % 4096 = 0) (hlow : va < 2 ^ 32)
    (hnone : NoneSwapped k.p.memstat (toUint va)) (hunmapped : (k.p.pagetable.pte va).v = false)
    (hi : installExec k va = .ok k') :
    SwapInv k'.p := by
  unfold installExec at hi
  rcases ht : tryKallocOrReplace k with ⟨_ | f, k₁⟩
  · rw [ht] at hi
    cases hi
    exact (tryKalloc_swapInv h ht).setkilled
  · have h₁ := tryKalloc_swapInv h ht
    have hnone₁ : NoneSwapped k₁.p.memstat (toUint va) := by
      rw [toUint_eq hlow] at hnone ⊢
      exact tryKalloc_noneSwapped h hnone hunmapped ht
    rw [ht] at hi
    dsimp only at hi
    split at hi
    · cases hi; exact h₁.setkilled
    · obtain ⟨⟨ok, k₂⟩, hmap, hrest⟩ := bind_eq_ok.mp hi
      obtain ⟨pt, hpt⟩ := mapUser_records hmap
      have h₂ : SwapInv k₂.p := by rw [hpt]; exact h₁.withPagetable pt
      have hnone₂ : NoneSwapped k₂.p.memstat (toUint va) := by rw [hpt]; exact hnone₁
      cases ok with
      | true => cases hrest; exact (h₂.recordResident hal hnone₂).withResidentPages _
      | false => cases hrest; exact h₂.setkilled

/-- A page of the recorded text or data range that is mapped, but not for the user. -/
def Kernel.hiddenPage (k : Kernel) (va : Nat) : Bool :=
  (k.p.inText va || k.p.inData va) &&
    ((k.p.pagetable.pte (pgRoundDown va)).v && !(k.p.pagetable.pte (pgRoundDown va)).perm.u)

theorem faultExec_swapInv (h : SwapInv k.p) (hal : va % 4096 = 0) (hlow : va < 2 ^ 32)
    (hnone : NoneSwapped k.p.memstat (toUint va))
    (hshown : (k.p.pagetable.pte va).v = true → (k.p.pagetable.pte va).perm.u = true)
    (hmax : va < maxVA) (hf : faultExec k va acc = .ok k') : SwapInv k'.p := by
  unfold faultExec at hf
  dsimp only at hf
  split at hf
  · cases hf; exact h.setkilled
  · split at hf
    · -- nothing is mapped for the user, so nothing is mapped
      rename_i hw
      have hunmapped : (k.p.pagetable.pte va).v = false := by
        by_contra hv
        have hv' : (k.p.pagetable.pte va).v = true := by simpa using hv
        unfold walkaddr at hw
        rw [if_neg (by omega)] at hw
        simp [hv', hshown hv'] at hw
      exact installExec_swapInv h hal hlow hnone hunmapped hf
    · split at hf
      · obtain ⟨o, ho⟩ : ∃ o, o = memstatVa k.p.memstat (toUint va) := ⟨_, rfl⟩
        have hm : ∀ perm, (k.setPerm va perm).p.memstat = k.p.memstat := fun _ => rfl
        rw [hm, ← ho] at hf
        cases hf
        exact (h.withPagetable _).markDirty o
      · cases hf; exact h.withPagetable _

theorem countFault_swapInv (h : SwapInv k.p) : SwapInv k.countFault.p :=
  h.of_records rfl rfl rfl rfl

/-- The handlers keep the records in agreement, given what the classification found. -/
theorem handleFault_swapInv {sw : Bool} {cause : Option Cause} (h : SwapInv k.p)
    (hal : va % 4096 = 0) (hlow : cause ≠ none → sw = false → va < 2 ^ 32)
    (hnone : sw = false → NoneSwapped k.p.memstat (toUint va))
    (hexec : cause = some .exec → sw = false)
    (hshown : cause = some .exec → (k.p.pagetable.pte va).v = true →
      (k.p.pagetable.pte va).perm.u = true) (hf : handleFault k va acc sw cause = .ok k') :
    SwapInv k'.p := by
  cases cause with
  | none => cases hf; exact h.setkilled
  | some c =>
    have hlow' := hlow (by simp)
    unfold handleFault at hf
    dsimp only at hf
    split at hf
    · simp at hf
    · rename_i hmax
      cases c with
      | exec =>
        have hns := hexec rfl
        exact faultExec_swapInv h hal (hlow' hns) (hnone hns) (hshown rfl)
          (Nat.lt_of_not_le hmax) hf
      | swap => exact faultAnon_swapInv h hal hlow' hnone hf
      | stack => exact faultAnon_swapInv h hal hlow' hnone hf
      | heap => exact faultAnon_swapInv h hal hlow' hnone hf

/-- **A fault keeps the records in agreement**, unless it is on a hidden page. -/
theorem usertrap_swapInv (h : SwapInv k.p) (hsz : k.p.sz ≤ 2 ^ 32)
    (hshown : Kernel.hiddenPage k va = false) (hf : usertrapPageFault k va acc = .ok k') :
    SwapInv k'.p := by
  refine handleFault_swapInv (countFault_swapInv h) (pgRoundDown_mod va) (fun hc hns => ?_)
    (fun hns => wasSwapped_false hns) (fun hc => (cause_exec hc).1) (fun hc hv => ?_) hf
  · obtain ⟨c, hc⟩ := Option.ne_none_iff_exists'.mp hc
    have hlt := cause_underBrk hc hns
    exact Nat.lt_of_le_of_lt (pgRoundDown_le va) (Nat.lt_of_lt_of_le hlt hsz)
  · have hv' : (k.p.pagetable.pte (pgRoundDown va)).v = true := hv
    have hc' : k.p.cause va acc = some .exec := hc
    have hseg : k.p.inText va = true ∨ k.p.inData va = true := by simpa using (cause_exec hc').2
    have hu : (k.p.pagetable.pte (pgRoundDown va)).perm.u = true := by
      have hs : k.p.inText va = true ∨ k.p.inData va = true →
          (k.p.pagetable.pte (pgRoundDown va)).perm.u = true := by
        simpa [Kernel.hiddenPage, hv'] using hshown
      exact hs hseg
    exact hu

/-! ## Faults taken by the kernel -/

theorem finishVmfault_swapInv {f : Nat} {mem : Page} {perm : Perm} (h : SwapInv k.p)
    (hf : finishVmfault k va f mem perm = .ok (r, k')) :
    SwapInv k'.p := by
  obtain ⟨⟨ok, k₁⟩, hmap, hrest⟩ := bind_eq_ok.mp hf
  obtain ⟨pt, hpt⟩ := mapUser_records hmap
  cases hrest
  rw [hpt]
  exact h.withPagetable pt

/-- `vmfault` may evict, and puts nothing on record. -/
theorem vmfault_swapInv (h : SwapInv k.p) (hf : vmfault k va = .ok (r, k')) : SwapInv k'.p := by
  unfold vmfault at hf
  dsimp only at hf
  split at hf
  · cases hf; exact h
  · split at hf
    · simp at hf
    · split at hf
      · cases hf; exact h
      · split at hf
        · split at hf
          · rename_i k₁ ht
            cases hf; exact tryKalloc_swapInv h ht
          · rename_i f k₁ ht
            have h₁ := tryKalloc_swapInv h ht
            split at hf
            · cases hf; exact h₁
            · exact finishVmfault_swapInv h₁ hf
        · split at hf
          · split at hf
            · rename_i k₁ ht
              cases hf; exact tryKalloc_swapInv h ht
            · rename_i f k₁ ht
              exact finishVmfault_swapInv (tryKalloc_swapInv h ht) hf
          · cases hf; exact h

theorem userFrame_swapInv (h : SwapInv k.p) (hf : userFrame k va = .ok (r, k')) : SwapInv k'.p := by
  unfold userFrame at hf
  split at hf
  · cases hf; exact h
  · split at hf
    · cases hf; exact h
    · exact vmfault_swapInv h hf

/-! ## System calls -/

theorem sysSbrk_swapInv {a b : Int} (h : SwapInv k.p) (hs : sysSbrk k a b = .ok (r, k')) :
    SwapInv k'.p := by
  cases sysSbrk_cases hs with
  | same hk' => rw [hk']; exact h
  | lazily sz _ _ hk' => rw [hk']; exact h.of_records rfl rfl rfl rfl
  | failed _ _ _ _ _ hk' => rw [hk']; exact h.of_records rfl rfl rfl rfl
  | grew _ _ _ _ _ _ _ hk' => rw [hk']; exact h.of_records rfl rfl rfl rfl
  | shrank _ _ _ _ _ hk' => rw [hk']; exact h.of_records rfl rfl rfl rfl

/-- The bookkeeping of a new process is empty, hence in agreement. -/
theorem freshProc_swapInv (pid tf : Nat) (pt : PageTable) : SwapInv (freshProc pid tf pt) := by
  have hused : usedSlots (freshProc pid tf pt) = ∅ := by
    ext s
    simp [usedSlots, freshProc]
  refine ⟨⟨fun i => ?_, fun i => ?_, fun i j _ hi => ?_⟩, fun i hi => ?_, fun s hs => ?_, ?_, ?_⟩
  · simp [freshProc]
  · simp [freshProc]
  · simp [Live, freshProc] at hi
  · simp [freshProc] at hi
  · simp [freshProc] at hs
  · rw [hused]; rfl
  · rw [hused]; rfl

theorem allocproc_swapInv {km km' : Kmem} {pid : Nat} (h : allocproc km pid = .ok (some p, km')) :
    SwapInv p := by
  cases allocproc_cases h with
  | made _ _ => exact freshProc_swapInv _ _ _

/-- The parent's records stay as they are, and the child's are empty. -/
theorem kfork_swapInv {slot : Bool} {np : Option Proc} (h : SwapInv k.p)
    (hf : kfork k slot = .ok (np, k')) : SwapInv k'.p ∧ ∀ q, np = some q → SwapInv q := by
  cases kfork_cases hf with
  | noSlot hnp hk' => rw [hk', hnp]; exact ⟨h, fun q hq => by simp at hq⟩
  | noProc _ _ hnp hk' => rw [hk', hnp]; exact ⟨h, fun q hq => by simp at hq⟩
  | undone _ _ _ _ _ _ _ _ hnp hk' => rw [hk', hnp]; exact ⟨h, fun q hq => by simp at hq⟩
  | made q km _ pt ha _ hnp hk' =>
    rw [hk', hnp]
    refine ⟨h, fun q' hq' => ?_⟩
    rw [← Option.some.inj hq']
    exact (allocproc_swapInv ha).of_records rfl rfl rfl rfl

/-- A committed image keeps the swap records of the old one. -/
theorem kexec_swapInv {path : List UInt8} {ip : Option Inode} {argv : List (List UInt8)} {r : Int}
    (h : SwapInv k.p) (he : kexec k path ip argv = .ok (r, k')) : SwapInv k'.p := by
  cases kexec_cases he with
  | missing _ _ hk' => rw [hk']; exact h
  | starved _ _ _ _ _ _ _ _ _ _ hk' => rw [hk']; exact h
  | undone _ _ _ _ _ _ _ _ _ _ _ hk' => rw [hk']; exact h
  | done _ _ _ _ _ _ _ _ _ _ _ _ p _ _ _ _ _ _ hc _ hk' =>
    obtain ⟨file, hp⟩ := swapfileCreate_eq hc
    rw [hk', hp]
    exact h.of_records rfl rfl rfl rfl

/-! ## Every run -/

/-- The swap records of a process are one-to-one, and its counters count them. -/
structure OneToOne (p : Proc) : Prop where
  entry : ∀ i, (p.memstat.pages i).state = .swapped →
    ∃! s, (p.swapTable s).used = true ∧ Paired p i s
  slot : ∀ s, (p.swapTable s).used = true →
    ∃! i, (p.memstat.pages i).state = .swapped ∧ Paired p i s
  distinct : ∀ s t, (p.swapTable s).used = true → (p.swapTable t).used = true →
    (p.swapTable s).va = (p.swapTable t).va → s = t
  num : p.numSwappedPages = (usedSlots p).card
  total : p.swappedPages = (usedSlots p).card
  card : (swappedEntries p).card = (usedSlots p).card

theorem SwapInv.oneToOne (h : SwapInv p) : OneToOne p := by
  refine ⟨fun i hi => ?_, fun s hs => ?_, fun s t hs ht hva => h.va_inj hs ht hva, h.num, h.total,
    h.card_eq⟩
  · obtain ⟨s, hs, hp⟩ := h.entry i hi
    exact ⟨s, ⟨hs, hp⟩, fun t ht => ht.2.slot_inj hp⟩
  · obtain ⟨i, hi, hp⟩ := h.slot s hs
    exact ⟨i, ⟨hi, hp⟩, fun j hj => h.entry_inj hj.1 hi hj.2 hp⟩

/-- The break is within 32 bits, and an access is not to a hidden page. -/
def SwapSafe (k : Kernel) : Op → Prop
  | .access _ va _ => k.p.sz ≤ 2 ^ 32 ∧ Kernel.hiddenPage k va = false
  | _ => k.p.sz ≤ 2 ^ 32

/-- Safe steps keep the records in agreement. -/
theorem swapInv_kept : Kept SwapSafe fun k => SwapInv k.p where
  boot k hb := by
    obtain ⟨km, _, _, ha⟩ := hb.made
    exact allocproc_swapInv ha
  trap _ _ _ _ _ h hsafe ht := usertrap_swapInv h hsafe.1 hsafe.2 ht
  byte _ _ _ h := h
  frame _ _ _ _ h hu := userFrame_swapInv h hu
  store _ _ _ _ h := h
  sbrk _ _ _ _ _ h hs := sysSbrk_swapInv h hs
  exec _ _ _ _ _ _ h _ he := kexec_swapInv h he
  fork _ _ _ _ h hf := kfork_swapInv h hf
  file _ _ h := h.of_records rfl rfl rfl rfl

/-- Every state reached by safe steps has its records in agreement. -/
theorem reachable_swapInv (h : ReachableVia SwapSafe k) : SwapInv k.p :=
  swapInv_kept.reachable h

/--
**The swap bookkeeping stays one-to-one** in every run with the break within 32
bits and no access to a page that lies in the recorded text or data range and is
mapped without `PTE_U`.
-/
theorem swap_records_one_to_one {k : Kernel} (h : ReachableVia SwapSafe k) : OneToOne k.p :=
  (reachable_swapInv h).oneToOne

instance (k : Kernel) : ∀ op, Decidable (SwapSafe k op)
  | .access _ va _ => inferInstanceAs (Decidable (k.p.sz ≤ 2 ^ 32 ∧ Kernel.hiddenPage k va = false))
  | .sbrk .. | .copyin .. | .copyout .. | .copyinstr .. | .exec .. | .fork .. | .rewrite _ =>
    inferInstanceAs (Decidable (k.p.sz ≤ 2 ^ 32))

/-- A program of one data page, at 0. -/
def onePage : Inode := fileOf (elfHeader 1 ++ loadHeader 6 120 0 4 4096 ++ [7, 8, 9, 10])

/-- A dirty heap page is swapped out to make room for the next. -/
def swapOutRun : List Op :=
  [.exec [47] onePage [[65]], .sbrk 8192 2, .access .write 12288 5, .access .write 12288 5,
    .access .read 16384 0]

theorem swap_records_one_to_one_page_out :
    ∃ k, ReachableVia SwapSafe k ∧ (k.p.swapTable 0).used = true ∧ OneToOne k.p := by
  have hrun : (after (fun k op => decide (SwapSafe k op)) [12] swapOutRun).map
      (fun k => (k.p.swapTable 0).used) = some true := by
    decide +kernel
  obtain ⟨k, hk, hused⟩ := Option.map_eq_some_iff.mp hrun
  have hreach := after_reachable (fun _ _ => of_decide_eq_true) hk
  exact ⟨k, hreach, hused, swap_records_one_to_one hreach⟩

/-- A program whose data segment begins at 0 and ends one byte short of the address space. -/
def endless : Inode := fileOf (elfHeader 1 ++ loadHeader 6 120 0 0 (2 ^ 64 - 1))

/--
The old image leaves a dirty entry for page 0. In the new one that page is the
guard page, inside the recorded data range, and the arguments fill the stack page,
so that the handler looks for the guard page one page too low.
-/
def guardRun : List Op :=
  [.exec [47] onePage [[65]], .access .write 0 5, .access .write 0 5, .access .write 0 5,
    .exec [47] endless [List.replicate 4079 65], .access .read 0 0]

/-- With the break within 32 bits alone, a slot can be left in use that no entry knows of. -/
theorem swap_records_can_part :
    ¬ ∀ k, ReachableVia (fun k _ => k.p.sz ≤ 2 ^ 32) k → k.p.sz ≤ 2 ^ 32 → k.p.killed = false →
      OneToOne k.p := by
  intro hall
  have hrun : (after (fun k _ => decide (k.p.sz ≤ 2 ^ 32)) [19] guardRun).map (fun k =>
      (k.p.killed, decide (k.p.sz ≤ 2 ^ 32), (k.p.swapTable 0).used,
        decide (∀ i, (k.p.memstat.pages i).state ≠ .swapped))) =
      some (false, true, true, true) := by
    decide +kernel
  obtain ⟨k, hk, hfacts⟩ := Option.map_eq_some_iff.mp hrun
  simp only [Prod.mk.injEq, decide_eq_true_eq] at hfacts
  obtain ⟨hlive, hsz, hused, hnone⟩ := hfacts
  have hreach : ReachableVia (fun k _ => k.p.sz ≤ 2 ^ 32) k :=
    after_reachable (fun _ _ h => of_decide_eq_true h) hk
  obtain ⟨i, hi, _⟩ := (hall k hreach hsz hlive).slot 0 hused
  exact hnone i hi.1

end Xv6Paging.Proof
