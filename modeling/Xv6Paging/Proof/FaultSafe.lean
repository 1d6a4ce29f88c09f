import Xv6Paging.Proof.Apart
import Xv6Paging.Proof.ExecSafe
import Xv6Paging.Proof.SwapFull

/-!
# Faults the kernel survives

The address of a page fault is the user's to choose. Before it is compared with `p->sz`
its page is looked up among the swapped-out pages, by the low 32 bits. An address that
agrees with a swapped-out page there goes on to `walk`, which panics from `MAXVA` on,
and otherwise to a handler that does not look at `p->sz` again.

Below `p->sz` there is one panic left: a page of the recorded text or data range that is
mapped, but not for the user, is mapped a second time.
-/

namespace Xv6Paging.Proof

open Xv6Paging Lib

variable {k k' : Kernel} {va va0 : Nat} {p : Proc} {acc : Access} {r : Option Nat}

/-! ## The swap file holds what is on record -/

theorem SlotsInFile.of_same {q : Proc} (h : SlotsInFile p) (htab : q.swapTable = p.swapTable)
    (hfile : q.swapfile = p.swapfile) : SlotsInFile q := by
  intro s hs
  rw [htab] at hs
  rw [hfile]
  exact h s hs

theorem Evicts.slotsInFile {i : Fin maxPagesInfo} {b : Bool} (he : Evicts k i b k')
    (h : SlotsInFile k.p) : SlotsInFile k'.p := by
  cases he with
  | stale _ _ hk' => rw [hk']; exact h.of_same rfl rfl
  | dropped _ _ _ hk' => rw [hk']; exact h.of_same rfl rfl
  | refused r d q _ _ hout _ _ _ hk' => rw [hk']; exact h.swapout hout
  | sent s d q _ _ hout _ _ hk' =>
    rw [hk']
    have hq := h.swapout hout
    intro t ht
    refine hq t ?_
    -- the same slots are in use after the eviction and after the swap-out it made
    obtain ⟨_, ⟨hneg, _⟩ | ⟨slot, hslot, hso⟩⟩ := procSwapoutPage_cases hout
    · omega
    · have hs : slot = s := Fin.ext (by omega)
      rw [hso.table, hs]
      by_cases hts : t = s
      · rw [hts, Function.update_self]
      · have ht' : (Function.update k.p.swapTable s
            ⟨(k.p.memstat.pages i).va, s.val, true⟩ t).used = true := ht
        rw [Function.update_of_ne hts] at ht' ⊢
        exact ht'

theorem Room.slotsInFile (hr : Room k r k') (h : SlotsInFile k.p) :
    SlotsInFile k'.p := by
  cases hr with
  | had _ => exact h
  | nobody _ _ => exact h.of_same rfl rfl
  | stuck _ _ he => exact (he.slotsInFile h).of_same rfl rfl
  | made _ _ he _ => exact he.slotsInFile h

theorem fill_slotsInFile {src : Fill} {f : Nat} {o : Option Page} (hp : src.page k va f = (o, p))
    (h : SlotsInFile k.p) : SlotsInFile p := by
  cases src with
  | zero => cases hp; exact h
  | slice => cases hp; exact h
  | slot =>
    rcases hin : swapinPage k.p va (k.kmem.ram f) with ⟨s, pg, q⟩
    simp only [Fill.page, hin, Prod.mk.injEq] at hp
    obtain ⟨_, rfl⟩ := hp
    exact h.swapin hin

theorem markDirty_slotsInFile (h : SlotsInFile p) (o : Option (Fin maxPagesInfo)) :
    SlotsInFile (p.markDirty o) := by
  cases o with
  | none => exact h
  | some i => exact h.of_same rfl rfl

theorem recordResident_slotsInFile (h : SlotsInFile p) (va : Nat) :
    SlotsInFile (p.recordResident va) := by
  obtain ⟨q, hq, hdef⟩ := recordResident_eq p va
  have hpq : SlotsInFile q := by rw [hq]; exact h.of_same rfl rfl
  rw [hdef]
  rcases memstatMarkResident_cases q va p.memstat.nextFifoSeq with hr | ⟨i, _, hr⟩
  · rw [hr]; exact hpq
  · rw [hr]; exact hpq.of_same rfl rfl

theorem recordAnon_slotsInFile (h : SlotsInFile p) (va : Nat) (acc : Access) :
    SlotsInFile (p.recordAnon va acc) := by
  have hres := recordResident_slotsInFile h va
  unfold Proc.recordAnon
  generalize p.recordResident va = q at hres
  dsimp only
  split
  · have hdirty := markDirty_slotsInFile hres (memstatVa q.memstat (toUint va))
    generalize q.markDirty (memstatVa q.memstat (toUint va)) = q' at hdirty
    exact hdirty.of_same rfl rfl
  · exact hres.of_same rfl rfl

theorem recordExec_slotsInFile (h : SlotsInFile p) (va : Nat) :
    SlotsInFile (recordExec va p) := by
  have hres := recordResident_slotsInFile h va
  unfold recordExec
  generalize p.recordResident va = q at hres
  exact hres.of_same rfl rfl

theorem Installs.slotsInFile {src : Fill} {perm : Proc → Perm} {record : Proc → Proc}
    (hi : Installs src perm record k va0 r k') (hrec : ∀ p, SlotsInFile p → SlotsInFile (record p))
    (hm : MemOk k.p.memstat) (h : SlotsInFile k.p) : SlotsInFile k'.p := by
  cases hi with
  | starved ht => exact (tryKalloc_room hm ht).slotsInFile h
  | unfilled ht hp => exact fill_slotsInFile hp ((tryKalloc_room hm ht).slotsInFile h)
  | unmapped ht hp hmap =>
    obtain ⟨pt, hk₂⟩ := mapUser_records hmap
    rw [hk₂]
    exact (fill_slotsInFile hp ((tryKalloc_room hm ht).slotsInFile h)).of_same rfl rfl
  | mapped ht hp hmap =>
    obtain ⟨pt, hk₂⟩ := mapUser_records hmap
    refine hrec _ ?_
    rw [hk₂]
    exact (fill_slotsInFile hp ((tryKalloc_room hm ht).slotsInFile h)).of_same rfl rfl

theorem settle_slotsInFile (h : SlotsInFile k.p) :
    SlotsInFile (settle r k).p := by
  cases r with
  | none => exact h.of_same rfl rfl
  | some f => exact h

theorem Handled.slotsInFile (hh : Handled k va acc k') (hm : MemOk k.p.memstat)
    (h : SlotsInFile k.p) : SlotsInFile k'.p := by
  cases hh with
  | killed _ hk' => rw [hk']; exact h.of_same rfl rfl
  | noted o _ _ _ hk' => rw [hk']; exact markDirty_slotsInFile h o
  | granted o k₁ _ _ _ _ _ _ hk₁ hk' =>
    have h₁ : SlotsInFile k₁.p := by rw [hk₁]; exact h.of_same rfl rfl
    rw [hk']
    exact markDirty_slotsInFile h₁ o
  | anon swapped r k₁ _ _ hi hk' =>
    rw [hk']
    exact settle_slotsInFile (hi.slotsInFile (fun p hp => recordAnon_slotsInFile hp _ _) hm h)
  | exec r k₁ _ _ hi hk' =>
    rw [hk']
    exact settle_slotsInFile (hi.slotsInFile (fun p hp => recordExec_slotsInFile hp _) hm h)

theorem userFrame_slotsInFile (hm : MemOk k.p.memstat) (h : SlotsInFile k.p)
    (hu : userFrame k va = .ok (r, k')) : SlotsInFile k'.p := by
  unfold userFrame at hu
  split at hu
  · cases hu; exact h
  · split at hu
    · cases hu; exact h
    · rcases vmfault_cases hu with ⟨_, _, hk'⟩ | ⟨src, _, _, hi⟩
      · rw [hk']; exact h
      · exact hi.slotsInFile (fun p hp => hp) hm h

theorem freshProc_slotsInFile (pid tf : Nat) (pt : PageTable) : SlotsInFile (freshProc pid tf pt) :=
  .of_empty fun _ => rfl

theorem allocproc_slotsInFile {km km' : Kmem} {pid : Nat}
    (h : allocproc km pid = .ok (some p, km')) : SlotsInFile p := by
  cases allocproc_cases h with
  | made _ _ => exact freshProc_slotsInFile _ _ _

/-- The swap file of a process holds every slot in use, whatever the process did. -/
theorem slotsInFile_kept :
    Kept (fun _ _ => True) fun k => SpaceInv False k ∧ SlotsInFile k.p := by
  have hspace : Kept (fun _ _ => True) (SpaceInv False) := spaceInv_kept fun hC => hC.elim
  refine ⟨fun k hb => ?_, fun k va acc b k' h hC ht => ?_, fun k va b h => ?_,
    fun k va r k' h hu => ?_, fun k f ofs bytes h => ?_, fun k n t r k' h hs => ?_,
    fun k path ip argv r k' h hC hx => ?_, fun k slot np k' h hf => ?_,
    fun k ip h => ⟨hspace.file k ip h.1, h.2⟩⟩
  · refine ⟨hspace.boot k hb, ?_⟩
    obtain ⟨km, _, _, ha⟩ := hb.made
    exact allocproc_slotsInFile ha
  · obtain ⟨S, hok⟩ := h.1
    have h₀ : SlotsInFile k.countFault.p := h.2.of_same rfl rfl
    exact ⟨hspace.trap k va acc b k' h.1 hC ht, (usertrap_cases ht).slotsInFile hok.mem h₀⟩
  · exact ⟨hspace.byte k va b h.1, h.2⟩
  · obtain ⟨S, hok⟩ := h.1
    exact ⟨hspace.frame k va r k' h.1 hu, userFrame_slotsInFile hok.mem h.2 hu⟩
  · exact ⟨hspace.store k f ofs bytes h.1, h.2⟩
  · refine ⟨hspace.sbrk k n t r k' h.1 hs, ?_⟩
    cases sysSbrk_cases hs with
    | same hk' => rw [hk']; exact h.2
    | lazily sz _ _ hk' => rw [hk']; exact h.2.of_same rfl rfl
    | failed _ _ _ _ _ hk' => rw [hk']; exact h.2.of_same rfl rfl
    | grew _ _ _ _ _ _ _ hk' => rw [hk']; exact h.2.of_same rfl rfl
    | shrank _ _ _ _ _ hk' => rw [hk']; exact h.2.of_same rfl rfl
  · refine ⟨hspace.exec k path ip argv r k' h.1 hC hx, ?_⟩
    cases kexec_cases hx with
    | missing _ _ hk' => rw [hk']; exact h.2
    | starved _ _ _ _ _ _ _ _ _ _ hk' => rw [hk']; exact h.2
    | undone _ _ _ _ _ _ _ _ _ _ _ hk' => rw [hk']; exact h.2
    | done _ _ _ _ _ _ _ _ _ _ _ _ p _ _ _ _ _ _ hc _ hk' =>
      -- the swap file of the old image stays
      obtain ⟨htab, hkeeps⟩ := swapfileCreate_cases hc
      rw [hk']
      intro s hs
      rw [htab] at hs
      exact SlotsInFile.keeps (h.2.of_same rfl rfl) hkeeps hs
  · have hboth := hspace.fork k slot np k' h.1 hf
    cases kfork_cases hf with
    | noSlot hnp hk' =>
      rw [hk'] at hboth ⊢
      exact ⟨⟨hboth.1, h.2⟩, fun q hq => by rw [hnp] at hq; cases hq⟩
    | noProc _ _ hnp hk' =>
      rw [hk'] at hboth ⊢
      exact ⟨⟨hboth.1, h.2⟩, fun q hq => by rw [hnp] at hq; cases hq⟩
    | undone _ _ _ _ _ _ _ _ hnp hk' =>
      rw [hk'] at hboth ⊢
      exact ⟨⟨hboth.1, h.2⟩, fun q hq => by rw [hnp] at hq; cases hq⟩
    | made q km _ pt ha _ hnp hk' =>
      rw [hk'] at hboth ⊢
      refine ⟨⟨hboth.1, h.2⟩, fun q' hq' => ⟨hboth.2 q' hq', ?_⟩⟩
      rw [hnp] at hq'
      cases hq'
      exact (allocproc_slotsInFile ha).of_same rfl rfl

theorem reachable_slotsInFile (h : Reachable k) : SlotsInFile k.p :=
  (slotsInFile_kept.reachable h).2

/-! ## The faults it does not survive -/

/-- Not in the guard page, and on record as swapped out as far as the low 32 bits tell. -/
def LooksSwapped (p : Proc) (va : Nat) : Prop :=
  p.inGuard va = false ∧ wasSwapped p.memstat (toUint (pgRoundDown va)) = true

/-- A page of the executable that `usertrap` is to load, or already has. -/
structure ExecPage (p : Proc) (va : Nat) : Prop where
  guard : p.inGuard va = false
  swapped : wasSwapped p.memstat (toUint (pgRoundDown va)) = false
  segment : p.inText va = true ∨ p.inData va = true

theorem LooksSwapped.cause (h : LooksSwapped p va) (acc : Access) :
    p.cause va acc = some .swap := by
  unfold Proc.cause
  rw [h.1, h.2]
  rfl

theorem ExecPage.cause (h : ExecPage p va) (acc : Access) :
    p.cause va acc = some .exec := by
  unfold Proc.cause
  rw [h.guard, h.swapped]
  rcases h.segment with hs | hs <;> simp [hs]

theorem cause_guard {c : Cause} (h : p.cause va acc = some c) :
    p.inGuard va = false := by
  cases hg : p.inGuard va with
  | false => rfl
  | true => simp [Proc.cause, hg] at h

theorem cause_looksSwapped {c : Cause} (h : p.cause va acc = some c) (hsz : p.sz ≤ va) :
    LooksSwapped p va := by
  refine ⟨cause_guard h, ?_⟩
  by_contra hns
  have hlt := cause_underBrk h (by simpa using hns)
  omega

theorem execPage_of_cause (h : p.cause va acc = some .exec) :
    ExecPage p va := by
  obtain ⟨hns, hseg⟩ := cause_exec h
  exact ⟨cause_guard h, hns, by simpa using hseg⟩

/-- The file still has all the bytes page `va0` was to be filled with. -/
def SliceThere (p : Proc) (va0 : Nat) : Prop :=
  ∀ ip, p.execIp = some ip →
    ip.readable (p.sliceOff va0) (p.sliceFilesz va0) = p.sliceFilesz va0

theorem slicePage_iff (p : Proc) (va0 : Nat) : p.slicePage va0 ≠ none ↔ SliceThere p va0 := by
  unfold Proc.slicePage SliceThere
  dsimp only
  cases p.execIp with
  | none => simp
  | some ip =>
    dsimp only
    by_cases hpos : 0 < p.sliceFilesz va0
    · rw [if_pos hpos]
      simp only [readi, Option.some.injEq, forall_eq']
      by_cases hall : ip.readable (p.sliceOff va0) (p.sliceFilesz va0) = p.sliceFilesz va0
      · simp [hall]
      · simp [hall]
    · have hzero : p.sliceFilesz va0 = 0 := by omega
      have hle := readable_le ip (p.sliceOff va0) 0
      rw [if_neg hpos, hzero]
      simp
      omega

/--
A fault that panics the kernel, or that lets a process go on with an address at or
above `p->sz`.
-/
inductive Breaks (p : Proc) (va : Nat) (acc : Access) : Prop where
  /-- `walk` is called from `MAXVA` on. -/
  | walk : LooksSwapped p va → maxVA ≤ pgRoundDown va → Breaks p va acc
  /-- A page of the file is mapped over a page that is not the user's. -/
  | remap : ExecPage p va → ¬ (acc = .write ∧ p.textRange (pgRoundDown va) = true) →
      (p.pagetable.pte (pgRoundDown va)).v = true →
      (p.pagetable.pte (pgRoundDown va)).perm.u = false → SliceThere p (pgRoundDown va) →
      Breaks p va acc
  /-- A page above the break is there, or comes back from the swap file. -/
  | revived : LooksSwapped p va → p.sz ≤ va → pgRoundDown va < maxVA → acc ≠ .exec →
      ((p.pagetable.pte (pgRoundDown va)).v = true ∨
        ∃ s, (p.swapTable s).used = true ∧ (p.swapTable s).va = pgRoundDown va) →
      Breaks p va acc

/-- The fault is handled, and kills the process if the address is not below `p->sz`. -/
def Survives (k : Kernel) (va : Nat) (acc : Access) : Prop :=
  ∃ k', usertrapPageFault k va acc = .ok k' ∧ (k.p.sz ≤ va → k'.p.killed = true)

section

variable {C : Prop} {U S : Set Nat}

/-- **Two panics** are within reach of a fault, and no other. -/
theorem usertrap_returns (acc : Access) (h : SpaceOk C U S k.kmem k.p)
    (hreach : LooksSwapped k.p va → pgRoundDown va < maxVA)
    (hover : ExecPage k.p va → ¬ (acc = .write ∧ k.p.textRange (pgRoundDown va) = true) →
      (k.p.pagetable.pte (pgRoundDown va)).v = true →
      (k.p.pagetable.pte (pgRoundDown va)).perm.u = false → ¬ SliceThere k.p (pgRoundDown va)) :
    ∃ k', usertrapPageFault k va acc = .ok k' := by
  have hal := pgRoundDown_mod va
  have h₀ : SpaceOk C U S k.countFault.kmem k.countFault.p := h.same ⟨rfl, rfl⟩ h.mem
  unfold usertrapPageFault
  cases hc : k.p.cause va acc with
  | none => exact ⟨_, rfl⟩
  | some c =>
    have hmax : pgRoundDown va < maxVA := by
      by_cases hsz : k.p.sz ≤ va
      · exact hreach (cause_looksSwapped hc hsz)
      · have hlow : va < trapframeVA := Nat.lt_of_lt_of_le (Nat.lt_of_not_le hsz) h.brk
        exact lt_maxVA (Nat.lt_of_le_of_lt (pgRoundDown_le va) hlow)
    unfold handleFault
    dsimp only
    rw [if_neg (Nat.not_le.mpr hmax)]
    cases c with
    | exec =>
      refine faultExec_total acc h₀ hal hmax fun hwt hv hu => ?_
      by_contra hpage
      exact hover (execPage_of_cause hc) hwt hv hu ((slicePage_iff _ _).mp hpage)
    | swap | stack | heap => exact faultAnon_total acc _ h₀ hal hmax

end

/-- Eviction brings no other page to the swap file than its victim. -/
theorem Evicts.slot_before {i : Fin maxPagesInfo} {b : Bool} {s : Fin maxSwapPages}
    (he : Evicts k i b k') (hne : (k.p.memstat.pages i).va ≠ (k'.p.swapTable s).va) :
    k'.p.swapTable s = k.p.swapTable s := by
  cases he with
  | stale _ _ hk' => rw [hk']; rfl
  | dropped _ _ _ hk' => rw [hk']; rfl
  | refused r d q _ _ _ _ hq _ hk' => rw [hk', hq]
  | sent t d q _ _ _ _ _ hk' =>
    have htab : k'.p.swapTable =
        Function.update k.p.swapTable t ⟨(k.p.memstat.pages i).va, t.val, true⟩ := by
      rw [hk']; rfl
    rw [htab] at hne ⊢
    by_cases hst : s = t
    · rw [hst, Function.update_self] at hne
      exact absurd rfl hne
    · exact Function.update_of_ne hst _ _

/-- A page that is on record as swapped out is not one that an allocation sends out. -/
theorem Room.slot_before {b : Nat} {s : Fin maxSwapPages} (hr : Room k r k')
    (hm : MemOk k.p.memstat) (hsw : wasSwapped k.p.memstat (toUint b) = true)
    (hva : (k'.p.swapTable s).va = b) :
    k'.p.swapTable s = k.p.swapTable s := by
  have other : ∀ {i : Fin maxPagesInfo}, selectVictimFifoIndex k.p.memstat = some i →
      (k.p.memstat.pages i).va ≠ b := by
    intro i hi hib
    have hres := selectVictim_resident hi
    have hsmall := hm.small i
    rw [hib] at hsmall
    rw [toUint_eq hsmall, ← hib] at hsw
    obtain ⟨j, hj⟩ := Option.isSome_iff_exists.mp hsw
    have hjs : (k.p.memstat.pages j).state = .swapped ∧
        (k.p.memstat.pages j).va = (k.p.memstat.pages i).va := by
      have hfound := (Fin.find?_eq_some_iff.mp hj).1
      simpa using hfound
    have hji := hm.live_inj (swapped_live hjs.1) (resident_live hres) hjs.2
    rw [hji, hres] at hjs
    cases hjs.1
  cases hr with
  | had _ => rfl
  | nobody _ _ => rfl
  | @stuck km i k₁ hk hi he =>
    exact he.slot_before (k := { k with kmem := km }) (s := s) fun h => other hi (h.trans hva)
  | @made km km' i k₁ r hk hi he hk₁ =>
    exact he.slot_before (k := { k with kmem := km }) (s := s) fun h => other hi (h.trans hva)

theorem fill_slot {f : Nat} {pg : Page} (hal : va0 % 4096 = 0)
    (h : Fill.page k va0 f .slot = (some pg, p)) : ∃ s, slotOf k.p va0 = some s := by
  rcases hin : swapinPage k.p va0 (k.kmem.ram f) with ⟨r, pg', q⟩
  simp only [Fill.page, hin, Prod.mk.injEq] at h
  obtain ⟨hpg, _⟩ := h
  rcases swapinPage_eq hin with ⟨hr, _⟩ | ⟨s, hs, _⟩
  · rw [hr, if_pos (by decide)] at hpg
    cases hpg
  · rw [pgRoundDown_eq_of_mod hal] at hs
    exact ⟨s, hs⟩

/-- A page that is neither there nor in the swap file cannot be brought back. -/
theorem LooksSwapped.lost (h : LooksSwapped k.p va) (hm : MemOk k.p.memstat)
    (hv : (k.p.pagetable.pte (pgRoundDown va)).v = false)
    (hno : ¬ ∃ s, (k.p.swapTable s).used = true ∧ (k.p.swapTable s).va = pgRoundDown va)
    (ht : usertrapPageFault k va acc = .ok k') : k'.p.killed = true := by
  have hv' : (k.countFault.p.pagetable.pte (pgRoundDown va)).v = false := hv
  unfold usertrapPageFault at ht
  rw [h.cause, h.2] at ht
  unfold handleFault at ht
  dsimp only at ht
  split at ht
  · cases ht
  · unfold faultAnon at ht
    rw [hv'] at ht
    split at ht
    · cases ht; rfl
    · rw [if_pos (by rfl)] at ht
      split at ht
      · cases ht; rfl
      · obtain ⟨r, k₂, hi, hk'⟩ := installAnon_cases ht
        rw [hk']
        cases hi with
        | starved _ | unfilled _ _ | unmapped _ _ _ => rfl
        | mapped hroom hp hmap =>
          -- the page would have come from a slot, and the slot was in use before
          obtain ⟨s, hs⟩ := fill_slot (pgRoundDown_mod va) hp
          obtain ⟨hused, hsva⟩ := slotOf_some hs
          have hsame := (tryKalloc_room (k := k.countFault) hm hroom).slot_before hm h.2 hsva
          rw [hsame] at hused hsva
          exact absurd ⟨s, hused, hsva⟩ hno

/-- **A fault at or above the break kills**, unless the page is there or in the swap file. -/
theorem usertrap_kills (hm : MemOk k.p.memstat) (hno : ¬ Breaks k.p va acc) (hsz : k.p.sz ≤ va)
    (ht : usertrapPageFault k va acc = .ok k') :
    k'.p.killed = true := by
  cases hc : k.p.cause va acc with
  | none =>
    unfold usertrapPageFault at ht
    rw [hc] at ht
    cases ht
    rfl
  | some c =>
    have hlooks := cause_looksSwapped hc hsz
    by_cases hacc : acc = .exec
    · unfold usertrapPageFault at ht
      rw [hlooks.cause, handleFault] at ht
      split at ht
      · cases ht
      · rw [faultAnon, if_pos hacc] at ht
        cases ht
        rfl
    · by_cases hmax : pgRoundDown va < maxVA
      · have hgone : ∀ hthere, False := fun hthere => hno (.revived hlooks hsz hmax hacc hthere)
        refine hlooks.lost hm ?_ (fun hs => hgone (Or.inr hs)) ht
        by_contra hv
        exact hgone (Or.inl (by simpa using hv))
      · exact absurd (.walk hlooks (Nat.le_of_not_lt hmax)) hno

/-! ## Nothing less will do -/

/-- The bounds of the guard page are multiples of the page size. -/
theorem inGuard_pgRoundDown (p : Proc) (va : Nat) : p.inGuard (pgRoundDown va) = p.inGuard va := by
  have hguard : p.stackGuard % 4096 = 0 := by
    unfold Proc.stackGuard Proc.stackEnd sub64 pgRoundUp
    omega
  have hbase : p.stackBase % 4096 = 0 := by
    unfold Proc.stackBase Proc.stackEnd sub64 pgRoundUp
    omega
  unfold Proc.inGuard pgRoundDown
  generalize p.stackGuard = g at hguard
  generalize p.stackBase = b at hbase
  have hlo : g ≤ va / 4096 * 4096 ↔ g ≤ va := by omega
  have hhi : va / 4096 * 4096 < b ↔ va < b := by omega
  simp only [hlo, hhi]

/-- A slot in use is read back whole. -/
theorem SlotsInFile.reads {s : Fin maxSwapPages} (h : SlotsInFile p) (hal : va0 % 4096 = 0)
    (hs : slotOf p va0 = some s) (dst : Page) :
    (swapinPage p va0 dst).1 = s.val := by
  obtain ⟨ip, hip, hsize⟩ := h s (slotOf_some hs).1
  have hlt : s.val < 1024 := s.isLt
  have hread : ip.readable (s.val * 4096) 4096 = 4096 := readable_all (by omega) (by omega)
  unfold swapinPage
  rw [hip, pgRoundDown_eq_of_mod hal]
  dsimp only
  rw [hs]
  dsimp only
  rw [show (readi ip dst (s.val * 4096) 4096).1 = 4096 from hread, if_neg (by simp)]

theorem SlotsInFile.fills {s : Fin maxSwapPages} (h : SlotsInFile k.p) (hal : va0 % 4096 = 0)
    (hs : slotOf k.p va0 = some s) (km : Kmem) (f : Nat) :
    ((Fill.slot.page { k.countFault with kmem := km } va0 f).1).isSome = true := by
  have h₀ : SlotsInFile k.countFault.p := h.of_same rfl rfl
  have hreads := h₀.reads hal hs (km.ram f)
  rcases hin : swapinPage k.countFault.p va0 (km.ram f) with ⟨n, pg, q⟩
  rw [hin] at hreads
  have hn : n = (s.val : Int) := hreads
  simp only [Fill.page, hin, if_neg (show ¬ n < 0 by omega), Option.isSome_some]

theorem slotOf_used {s : Fin maxSwapPages} (hu : (p.swapTable s).used = true)
    (hva : (p.swapTable s).va = va0) : ∃ t, slotOf p va0 = some t := by
  cases hs : slotOf p va0 with
  | none =>
    unfold slotOf at hs
    have hnone := Fin.find?_eq_none_iff.mp hs s
    simp [hu, hva] at hnone
  | some t => exact ⟨t, rfl⟩

section

variable {C : Prop} {U S : Set Nat}

theorem walk_panics (acc : Access) (h : LooksSwapped k.p va) (hmax : maxVA ≤ pgRoundDown va) :
    Panics (usertrapPageFault k va acc) := by
  unfold usertrapPageFault
  rw [h.cause, handleFault, if_pos hmax]
  exact ⟨_, rfl⟩

/-- With a frame at hand, the page is mapped a second time. -/
theorem remap_panics (hp : kallocs 3 k.kmem = true) (hexec : ExecPage k.p va)
    (hwt : ¬ (acc = .write ∧ k.p.textRange (pgRoundDown va) = true))
    (hv : (k.p.pagetable.pte (pgRoundDown va)).v = true)
    (hu : (k.p.pagetable.pte (pgRoundDown va)).perm.u = false)
    (hslice : SliceThere k.p (pgRoundDown va)) : Panics (usertrapPageFault k va acc) := by
  unfold usertrapPageFault
  rw [hexec.cause, handleFault]
  split
  · exact ⟨_, rfl⟩
  · rename_i hge
    have hmax := Nat.lt_of_not_le hge
    have hwalk : walkaddr k.countFault.p.pagetable (pgRoundDown va) = none := by
      have hu' : (k.countFault.p.pagetable.pte (pgRoundDown va)).perm.u = false := hu
      unfold walkaddr
      rw [if_neg hge]
      simp [hu']
    obtain ⟨f, km, _, _, ht⟩ := tryKalloc_available (k := k.countFault) hp
    obtain ⟨pg, hpg⟩ := Option.ne_none_iff_exists'.mp ((slicePage_iff _ _).mpr hslice)
    have hpg' : k.countFault.p.slicePage (pgRoundDown va) = some pg := hpg
    have hwt' : ¬ (acc = .write ∧ k.countFault.p.textRange (pgRoundDown va) = true) := hwt
    unfold faultExec
    dsimp only
    rw [if_neg hwt', hwalk]
    dsimp only
    unfold installExec
    rw [ht]
    dsimp only
    rw [hpg']
    refine Panics.bind ?_ _
    exact Panics.bind (mappages_remap (pgRoundDown_mod va) hmax hv) _

/-- The handler for swapped-out pages does not ask for the break. -/
theorem revived_lives (h : SpaceOk C U S k.kmem k.p) (hslots : SlotsInFile k.p)
    (hp : kallocs 3 k.kmem = true) (hlooks : LooksSwapped k.p va) (hmax : pgRoundDown va < maxVA)
    (hacc : acc ≠ .exec) (hthere : (k.p.pagetable.pte (pgRoundDown va)).v = true ∨
      ∃ s, (k.p.swapTable s).used = true ∧ (k.p.swapTable s).va = pgRoundDown va)
    (ht : usertrapPageFault k va acc = .ok k') : k'.p.killed = k.p.killed := by
  have hal := pgRoundDown_mod va
  have h₀ : SpaceOk C U S k.countFault.kmem k.countFault.p := h.same ⟨rfl, rfl⟩ h.mem
  unfold usertrapPageFault at ht
  rw [hlooks.cause, hlooks.2, handleFault, if_neg (Nat.not_le.mpr hmax), faultAnon,
    if_neg hacc] at ht
  split at ht
  · rename_i hv
    have hv' : (k.countFault.p.pagetable.pte (pgRoundDown va)).v = false := by simpa using hv
    have hg : k.countFault.p.inGuard (pgRoundDown va) = false :=
      (inGuard_pgRoundDown k.p va).trans hlooks.1
    rw [hg, if_neg (by simp)] at ht
    obtain ⟨s, hused, hsva⟩ := hthere.resolve_left fun hv => by
      have hvt : (k.countFault.p.pagetable.pte (pgRoundDown va)).v = true := hv
      rw [hv'] at hvt
      cases hvt
    obtain ⟨t, hslot⟩ := slotOf_used hused hsva
    obtain ⟨r, k₂, hi, hk'⟩ := installAnon_cases ht
    obtain ⟨hsome, _⟩ := hi.available hp h₀ hal hmax (hslots.fills hal hslot)
    obtain ⟨f, hf⟩ := Option.isSome_iff_exists.mp hsome
    subst hf
    rw [hk', settle_some, hi.killed (fun p => recordAnon_killed p _ _) h₀.mem]
    rfl
  · split at ht
    · cases ht
      cases memstatResident k.countFault.p.memstat (toUint (pgRoundDown va)) <;> rfl
    · cases ht; rfl

end

/-- What is asked of a state to see where an address stands. -/
def standing (k : Kernel) (va : Nat) : Bool × Bool × Bool :=
  (k.p.inGuard va, wasSwapped k.p.memstat (toUint (pgRoundDown va)), decide (k.p.sz ≤ va))

end Xv6Paging.Proof
