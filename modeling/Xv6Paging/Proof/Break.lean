import Xv6Paging.Proof.Space
import Xv6Paging.Proof.SwapSteps

/-!
# What a page table may say

Two things about the entries a process can end up with. No page can be both
written and executed, whatever the process does. And as long as no access to a
swapped-out page lies above the break, no page at all lies above it, so that
taking the table apart and growing it again never finds a page in the way.
-/

namespace Xv6Paging.Proof

open Xv6Paging Lib

variable {tf : Nat}
variable {S U : Set Nat} {k : Kernel} {km : Kmem} {pt : PageTable} {sz : Nat}

/-! ## Write xor execute -/

/--
**No page of a process can be both written and executed**, and the ones that can be
executed lie in the recorded text range.
-/
theorem write_xor_execute {k : Kernel} (h : Reachable k) {va : Nat} (hva : va < 2 * maxVA)
    (hv : (k.p.pagetable.pte va).v = true) (hu : (k.p.pagetable.pte va).perm.u = true) :
    ¬ ((k.p.pagetable.pte va).perm.w = true ∧ (k.p.pagetable.pte va).perm.x = true) ∧
      ((k.p.pagetable.pte va).perm.x = true →
        k.p.textStart ≤ pgRoundDown va ∧ pgRoundDown va < k.p.textEnd) := by
  obtain ⟨S, hs⟩ := reachable_spaceInv h
  have hlow : va < trapframeVA := by
    by_contra hge
    by_cases hmax : va < maxVA
    · rw [(hs.top va (Nat.le_of_not_lt hge) hmax).2.1] at hu
      simp at hu
    · rw [hs.high va (Nat.le_of_not_lt hmax) hva] at hv
      simp at hv
  have hwx := hs.wx va hlow hv
  refine ⟨fun hboth => ?_, fun hx => ?_⟩
  · rw [(hwx hboth.2).1] at hboth
    simp at hboth
  · simpa [Proc.textRange] using (hwx hx).2

/-- A program of one text page, at 0. -/
def textPage : Inode := fileOf (elfHeader 1 ++ loadHeader 5 120 0 4 4096 ++ [7, 8, 9, 10])

theorem write_xor_execute_text_page :
    ∃ k, Reachable k ∧ (k.p.pagetable.pte 0).v = true ∧ (k.p.pagetable.pte 0).perm.u = true ∧
      (k.p.pagetable.pte 0).perm.x = true ∧ (k.p.pagetable.pte 0).perm.w = false ∧
      k.p.textStart ≤ 0 ∧ 0 < k.p.textEnd := by
  have hrun : (after (fun _ _ => true) [] [.exec [47] textPage [[65]], .access .exec 0 0]).map
      (fun k => ((k.p.pagetable.pte 0).v, (k.p.pagetable.pte 0).perm)) = some (true, permURX) := by
    decide +kernel
  obtain ⟨k, hk, hpte⟩ := Option.map_eq_some_iff.mp hrun
  obtain ⟨hv, hperm⟩ := Prod.mk.inj hpte
  have hreach : Reachable k := after_reachable (fun _ _ _ => trivial) hk
  have hwx := write_xor_execute hreach (by decide) hv (by rw [hperm]; rfl)
  exact ⟨k, hreach, hv, by rw [hperm]; rfl, by rw [hperm]; rfl, by rw [hperm]; rfl,
    hwx.2 (by rw [hperm]; rfl)⟩

/-! ## Frames -/

/-- The trampoline and the trapframe are in frames that are neither free nor in the page table. -/
def TopHeld (k : Kernel) : Prop :=
  ∃ S, SpaceOk False ∅ S k.kmem k.p ∧ trampolineFrame ∈ S ∧ k.p.trapframe ∈ S

theorem Brk.trapframe {k' : Kernel} (hb : Brk k k') : k'.p.trapframe = k.p.trapframe := by
  cases hb with
  | same hk' | lazily _ _ _ hk' | failed _ _ _ _ _ hk' | grew _ _ _ _ _ _ _ hk'
  | shrank _ _ _ _ _ hk' =>
    rw [hk']

theorem Execs.trapframe {k' : Kernel} {path : List UInt8} {ip : Option Inode}
    {argv : List (List UInt8)} {r : Int} (he : Execs k path ip argv r k') :
    k'.p.trapframe = k.p.trapframe := by
  cases he with
  | missing _ _ hk' | starved _ _ _ _ _ _ _ _ _ _ hk' | undone _ _ _ _ _ _ _ _ _ _ _ hk' => rw [hk']
  | done _ _ _ _ _ _ _ _ _ _ _ _ _ _ _ _ _ _ _ hcr _ hk' =>
    obtain ⟨_, hp⟩ := swapfileCreate_eq hcr
    rw [hk', hp]
    rfl

theorem topHeld_kept : Kept (fun _ _ => True) TopHeld where
  boot k hb := by
    obtain ⟨km, hok, htramp, ha⟩ := hb.made
    have hnew := (allocproc_ok (Held.of_trampoline hok htramp) ha).2 k.p rfl
    exact ⟨_, hnew.spaceOk, Or.inr rfl, Or.inl rfl⟩
  trap k va acc b k' h _ ht := by
    obtain ⟨S, hs, htramp, htf⟩ := h
    have himage : k'.p.image = k.p.image := (usertrap_cases ht).image hs.mem
    refine ⟨S, usertrap_spaceOk hs (fun hC => hC.elim) ht, htramp, ?_⟩
    rw [show k'.p.trapframe = k.p.trapframe from congrArg Image.trapframe himage]
    exact htf
  byte _ _ _ h := by
    obtain ⟨S, hs, htop⟩ := h
    exact ⟨S, hs.fill _ _, htop⟩
  frame k _ _ k' h hu := by
    obtain ⟨S, hs, htramp, htf⟩ := h
    refine ⟨S, userFrame_spaceOk hs hu, htramp, ?_⟩
    rw [show k'.p.trapframe = k.p.trapframe from
      congrArg Image.trapframe (userFrame_image hu hs.mem)]
    exact htf
  store _ _ _ _ h := by
    obtain ⟨S, hs, htop⟩ := h
    exact ⟨S, hs.fill _ _, htop⟩
  sbrk _ _ _ _ _ h hb := by
    obtain ⟨S, hs, htramp, htf⟩ := h
    exact ⟨S, (sysSbrk_cases hb).spaceOk hs, htramp,
      by rw [(sysSbrk_cases hb).trapframe]; exact htf⟩
  exec _ _ _ _ _ _ h _ he := by
    obtain ⟨S, hs, htramp, htf⟩ := h
    exact ⟨S, (kexec_cases he).spaceOk hs, htramp, by rw [(kexec_cases he).trapframe]; exact htf⟩
  fork k _ np k' h hf := by
    obtain ⟨S, hs, htramp, htf⟩ := h
    have hsame : k'.p = k.p := (kfork_cases hf).parent
    obtain ⟨hnone, hsome⟩ := (kfork_cases hf).spaceOk hs
    cases np with
    | none => exact ⟨⟨S, hnone rfl, htramp, hsame ▸ htf⟩, fun q hq => by simp at hq⟩
    | some q =>
      obtain ⟨_, hparent, hchild⟩ := hsome q rfl
      refine ⟨⟨_, hparent, Or.inl htramp, hsame ▸ Or.inl htf⟩, fun q' hq' => ?_⟩
      cases hq'
      exact ⟨_, hchild, Or.inr (Or.inl htramp), Or.inl rfl⟩
  file _ _ h := by
    obtain ⟨S, hs, htop⟩ := h
    exact ⟨S, hs.rewrite _, htop⟩

/--
**What a process can reach is its own**: in every state of every process, the frame behind an
address that the user can reach is not free, and nothing else in the page table is in it: no other
page of the process, no page of the table itself, and neither of the two pages at the top.
-/
theorem user_frames_private {k : Kernel} (h : Reachable k) {va : Nat} (hva : va < 2 * maxVA)
    (hv : (k.p.pagetable.pte va).v = true) (hu : (k.p.pagetable.pte va).perm.u = true) :
    va < trapframeVA ∧ ¬ k.kmem.Free (k.p.pagetable.pte va).frame ∧
      (∀ s, k.p.pagetable.frameAt s = some (k.p.pagetable.pte va).frame → s = .page (va / 4096)) ∧
      ∀ va', trapframeVA ≤ va' → va' < maxVA →
        (k.p.pagetable.pte va').frame ≠ (k.p.pagetable.pte va).frame := by
  obtain ⟨S, hs, htramp, htf⟩ := topHeld_kept.reachable h
  have hlow : va < trapframeVA := by
    by_contra hge
    by_cases hmax : va < maxVA
    · rw [(hs.top va (Nat.le_of_not_lt hge) hmax).2.1] at hu
      nomatch hu
    · rw [hs.high va (Nat.le_of_not_lt hmax) hva] at hv
      nomatch hv
  have hslot : k.p.pagetable.frameAt (.page (va / 4096)) = some (k.p.pagetable.pte va).frame := by
    rw [frameAt_page hlow, if_pos hv]
  obtain ⟨hfree, hout⟩ := hs.vm.ledger.held _ _ hslot
  refine ⟨hlow, hfree, fun s hf => hs.vm.ledger.inj s _ _ hf hslot, fun va' hlo hhi heq => hout ?_⟩
  rw [← heq, (hs.top va' hlo hhi).2.2]
  split
  · exact htf
  · exact htramp

theorem user_frames_private_text_page :
    ∃ k, Reachable k ∧ (k.p.pagetable.pte 0).v = true ∧ ¬ k.kmem.Free (k.p.pagetable.pte 0).frame ∧
      (k.p.pagetable.pte trapframeVA).frame ≠ (k.p.pagetable.pte 0).frame := by
  have hrun : (after (fun _ _ => true) [] [.exec [47] textPage [[65]], .access .exec 0 0]).map
      (fun k => ((k.p.pagetable.pte 0).v, (k.p.pagetable.pte 0).perm.u)) = some (true, true) := by
    decide +kernel
  obtain ⟨k, hk, hpte⟩ := Option.map_eq_some_iff.mp hrun
  obtain ⟨hv, hu⟩ := Prod.mk.inj hpte
  have hreach : Reachable k := after_reachable (fun _ _ _ => trivial) hk
  obtain ⟨_, hfree, _, htop⟩ := user_frames_private hreach (by decide) hv hu
  exact ⟨k, hreach, hv, hfree, htop trapframeVA (Nat.le_refl _) (by decide)⟩

/-! ## Where a page in the way would be found -/

/-- The panics of the operations on a page table: any but that of `freewalk`. -/
def TablePanic (e : Halt) : Prop := ∃ msg, e = .panic msg ∧ msg ≠ .freewalkLeaf

@[simp] theorem tablePanic_panic (msg : Panic) : TablePanic (.panic msg) ↔ msg ≠ .freewalkLeaf := by
  simp [TablePanic]

/-- Anything but the panic of `freewalk`. -/
def NotLeaf (e : Halt) : Prop := e ≠ .panic .freewalkLeaf

theorem TablePanic.notLeaf (e : Halt) (h : TablePanic e) : NotLeaf e := by
  obtain ⟨msg, rfl, hmsg⟩ := h
  exact fun he => hmsg (Halt.panic.inj he)

theorem mappages_stops (km : Kmem) (pt : PageTable) (va size f : Nat) (perm : Perm) :
    Stops TablePanic (mappages km pt va size f perm) := by
  have hloop : ∀ n km pt a f, Stops TablePanic (mappagesLoop perm n km pt a f) := by
    intro n km pt a f
    fun_induction mappagesLoop <;> simp_all
  unfold mappages
  split_ifs <;> simp [hloop]

theorem uvmunmap_stops (km : Kmem) (pt : PageTable) (va n : Nat) (doFree : Bool) :
    Stops TablePanic (uvmunmap km pt va n doFree) := by
  have hloop : ∀ n km pt a, Stops TablePanic (uvmunmapLoop doFree n km pt a) := by
    intro n km pt a
    fun_induction uvmunmapLoop <;> simp_all
  unfold uvmunmap
  split_ifs <;> simp [hloop]

theorem uvmdealloc_stops (km : Kmem) (pt : PageTable) (oldsz newsz : Nat) :
    Stops TablePanic (uvmdealloc km pt oldsz newsz) := by
  unfold uvmdealloc
  split_ifs
  · simp
  · exact (uvmunmap_stops _ _ _ _ _).bind fun _ _ => stops_ok _
  · simp

theorem uvmalloc_stops (km : Kmem) (pt : PageTable) (oldsz newsz : Nat) :
    Stops TablePanic (uvmalloc km pt oldsz newsz) := by
  have hloop : ∀ base n km pt a, Stops TablePanic (uvmallocLoop permURW base n km pt a) := by
    intro base n km pt a
    fun_induction uvmallocLoop with
    | case1 => simp
    | case2 => exact (uvmdealloc_stops _ _ _ _).bind fun _ _ => stops_ok _
    | case3 _ _ _ _ _ _ _ ih =>
      refine (mappages_stops _ _ _ _ _ _).bind fun r _ => ?_
      obtain ⟨ok, km₁, pt₁⟩ := r
      dsimp only
      split
      · exact ih _ _
      · exact (uvmdealloc_stops _ _ _ _).bind fun _ _ => stops_ok _
  unfold uvmalloc
  split
  · simp
  · exact (hloop _ _ _ _ _).bind fun _ _ => stops_ok _

theorem uvmclear_stops (pt : PageTable) (va : Nat) : Stops TablePanic (uvmclear pt va) := by
  unfold uvmclear
  split
  · simp
  · split <;> simp

/-- Taking a table apart finds no leaf if all its user pages are below `sz`. -/
theorem procFreepagetable_no_leaf (hinv : VmInv U S km pt) (htop : TopMapped tf pt)
    (hbelow : ∀ va, va < trapframeVA → (pt.pte va).v = true → va < pgRoundUp sz)
    (hhigh : ∀ va, maxVA ≤ va → va < 2 * maxVA → (pt.pte va).v = false) :
    Stops NotLeaf (procFreepagetable km pt sz) := by
  obtain ⟨pt₁, pt₂, hrun₁, hrun₂, hinv₂, hgone, hrest⟩ := unmap_top_pages hinv htop
  have hleft : ∀ va, va < 2 * maxVA → (pt₂.pte va).v = true → va < pgRoundUp sz := by
    intro va hva hv
    by_cases huser : va < trapframeVA
    · rw [hrest va hva (Or.inl huser)] at hv
      exact hbelow va huser hv
    · by_cases hmax : va < maxVA
      · rw [hgone va (Nat.le_of_not_lt huser) hmax] at hv
        simp at hv
      · rw [hrest va hva (Or.inr (Nat.le_of_not_lt hmax)),
          hhigh va (Nat.le_of_not_lt hmax) hva] at hv
        simp at hv
  have hwalk : ∀ (km' : Kmem) (pt' : PageTable), (∀ va, va < 2 * maxVA → (pt'.pte va).v = false) →
      Stops NotLeaf (freewalk km' pt') := by
    intro km' pt' hnone
    obtain ⟨km'', hok⟩ := freewalk_total km' hnone
    rw [hok]
    exact stops_ok _
  rw [procFreepagetable, hrun₁, ok_bind]
  dsimp only
  rw [hrun₂, ok_bind]
  dsimp only [uvmfree]
  split
  · refine ((uvmunmap_stops _ _ _ _ _).mono TablePanic.notLeaf).bind fun r hr => ?_
    obtain ⟨km₁, pt₃⟩ := r
    rw [uvmunmap, if_neg (by simp)] at hr
    obtain ⟨hun, _⟩ := uvmunmapLoop_ok _ hinv₂ (by simp) hgone hr
    have hend : 0 + pgRoundUp sz / 4096 * 4096 = pgRoundUp sz := by
      have := pgRoundUp_mod sz
      omega
    rw [hend] at hun
    refine hwalk km₁ pt₃ fun va hva => ?_
    by_cases hin : va < pgRoundUp sz
    · exact hun.gone va (Nat.zero_le _) hin
    · rw [hun.rest va hva (Or.inr (Nat.le_of_not_lt hin))]
      by_contra hv
      exact hin (hleft va hva (by simpa using hv))
  · rename_i hz
    have hzero : pgRoundUp sz = 0 := by
      have : sz = 0 := by omega
      subst this
      decide
    rw [ok_bind]
    refine hwalk km pt₂ fun va hva => ?_
    by_contra hv
    have := hleft va hva (by simpa using hv)
    omega

theorem Bare.no_leaf (hinv : VmInv U S km pt) (hbare : Bare tf pt) (sz : Nat) :
    Stops NotLeaf (procFreepagetable km pt sz) :=
  procFreepagetable_no_leaf hinv hbare.top
    (fun va hva hv => by rw [hbare.user va hva] at hv; simp at hv) hbare.high

/-- **`proc_pagetable` always returns**: its two mappings meet an empty table. -/
theorem procPagetable_total (hheld : Held U S km) (tf : Nat) :
    ∃ r, procPagetable km tf = .ok r := by
  have hp : trampolineVA = trapframeVA + 4096 ∧ maxVA = trapframeVA + 8192 ∧
      trapframeVA % 4096 = 0 := by decide
  obtain ⟨htr, hmx, hal⟩ := hp
  unfold procPagetable
  rcases hc : uvmcreate km with ⟨_ | pt₀, km₀⟩
  · exact ⟨_, rfl⟩
  · obtain ⟨hinv₀, _, hnone₀⟩ := uvmcreate_some hheld hc
    have htal : trampolineVA % 4096 = 0 := by omega
    obtain ⟨ok, km₁, pt₁, hm₁⟩ := mappages_ok trampolineFrame ⟨true, false, true, false⟩ hinv₀ htal
      (by omega) (hnone₀ _)
    dsimp only
    rw [hm₁, ok_bind]
    cases ok with
    | false =>
      have hw := mappages_false hinv₀ (by omega) (by omega) hm₁
      have hnone : ∀ va, va < 2 * maxVA → (pt₁.pte va).v = false := fun va _ => by
        rw [hw.pte]
        exact hnone₀ va
      obtain ⟨km₂, hok⟩ := freewalk_total km₁ hnone
      exact ⟨(none, km₂), by simp [uvmfree_zero, hok]⟩
    | true =>
      obtain ⟨hinv₁, _, _, hmaps₁⟩ := mappages_top hinv₀ (by omega) (by omega) (by omega) hm₁
      have hfree : (pt₁.pte trapframeVA).v = false := by
        rw [hmaps₁ _ (by omega), if_neg (by omega)]
        exact hnone₀ _
      obtain ⟨ok, km₂, pt₂, hm₂⟩ := mappages_ok tf ⟨true, true, false, false⟩ hinv₁ hal
        (by omega) hfree
      dsimp only
      rw [if_neg (by simp), hm₂, ok_bind]
      cases ok with
      | true => exact ⟨_, rfl⟩
      | false =>
        have hw := mappages_false hinv₁ hal (by omega) hm₂
        have hv : (pt₂.pte trampolineVA).v = true := by
          rw [hw.pte, hmaps₁ _ (by omega), if_pos rfl]
        obtain ⟨pt₃, hun, _, hmaps₃⟩ := uvmunmap_top hw.inv (by omega) (by omega) (by omega) hv
        have hnone : ∀ va, va < 2 * maxVA → (pt₃.pte va).v = false := fun va hva => by
          rw [hmaps₃ va hva]
          split
          · rfl
          · rename_i hne
            rw [hw.pte, hmaps₁ va hva, if_neg hne]
            exact hnone₀ va
        obtain ⟨km₄, hok⟩ := freewalk_total km₂ hnone
        dsimp only
        rw [if_pos (by simp), hun, ok_bind]
        exact ⟨(none, km₄), by simp [uvmfree_zero, hok]⟩

/-- Pushing arguments onto a mapped stack does not fail, it only gives up. -/
theorem copyoutNew_total (pt : PageTable) : ∀ (fuel : Nat) (km : Kmem) (va : Nat)
    (src : List UInt8), ∃ r, copyoutLoop
      (fun km va0 => .ok (if (pt.pte va0).perm.w then walkaddr pt va0 else none, km))
      Kmem.store fuel km va src = .ok r := by
  intro fuel
  induction fuel with
  | zero => intro km va src; exact ⟨_, rfl⟩
  | succ fuel ih =>
    intro km va src
    rw [copyoutLoop]
    split
    · exact ⟨_, rfl⟩
    · rw [ok_bind]
      dsimp only
      split
      · exact ⟨_, rfl⟩
      · exact ih _ _ _

theorem pushArgs_total (pt : PageTable) (stackbase : Nat) : ∀ (argv : List (List UInt8))
    (km : Kmem) (sp : Nat) (ustack : List Nat),
    ∃ r, pushArgs pt stackbase argv km sp ustack = .ok r := by
  intro argv
  induction argv with
  | nil => intro km sp ustack; exact ⟨_, rfl⟩
  | cons arg argv ih =>
    intro km sp ustack
    rw [pushArgs]
    split
    · exact ⟨_, rfl⟩
    · dsimp only
      split
      · exact ⟨_, rfl⟩
      · refine bind_total (copyoutNew_total _ _ _ _ _) fun r => ?_
        obtain ⟨ok, km₁⟩ := r
        cases ok with
        | true => exact ih _ _ _
        | false => exact ⟨_, rfl⟩

theorem execBad_no_leaf (locked : Bool) (h : Stops NotLeaf (procFreepagetable km pt sz)) :
    Stops NotLeaf (execBad k km pt sz locked) := by
  refine h.bind fun km' _ => ?_
  cases locked <;> simp [NotLeaf]

theorem FreshTable.freed {T : Set Nat} {km₀ km' : Kmem} {base : Nat}
    (h : FreshTable tf U T km₀ km pt base) (hvm : VmInv U T km' pt) :
    ∃ km'', procFreepagetable km' pt (base + 8192) = .ok km'' := by
  have hbound := h.bound
  have hmx : trapframeVA < maxVA := by decide
  refine (procFreepagetable_iff hvm h.top h.high).mpr ?_
  rw [pgRoundUp_aligned (by have := h.aligned; omega) hbound]
  refine ⟨by omega, fun va hva hv => ?_⟩
  by_contra hge
  rw [h.nothing va hva (Or.inr (Nat.le_of_not_lt hge))] at hv
  simp at hv

/-- **Once the stack is mapped `kexec` returns**, if the pages of the old image are below the
break. -/
theorem execStack_total {C : Prop} {l : Layout} {file : Inode} (h : SpaceOk C U S k.kmem k.p)
    (hbelow : ∀ va, va < trapframeVA → (k.p.pagetable.pte va).v = true → va < pgRoundUp k.p.sz)
    (hb : Built k file l km pt sz) (entry : Nat) (path : List UInt8) (argv : List (List UInt8)) :
    ∃ r, execStack k km pt sz l entry file path argv = .ok r := by
  obtain ⟨hsz, hfresh⟩ := hb.fresh h.held
  have hmx : trapframeVA < maxVA := by decide
  have hbad : ∀ {km' : Kmem}, Pushed pt km km' → ∃ r, execBad k km' pt sz false = .ok r := by
    intro km' hs
    rw [hsz]
    obtain ⟨km'', hfree⟩ := hfresh.freed (hs.vm hfresh.vm)
    exact ⟨_, by rw [execBad, hfree, ok_bind]; rfl⟩
  obtain ⟨⟨args, km₁⟩, hargs⟩ := pushArgs_total pt (sub64 sz (userStack * 4096)) argv km sz []
  have hs₁ := pushArgs_pushed argv hargs
  unfold execStack
  dsimp only
  rw [hargs, ok_bind]
  cases args with
  | none => exact hbad hs₁
  | some a =>
    obtain ⟨sp₀, ustack⟩ := a
    dsimp only
    split
    · exact hbad hs₁
    · obtain ⟨⟨ok, km₂⟩, hcopy⟩ := copyoutNew_total pt _ km₁
        (pushSp sp₀ ((ustack.length + 1) * 8)) ((ustack.reverse ++ [0]).flatMap le64)
      have hs₂ := hs₁.trans (copyoutNew_pushed _ hcopy)
      rw [copyoutNew, hcopy, ok_bind]
      cases ok with
      | false => exact hbad hs₂
      | true =>
        have hold := (hs₂.vm hfresh.vm).swapSides h.vm.apart
        have hle := pgRoundUp_le_trapframe h.brk
        obtain ⟨km₃, hfree⟩ := (procFreepagetable_iff hold h.top h.high).mpr
          ⟨by omega, hbelow⟩
        dsimp only
        rw [if_neg (by simp), hfree, ok_bind]
        exact ⟨_, rfl⟩

/-- **`kexec` never finds a leaf in the way**, if the pages of the old image are below the break. -/
theorem kexec_no_leaf (h : SpaceOk True U S k.kmem k.p) (path : List UInt8) (ip : Option Inode)
    (argv : List (List UInt8)) :
    Stops NotLeaf (kexec k path ip argv) := by
  cases ip with
  | none => exact stops_ok _
  | some file =>
    unfold kexec
    dsimp only
    split
    · simp [NotLeaf]
    · split
      · simp [NotLeaf]
      · obtain ⟨⟨pt, km₀⟩, hp⟩ := procPagetable_total h.held k.p.trapframe
        rw [hp, ok_bind]
        cases pt with
        | none => simp [NotLeaf]
        | some pt₀ =>
          obtain ⟨hvm₀, hbare, _⟩ := (procPagetable_ok h.held hp).2 pt₀ rfl
          dsimp only
          split
          · exact execBad_no_leaf true (hbare.no_leaf hvm₀ _)
          · rename_i l hl
            refine ((uvmalloc_stops _ _ _ _).mono TablePanic.notLeaf).bind fun r hu => ?_
            obtain ⟨sz, km, pt₁⟩ := r
            dsimp only
            split
            · rename_i hz
              refine execBad_no_leaf false ?_
              obtain ⟨hvm₁, hbare₁, _⟩ := uvmalloc_failed hvm₀ hbare (hz ▸ hu)
              exact hbare₁.no_leaf hvm₁ _
            · rename_i hz
              refine ((uvmclear_stops _ _).mono TablePanic.notLeaf).bind fun pt hclear => ?_
              have hb : Built k file l km pt sz := ⟨hl, km₀, pt₀, pt₁, hp, hu, hz, hclear⟩
              obtain ⟨r, hr⟩ := execStack_total h (h.below trivial) hb _ path argv
              rw [hr]
              simp

/-- **`growproc` always returns**, if the pages of the process are below the break. -/
theorem growproc_total (h : SpaceOk True U S k.kmem k.p) (n : Int) :
    ∃ r, growproc k n = .ok r := by
  have hround := pgRoundUp_eq h.brk
  unfold growproc
  dsimp only
  split
  · split
    · exact ⟨_, rfl⟩
    · rename_i htop
      refine bind_total ?_ fun r => ⟨_, rfl⟩
      unfold uvmalloc
      split
      · exact ⟨_, rfl⟩
      · refine bind_total (uvmallocLoop_total _ h.vm (pgRoundUp_mod _) ?_ fun va h1 h2 => ?_)
          fun r => ⟨_, rfl⟩
        · have hle := pgRoundUp_le_trapframe h.brk
          have hal : trapframeVA % 4096 = 0 := by decide
          omega
        · by_contra hv
          have hle := pgRoundUp_le_trapframe h.brk
          have hal : trapframeVA % 4096 = 0 := by decide
          have hlow := h.below trivial va (by omega) (by simpa using hv)
          omega
  · split
    · obtain ⟨km, pt, hrun, _⟩ := uvmdealloc_spec (addInt64 k.p.sz n) h.vm h.brk
      rw [hrun, ok_bind]
      exact ⟨_, rfl⟩
    · exact ⟨_, rfl⟩

/-! ## Nothing above the break -/

/-- No user page lies above the break, and nothing trips over one. -/
structure BelowBreak (k : Kernel) : Prop where
  leaf : ∀ va, va < 2 * maxVA → (k.p.pagetable.pte va).v = true →
    va < pgRoundUp k.p.sz ∨ trapframeVA ≤ va ∧ va < maxVA
  exit : ∃ km, procFreepagetable k.kmem k.p.pagetable k.p.sz = .ok km
  exec : ∀ path ip argv, kexec k path ip argv ≠ .error (.panic .freewalkLeaf)
  grow : ∀ n, growproc k n ≠ .error (.panic .remap)

theorem SpaceOk.belowBreak (h : SpaceOk True U S k.kmem k.p) :
    BelowBreak k := by
  refine ⟨fun va hva hv => ?_, (procFreepagetable_iff h.vm h.top h.high).mpr ⟨?_, h.below trivial⟩,
    fun path ip argv he => kexec_no_leaf h path ip argv _ he rfl, fun n hn => ?_⟩
  · by_cases hmax : va < maxVA
    · by_cases huser : va < trapframeVA
      · exact Or.inl (h.below trivial va huser hv)
      · exact Or.inr ⟨Nat.le_of_not_lt huser, hmax⟩
    · rw [h.high va (Nat.le_of_not_lt hmax) hva] at hv
      simp at hv
  · have hle := pgRoundUp_le_trapframe h.brk
    have hmx : trapframeVA < maxVA := by decide
    omega
  · obtain ⟨r, hr⟩ := growproc_total h n
    rw [hr] at hn
    simp at hn

/-- An access to a page on record as swapped out is to a page below the break. -/
def SwapBelow (k : Kernel) : Op → Prop
  | .access _ va _ => wasSwapped k.p.memstat (toUint (pgRoundDown va)) = true →
    pgRoundDown va < k.p.sz
  | _ => True

/--
**No user page lies above the break**, and neither the teardown of a table nor its
growth panics, in every run in which no swapped-out page is touched above the
break.
-/
theorem nothing_above_break {k : Kernel} (h : ReachableVia SwapBelow k) : BelowBreak k := by
  have hkept : Kept SwapBelow (SpaceInv True) := spaceInv_kept fun _ _ _ _ _ hcond hw => hcond hw
  obtain ⟨S, hs⟩ := hkept.reachable h
  exact hs.belowBreak

instance (k : Kernel) : ∀ op, Decidable (SwapBelow k op)
  | .access _ va _ => inferInstanceAs (Decidable
      (wasSwapped k.p.memstat (toUint (pgRoundDown va)) = true → pgRoundDown va < k.p.sz))
  | .sbrk .. | .copyin .. | .copyout .. | .copyinstr .. | .exec .. | .fork .. | .rewrite _ =>
    .isTrue trivial

theorem nothing_above_break_page_out :
    ∃ k, ReachableVia SwapBelow k ∧ (k.p.swapTable 0).used = true ∧ BelowBreak k := by
  have hrun : (after (fun k op => decide (SwapBelow k op)) [12] swapOutRun).map
      (fun k => (k.p.swapTable 0).used) = some true := by
    decide +kernel
  obtain ⟨k, hk, hused⟩ := Option.map_eq_some_iff.mp hrun
  have hreach := after_reachable (fun _ _ => of_decide_eq_true) hk
  exact ⟨k, hreach, hused, nothing_above_break hreach⟩

/-- A heap page is swapped out, the break goes down below it, and it is touched again. -/
def aboveRun : List Op := swapOutRun ++ [.sbrk (-8192) 1, .access .read 12288 0]

/-- After that the page at the break is mapped. -/
theorem pages_can_lie_above_break : ¬ ∀ k, Reachable k → k.p.killed = false → BelowBreak k := by
  intro hall
  have hrun : (after (fun _ _ => true) [12] aboveRun).map (fun k =>
      (k.p.killed, (k.p.pagetable.pte 12288).v, decide (pgRoundUp k.p.sz = 12288))) =
      some (false, true, true) := by
    decide +kernel
  obtain ⟨k, hk, hfacts⟩ := Option.map_eq_some_iff.mp hrun
  simp only [Prod.mk.injEq, decide_eq_true_eq] at hfacts
  obtain ⟨hlive, hv, hsz⟩ := hfacts
  have hreach : Reachable k := after_reachable (fun _ _ _ => trivial) hk
  rcases (hall k hreach hlive).leaf 12288 (by decide) hv with hlt | hge
  · rw [hsz] at hlt
    omega
  · exact absurd hge.1 (by decide)

end Xv6Paging.Proof
