import Xv6Paging.Proof.Books
import Xv6Paging.Proof.Calls
import Xv6Paging.Proof.Steps
import Xv6Paging.Proof.Tables

/-!
# The memory of a process

A process holds the frames of its page table and no others, its break stays below
the trapframe, and the two top pages stay mapped. `SpaceOk` is that, over any set
`S` of frames held by somebody else and any set `U` of frames to be accounted for.

Whether every user page lies below the break is a condition of its own: a fault on
a swapped-out page does not look at the break. The invariant therefore carries a
proposition `C`, and claims it only under `C`.
-/

namespace Xv6Paging.Proof

open Xv6Paging Lib

variable {k k' : Kernel} {km km' : Kmem} {f sz va va0 : Nat} {p q : Proc} {T : Set Nat}
  {r : Option Nat} {pt : PageTable} {acc : Access} {src : Fill}

/-- Entry `e` for `va` can be executed only as a page of the text, and then not written. -/
def Exclusive (p : Proc) (va : Nat) (e : Pte) : Prop :=
  e.perm.x = true → e.perm.w = false ∧ p.textRange (pgRoundDown va) = true

/-- The mappings of a process are where they belong, and every frame is accounted for. -/
structure SpaceOk (C : Prop) (U S : Set Nat) (km : Kmem) (p : Proc) : Prop where
  vm : VmInv U S km p.pagetable
  /-- The trampoline and the trapframe are mapped, and not for the user. -/
  top : TopMapped p.trapframe p.pagetable
  high : ∀ va, maxVA ≤ va → va < 2 * maxVA → (p.pagetable.pte va).v = false
  /-- The break never reaches the trapframe. -/
  brk : p.sz ≤ trapframeVA
  /-- Every user page lies below the break. -/
  below : C → ∀ va, va < trapframeVA → (p.pagetable.pte va).v = true → va < pgRoundUp p.sz
  wx : ∀ va, va < trapframeVA → (p.pagetable.pte va).v = true →
    Exclusive p va (p.pagetable.pte va)
  mem : MemOk p.memstat

variable {C : Prop} {U S : Set Nat} {tf : Nat}

theorem SpaceOk.same (h : SpaceOk C U S km p) (hs : SameSpace p q) (hm : MemOk q.memstat) :
    SpaceOk C U S km q := by
  refine ⟨?_, ?_, ?_, ?_, ?_, fun va hva hv hx => ?_, hm⟩
  · rw [hs.pagetable]; exact h.vm
  · rw [hs.pagetable, show q.trapframe = p.trapframe from congrArg Image.trapframe hs.image]
    exact h.top
  · rw [hs.pagetable]; exact h.high
  · rw [sz_of_image hs.image]; exact h.brk
  · rw [hs.pagetable, sz_of_image hs.image]; exact h.below
  · rw [hs.pagetable] at hv hx ⊢
    rw [textRange_of_image hs.image]
    exact h.wx va hva hv hx

theorem SpaceOk.kill (h : SpaceOk C U S k.kmem k.p) :
    SpaceOk C U S k.kill.kmem k.kill.p :=
  h.same ⟨rfl, rfl⟩ h.mem

/-- A table that maps no user page the old one did not map. -/
theorem SpaceOk.fewer (h : SpaceOk C U S km p) (hvm : VmInv U T km' pt)
    (htop : ∀ va, trapframeVA ≤ va → va < 2 * maxVA → pt.pte va = p.pagetable.pte va)
    (huser : ∀ va, va < trapframeVA → (pt.pte va).v = true → pt.pte va = p.pagetable.pte va) :
    SpaceOk C U T km' { p with pagetable := pt } := by
  have hmx : trapframeVA < maxVA := by decide
  have hold : ∀ va, va < trapframeVA → (pt.pte va).v = true → (p.pagetable.pte va).v = true :=
    fun va hva hv => huser va hva hv ▸ hv
  refine ⟨hvm, fun va h1 h2 => ?_, fun va h1 h2 => ?_, h.brk,
    fun hC va hva hv => h.below hC va hva (hold va hva hv), fun va hva hv hx => ?_, h.mem⟩
  · rw [htop va h1 (by omega)]
    exact h.top va h1 h2
  · rw [htop va (by omega) h2]
    exact h.high va h1 h2
  · have hpte : pt.pte va = p.pagetable.pte va := huser va hva hv
    rw [hpte] at hx ⊢
    exact h.wx va hva (hold va hva hv) hx

/-- The same mappings, seen in another state of the allocator. -/
theorem SpaceOk.reledger (h : SpaceOk C U S km p) (hvm : VmInv U T km' p.pagetable) :
    SpaceOk C U T km' p :=
  ⟨hvm, h.top, h.high, h.brk, h.below, h.wx, h.mem⟩

/-- A user page is mapped below the break. -/
theorem SpaceOk.map {e : Pte} (h : SpaceOk C U S km p) (hvm : VmInv U T km' pt)
    (hva : va < trapframeVA) (hlow : C → va < pgRoundUp p.sz) (hx : Exclusive p va e)
    (hmaps : Maps p.pagetable pt va e) :
    SpaceOk C U T km' { p with pagetable := pt } := by
  have hround := pgRoundUp_mod p.sz
  have hmx : maxVA = trapframeVA + 8192 ∧ trapframeVA % 4096 = 0 := by decide
  have hother : ∀ va', trapframeVA ≤ va' → va' < 2 * maxVA → pt.pte va' = p.pagetable.pte va' := by
    intro va' h1 h2
    rw [hmaps va' h2, if_neg (by omega)]
  refine ⟨hvm, fun va' h1 h2 => ?_, fun va' h1 h2 => ?_, h.brk, fun hC va' hva' hv' => ?_,
    fun va' hva' hv' hx' => ?_, h.mem⟩
  · rw [hother va' h1 (by omega)]
    exact h.top va' h1 h2
  · rw [hother va' (by omega) h2]
    exact h.high va' h1 h2
  · by_cases hsame : va' / 4096 = va / 4096
    · -- the break rounded up is a page boundary, so the whole page lies below it
      have hgoal : va' < pgRoundUp p.sz := by
        have := hlow hC
        omega
      exact hgoal
    · have hv : (pt.pte va').v = true := hv'
      rw [hmaps va' (by omega), if_neg hsame] at hv
      exact h.below hC va' hva' hv
  · have hpte := hmaps va' (by omega)
    by_cases hsame : va' / 4096 = va / 4096
    · rw [if_pos hsame] at hpte
      rw [hpte] at hx' ⊢
      have hround : pgRoundDown va' = pgRoundDown va := by unfold pgRoundDown; rw [hsame]
      rw [hround]
      exact hx hx'
    · rw [if_neg hsame] at hpte
      have hv : (p.pagetable.pte va').v = true := hpte ▸ hv'
      rw [hpte] at hx' ⊢
      exact h.wx va' hva' hv hx'

/-! ## Eviction and allocation -/

/-- A page of the process is unmapped and its frame freed. -/
theorem SpaceOk.drop (h : SpaceOk C U S km p) (hal : va % 4096 = 0) (hva : va < trapframeVA)
    (hv : (p.pagetable.pte va).v = true) :
    SpaceOk C U S (kfree km (p.pagetable.pte va).frame)
      { p with pagetable := p.pagetable.set va Pte.zero } := by
  have hun := unmaps_page h.vm hal hva hv
  have hend : va + 4096 ≤ trapframeVA := by rw [trapframeVA_eq] at hva ⊢; omega
  have hmx : trapframeVA < maxVA := by decide
  refine h.fewer hun.inv (fun va' h1 h2 => ?_) (fun va' hva' hv' => ?_)
  · exact hun.rest va' h2 (Or.inr (Nat.le_trans hend h1))
  · by_cases hin : va ≤ va' ∧ va' < va + 4096
    · rw [hun.gone va' hin.1 hin.2] at hv'
      simp at hv'
    · exact hun.rest va' (by omega) (by omega)

theorem MemOk.below_trapframe {m : MemStat} (h : MemOk m) (i : Fin maxPagesInfo) :
    (m.pages i).va < trapframeVA := by
  have hsm := h.small i
  rw [trapframeVA_eq]
  omega

/-- Eviction and allocation have no bearing on the image. -/
theorem Evicts.image {i : Fin maxPagesInfo} {b : Bool} (he : Evicts k i b k') :
    k'.p.image = k.p.image := by
  cases he with
  | stale _ _ hk' => rw [hk']; rfl
  | dropped _ _ _ hk' => rw [hk']; rfl
  | refused r d q _ _ _ _ hq _ hk' => rw [hk', hq]; rfl
  | sent s d q _ _ _ _ _ hk' => rw [hk']; rfl

theorem Room.image (hr : Room k r k') : k'.p.image = k.p.image := by
  cases hr with
  | had _ => rfl
  | nobody _ _ => rfl
  | stuck _ _ he => exact he.image
  | made _ _ he _ => exact he.image

/-- **Eviction only takes mappings away.** -/
theorem Evicts.spaceOk {i : Fin maxPagesInfo} {b : Bool} (he : Evicts k i b k')
    (hi : Live k.p.memstat i) (h : SpaceOk C U S k.kmem k.p) : SpaceOk C U S k'.kmem k'.p := by
  obtain ⟨q, d, hq, hmem, rfl | ⟨hv, rfl⟩⟩ := he.memory h.mem hi
  · exact h.same hq hmem
  · exact (h.same hq hmem).drop (h.mem.aligned i) (h.mem.below_trapframe i) (hq.pagetable ▸ hv)

theorem SpaceOk.take (h : SpaceOk C U S km p) (hk : kalloc km = (some f, km')) :
    SpaceOk C U (insert f S) km' p ∧ f ∉ S := by
  have htake := kalloc_some h.vm.ok hk
  exact ⟨h.reledger ⟨htake.ok, h.vm.ledger.take htake.free htake.rest⟩,
    fun hf => h.vm.ledger.out f hf htake.free⟩

theorem SpaceOk.idle (h : SpaceOk C U S km p) (hk : kalloc km = (none, km')) :
    SpaceOk C U S km' p :=
  h.reledger (h.vm.idle (kalloc_none hk))

/-- Writing into a frame changes nothing about who holds it. -/
theorem SpaceOk.fill (h : SpaceOk C U S km p) (f : Nat) (pg : Page) :
    SpaceOk C U S (km.setRam f pg) p :=
  h.reledger ⟨ok_setRam h.vm.ok f pg, h.vm.ledger.congr_free fun _ => Iff.rfl⟩

/-- The frame in hand goes back. -/
theorem SpaceOk.giveUp (h : SpaceOk C U (insert f S) km p) (hf : f ∉ S) :
    SpaceOk C U S (kfree km f) p :=
  h.reledger (h.vm.giveBack hf)

/-- **Making room** yields a frame in hand, or none. -/
theorem Room.spaceOk (hr : Room k r k') (h : SpaceOk C U S k.kmem k.p) :
    (r = none → SpaceOk C U S k'.kmem k'.p) ∧
      ∀ f, r = some f → SpaceOk C U (insert f S) k'.kmem k'.p ∧ f ∉ S := by
  have took : ∀ {km km' : Kmem} {p : Proc} {r : Option Nat}, SpaceOk C U S km p →
      kalloc km = (r, km') → (r = none → SpaceOk C U S km' p) ∧
        ∀ f, r = some f → SpaceOk C U (insert f S) km' p ∧ f ∉ S := by
    intro km km' p r hs hk
    cases r with
    | none => exact ⟨fun _ => hs.idle hk, fun f hf => by simp at hf⟩
    | some g =>
      refine ⟨fun hf => by simp at hf, fun f hf => ?_⟩
      cases hf
      exact hs.take hk
  cases hr with
  | had hk => exact took h hk
  | nobody hk _ => exact ⟨fun _ => (h.idle hk).same ⟨rfl, rfl⟩ h.mem, fun f hf => by simp at hf⟩
  | stuck hk hv he =>
    have h₁ := he.spaceOk (resident_live (selectVictim_resident hv)) (h.idle hk)
    exact ⟨fun _ => h₁.kill, fun f hf => by simp at hf⟩
  | made hk hv he hk₁ =>
    exact took (he.spaceOk (resident_live (selectVictim_resident hv)) (h.idle hk)) hk₁

/-! ## Installing a page -/

/-- **Mapping the frame in hand**, or giving it back. -/
theorem mapUser_spaceOk {perm : Perm} {ok : Bool} (h : SpaceOk C U (insert f S) k.kmem k.p)
    (hf : f ∉ S) (hal : va % 4096 = 0) (hmax : va < maxVA) (hlow : C → va < pgRoundUp k.p.sz)
    (hx : Exclusive k.p va ⟨true, perm, f⟩) (hm : mapUser k va f perm = .ok (ok, k')) :
    SpaceOk C U S k'.kmem k'.p := by
  obtain ⟨⟨ok', km, pt⟩, hmap, hrest⟩ := bind_eq_ok.mp hm
  cases ok' with
  | false =>
    have hw := mappages_false h.vm hal hmax hmap
    cases hrest
    exact h.fewer (hw.inv.giveBack hf) (fun va' _ _ => hw.pte va') fun va' _ _ => hw.pte va'
  | true =>
    have hva := mappages_low h.vm h.top hal hmap
    obtain ⟨hvm, _, _, hmaps⟩ := mappages_user h.vm (Set.mem_insert f S) hal hva hmap
    cases hrest
    exact h.map ⟨hvm.ok, hvm.ledger.restore hf⟩ hva hlow hx hmaps

/-- **Installing a page keeps the memory in order.** -/
theorem Installs.spaceOk {perm : Proc → Perm} {record : Proc → Proc}
    (hi : Installs src perm record k va0 r k') (hrec : Recording record)
    (h : SpaceOk C U S k.kmem k.p) (hal : va0 % 4096 = 0) (hmax : va0 < maxVA)
    (hlow : C → va0 < pgRoundUp k.p.sz)
    (hx : ∀ p f, p.image = k.p.image → Exclusive k.p va0 ⟨true, perm p, f⟩) :
    SpaceOk C U S k'.kmem k'.p := by
  -- the frame in hand is filled, and the image is what it was
  have hfill : ∀ {k₁ : Kernel} {f : Nat} {o : Option Page} {p : Proc} (pg : Page),
      tryKallocOrReplace k = (some f, k₁) → src.page k₁ va0 f = (o, p) →
      SpaceOk C U (insert f S) (k₁.kmem.setRam f pg) p ∧ f ∉ S ∧ (C → va0 < pgRoundUp p.sz) ∧
        Exclusive p va0 ⟨true, perm k₁.p, f⟩ := by
    intro k₁ f o p pg ht hp
    have hroom := tryKalloc_room h.mem ht
    obtain ⟨h₁, hf⟩ := (hroom.spaceOk h).2 f rfl
    obtain ⟨hsame, hmem⟩ := fill_books hp
    have himage := hsame.image.trans hroom.image
    refine ⟨(h₁.same hsame (hmem h₁.mem)).fill f pg, hf, fun hC => ?_, fun hxe => ?_⟩
    · rw [sz_of_image himage]
      exact hlow hC
    · rw [textRange_of_image himage]
      exact hx k₁.p f hroom.image hxe
  cases hi with
  | starved ht => exact ((tryKalloc_room h.mem ht).spaceOk h).1 rfl
  | @unfilled k₁ f pg p ht hp =>
    obtain ⟨h₁, hf, _⟩ := hfill pg ht hp
    exact h₁.giveUp hf
  | @unmapped k₁ k₂ f pg p ht hp hm =>
    obtain ⟨h₁, hf, hlow₁, hx₁⟩ := hfill pg ht hp
    exact mapUser_spaceOk (k := { k₁ with kmem := k₁.kmem.setRam f pg, p := p }) h₁ hf hal hmax
      hlow₁ hx₁ hm
  | @mapped k₁ k₂ f pg p ht hp hm =>
    obtain ⟨h₁, hf, hlow₁, hx₁⟩ := hfill pg ht hp
    have h₂ := mapUser_spaceOk (k := { k₁ with kmem := k₁.kmem.setRam f pg, p := p }) h₁ hf hal
      hmax hlow₁ hx₁ hm
    exact h₂.same (hrec.space _) (hrec.mem _ h₂.mem)

/-! ## Faults -/

theorem lt_pgRoundUp (h : va < sz) (hsz : sz ≤ trapframeVA) : va < pgRoundUp sz := by
  rw [pgRoundUp_eq hsz]
  omega

theorem settle_spaceOk (h : SpaceOk C U S k.kmem k.p) :
    SpaceOk C U S (settle r k).kmem (settle r k).p := by
  cases r with
  | none => exact h.kill
  | some f => exact h

/-- Changing the permissions of a user page maps no page. -/
theorem SpaceOk.setPerm (h : SpaceOk C U S k.kmem k.p) (hva : va < trapframeVA) {perm : Perm}
    (hv : (k.p.pagetable.pte va).v = true)
    (hx : Exclusive k.p va { k.p.pagetable.pte va with perm := perm }) :
    SpaceOk C U S (k.setPerm va perm).kmem (k.setPerm va perm).p := by
  have hmax := lt_maxVA hva
  have hround := pgRoundUp_mod k.p.sz
  refine h.map (h.vm.setPerm hmax perm) hva (fun hC => h.below hC va hva hv) hx fun va' hva' => ?_
  exact pte_set _ (table0_of_valid hv) hmax hva'

/-- What is granted on a page that is there is never both to write and to execute. -/
theorem granted_exclusive {e : Pte} (hal : va0 % 4096 = 0)
    (hwt : ¬ (acc = .write ∧ p.textRange va0 = true)) (he : Exclusive p va0 e) :
    Exclusive p va0 { e with perm := grantedPerm p va0 acc e.perm } := by
  intro hx
  rw [pgRoundDown_eq_of_mod hal]
  simp only [grantedPerm] at hx ⊢
  split at hx
  · -- a page that can be executed is in the text, where no store is let through
    rename_i hacc
    have htext := (he hx).2
    rw [pgRoundDown_eq_of_mod hal] at htext
    exact absurd ⟨hacc, htext⟩ hwt
  · rename_i hacc
    split at hx
    · rename_i htext
      exact ⟨by rw [if_neg hacc, if_pos htext]; rfl, htext⟩
    · simp [permUR] at hx

/-- **A page fault keeps the memory in order.** -/
theorem Handled.spaceOk (hh : Handled k va acc k') (h : SpaceOk C U S k.kmem k.p)
    (hswap : C → wasSwapped k.p.memstat (toUint (pgRoundDown va)) = true →
      pgRoundDown va < pgRoundUp k.p.sz) : SpaceOk C U S k'.kmem k'.p := by
  have hal := pgRoundDown_mod va
  have hle := pgRoundDown_le va
  cases hh with
  | killed _ hk' => rw [hk']; exact h.kill
  | noted o _ _ _ hk' =>
    rw [hk']
    exact h.same (markDirty_space _ _) (h.mem.markDirty o)
  | granted o k₁ _ hmax hv hu hwt _ hk₁ hk' =>
    have hlow : pgRoundDown va < trapframeVA := by
      by_contra hge
      rw [(h.top _ (Nat.le_of_not_lt hge) hmax).2.1] at hu
      simp at hu
    have h₁ : SpaceOk C U S k₁.kmem k₁.p := by
      rw [hk₁]
      exact h.setPerm hlow hv (granted_exclusive hal hwt (h.wx _ hlow hv))
    rw [hk']
    exact h₁.same (markDirty_space _ _) (h₁.mem.markDirty o)
  | anon swapped r k₁ hmax hw hi hk' =>
    rw [hk']
    refine settle_spaceOk (hi.spaceOk (recording_anon hal acc) h hal hmax (fun hC => ?_)
      fun _ _ _ hx => by simp [permURW] at hx)
    cases swapped with
    | true => exact hswap hC (wants_slot hw).1
    | false => exact Nat.lt_of_le_of_lt hle (lt_pgRoundUp (wants_zero hw).1 h.brk)
  | exec r k₁ hmax hw hi hk' =>
    rw [hk']
    refine settle_spaceOk (hi.spaceOk (recording_exec hal) h hal hmax (fun _ => ?_)
      fun p f himage hx => ?_)
    · have hseg := (wants_slice hw).1
      have hbrk : va < k.p.sz := by
        simp only [Proc.inText, Proc.inData, Proc.underBrk, Bool.or_eq_true, Bool.and_eq_true,
          decide_eq_true_eq] at hseg
        rcases hseg with hseg | hseg <;> exact hseg.1
      exact Nat.lt_of_le_of_lt hle (lt_pgRoundUp hbrk h.brk)
    · rw [pgRoundDown_eq_of_mod hal]
      dsimp only at hx ⊢
      rw [textRange_of_image himage] at hx ⊢
      split at hx
      · rename_i htext
        exact ⟨by rw [if_pos htext]; rfl, htext⟩
      · simp [permUR] at hx

theorem usertrap_spaceOk (h : SpaceOk C U S k.kmem k.p)
    (hswap : C → wasSwapped k.p.memstat (toUint (pgRoundDown va)) = true →
      pgRoundDown va < pgRoundUp k.p.sz) (ht : usertrapPageFault k va acc = .ok k') :
    SpaceOk C U S k'.kmem k'.p := by
  have h₁ : SpaceOk C U S k.countFault.kmem k.countFault.p := h.same ⟨rfl, rfl⟩ h.mem
  exact (usertrap_cases ht).spaceOk h₁ hswap

theorem vmWants_underBrk (h : vmWants k va0 = some src) :
    va0 < k.p.sz ∧ (k.p.pagetable.pte va0).v = false ∧ k.p.inGuard va0 = false := by
  unfold vmWants at h
  split at h
  · simp at h
  · rename_i hout
    have hgv : (k.p.pagetable.pte va0).v = false ∧ k.p.inGuard va0 = false := by
      refine ⟨?_, ?_⟩
      · by_contra hv
        exact hout (Or.inr (by simpa using hv))
      · by_contra hg
        exact hout (Or.inl (by simpa using hg))
    split at h
    · rename_i hseg
      simp only [Proc.inText, Proc.inData, Proc.underBrk, Bool.and_eq_true,
        decide_eq_true_eq] at hseg
      rcases hseg with hseg | hseg <;> exact ⟨hseg.1, hgv⟩
    · split at h
      · rename_i hbrk
        exact ⟨by simpa [Proc.underBrk] using hbrk, hgv⟩
      · simp at h

/-- **A fault taken by the kernel keeps the memory in order.** -/
theorem vmfault_spaceOk (h : SpaceOk C U S k.kmem k.p) (hf : vmfault k va = .ok (r, k')) :
    SpaceOk C U S k'.kmem k'.p := by
  rcases vmfault_cases hf with ⟨_, _, hk'⟩ | ⟨src, hmax, hw, hi⟩
  · rw [hk']; exact h
  · refine hi.spaceOk recording_none h (pgRoundDown_mod va) hmax
      (fun _ => lt_pgRoundUp (vmWants_underBrk hw).1 h.brk) fun _ _ _ hx => ?_
    rw [pgRoundDown_pgRoundDown]
    simp only [vmPerm] at hx ⊢
    split at hx
    · rename_i htext
      simp only [Proc.inText, Bool.and_eq_true] at htext
      exact ⟨by simp [permURX, Proc.inText, htext], htext.2⟩
    · simp [permURW] at hx

theorem userFrame_cases (h : userFrame k va0 = .ok (r, k')) :
    (r = none ∧ k' = k) ∨ (walkaddr k.p.pagetable va0 = r ∧ r.isSome = true ∧ k' = k) ∨
      (walkaddr k.p.pagetable va0 = none ∧ vmfault k va0 = .ok (r, k')) := by
  unfold userFrame at h
  split at h
  · cases h
    exact Or.inl ⟨rfl, rfl⟩
  · split at h
    · rename_i f hw
      cases h
      exact Or.inr (Or.inl ⟨hw, rfl, rfl⟩)
    · rename_i hw
      exact Or.inr (Or.inr ⟨hw, h⟩)

theorem userFrame_spaceOk (h : SpaceOk C U S k.kmem k.p) (hf : userFrame k va0 = .ok (r, k')) :
    SpaceOk C U S k'.kmem k'.p := by
  rcases userFrame_cases hf with ⟨_, hk'⟩ | ⟨_, _, hk'⟩ | ⟨_, hv⟩
  · rw [hk']; exact h
  · rw [hk']; exact h
  · exact vmfault_spaceOk h hv

/-! ## A fault leaves the image alone -/

theorem Installs.image {perm : Proc → Perm} {record : Proc → Proc}
    (hi : Installs src perm record k va0 r k') (hrec : Recording record) (hm : MemOk k.p.memstat) :
    k'.p.image = k.p.image := by
  cases hi with
  | starved ht => exact (tryKalloc_room hm ht).image
  | unfilled ht hfill => exact (fill_books hfill).1.image.trans (tryKalloc_room hm ht).image
  | unmapped ht hfill hmap =>
    obtain ⟨pt, hp⟩ := mapUser_records hmap
    rw [hp]
    exact (fill_books hfill).1.image.trans (tryKalloc_room hm ht).image
  | mapped ht hfill hmap =>
    obtain ⟨pt, hp⟩ := mapUser_records hmap
    refine (hrec.space _).image.trans ?_
    rw [hp]
    exact (fill_books hfill).1.image.trans (tryKalloc_room hm ht).image

theorem settle_image (r : Option Nat) (k : Kernel) : (settle r k).p.image = k.p.image := by
  cases r <;> rfl

theorem Handled.image (hh : Handled k va acc k') (hm : MemOk k.p.memstat) :
    k'.p.image = k.p.image := by
  cases hh with
  | killed _ hk' => rw [hk']; rfl
  | noted o _ _ _ hk' => rw [hk']; exact (markDirty_space k.p o).image
  | granted o k₁ _ _ _ _ _ _ hk₁ hk' =>
    rw [hk']
    refine (markDirty_space k₁.p o).image.trans ?_
    rw [hk₁]
    rfl
  | anon swapped r k₁ _ _ hi hk' =>
    rw [hk', settle_image]
    exact hi.image (recording_anon (pgRoundDown_mod va) acc) hm
  | exec r k₁ _ _ hi hk' =>
    rw [hk', settle_image]
    exact hi.image (recording_exec (pgRoundDown_mod va)) hm

theorem userFrame_image (h : userFrame k va = .ok (r, k')) (hm : MemOk k.p.memstat) :
    k'.p.image = k.p.image := by
  rcases userFrame_cases h with ⟨_, rfl⟩ | ⟨_, _, rfl⟩ | ⟨_, hf⟩
  · rfl
  · rfl
  · rcases vmfault_cases hf with ⟨_, _, rfl⟩ | ⟨src, _, _, hi⟩
    · rfl
    · exact hi.image recording_none hm

/-! ## The break -/

theorem SpaceOk.withdraw {lo hi : Nat} (h : SpaceOk C U S km p)
    (hw : Withdrawn U S lo hi km p.pagetable km' pt) (hhi : hi ≤ trapframeVA ∨ hi = lo) :
    SpaceOk C U S km' { p with pagetable := pt } := by
  have hmx : trapframeVA < maxVA := by decide
  refine h.fewer hw.inv (fun va h1 h2 => hw.rest va h2 (by omega)) fun va hva hv => ?_
  by_cases hin : lo ≤ va ∧ va < hi
  · rw [hw.gone va hin.1 hin.2] at hv
    simp at hv
  · exact hw.rest va (by omega) (by omega)

/-- Growing maps the pages it adds, and no others. -/
theorem SpaceOk.grow {lo hi : Nat} (h : SpaceOk C U S km p)
    (hg : Grown U S lo hi km p.pagetable km' pt) (hhi : hi ≤ trapframeVA) (hsz : sz ≤ trapframeVA)
    (hle : p.sz ≤ sz) (hend : hi ≤ pgRoundUp sz) :
    SpaceOk C U S km' { p with pagetable := pt, sz := sz } := by
  have hmx : trapframeVA < maxVA := by decide
  refine ⟨hg.inv, hg.top h.top hhi, fun va h1 h2 => ?_, hsz, fun hC va hva hv => ?_,
    fun va hva hv hx => ?_, h.mem⟩
  · have hrest := hg.rest va h2 (Or.inr (by omega))
    exact (congrArg Pte.v hrest).trans (h.high va h1 h2)
  · by_cases hin : lo ≤ va ∧ va < hi
    · exact Nat.lt_of_lt_of_le hin.2 hend
    · have hv' : (pt.pte va).v = true := hv
      rw [hg.rest va (by omega) (by omega)] at hv'
      exact Nat.lt_of_lt_of_le (h.below hC va hva hv') (pgRoundUp_mono hle hsz)
  · by_cases hin : lo ≤ va ∧ va < hi
    · obtain ⟨f, hf, _⟩ := hg.fresh va hin.1 hin.2
      rw [hf] at hx
      simp [permURW] at hx
    · have hpte : pt.pte va = p.pagetable.pte va := hg.rest va (by omega) (by omega)
      have hv' : (p.pagetable.pte va).v = true := hpte ▸ hv
      rw [hpte] at hx ⊢
      exact h.wx va hva hv' hx

/-- **`sbrk` keeps the memory in order.** -/
theorem Brk.spaceOk (hb : Brk k k') (h : SpaceOk C U S k.kmem k.p) :
    SpaceOk C U S k'.kmem k'.p := by
  have hbase := pgRoundUp_le_trapframe h.brk
  have hround := pgRoundUp_eq h.brk
  cases hb with
  | same hk' => rw [hk']; exact h
  | lazily sz hle htop hk' =>
    rw [hk']
    exact ⟨h.vm, h.top, h.high, htop, fun hC va hva hv =>
      Nat.lt_of_lt_of_le (h.below hC va hva hv) (pgRoundUp_mono hle htop), h.wx, h.mem⟩
  | failed newsz km pt hnew hu hk' =>
    rw [hk']
    rcases uvmalloc_cases h.vm h.top hu with ⟨hlt, _, rfl, rfl⟩ | ⟨hi, hle, hz, _, _, hhi,
      _, _, hg⟩ | ⟨hi, _, _, hhi, hw⟩
    · exact h
    · -- growing to 0 grows by nothing
      have hold : k.p.sz = 0 := by omega
      have hhi0 : hi ≤ pgRoundUp k.p.sz := by
        rw [hround, hold] at hhi ⊢
        omega
      exact h.grow hg (by omega) h.brk (Nat.le_refl _) hhi0
    · exact h.withdraw hw hhi
  | grew newsz sz km pt hnew hz hu hk' =>
    rw [hk']
    rcases uvmalloc_cases h.vm h.top hu with ⟨hlt, rfl, rfl, rfl⟩ |
      ⟨hi, hle, rfl, hal, hge, hhi, htop, _, hg⟩ | ⟨hi, _, hz', _, _⟩
    · exact h
    · have hend : hi ≤ pgRoundUp sz := by
        rw [pgRoundUp_eq hnew]
        omega
      exact h.grow hg (by omega) hnew hle hend
    · exact absurd hz' hz
  | shrank newsz sz km pt hu hk' =>
    rw [hk']
    obtain ⟨km₁, pt₁, hrun, hun⟩ := uvmdealloc_spec newsz h.vm h.brk
    rw [hrun] at hu
    cases hu
    have hmin : min k.p.sz newsz ≤ trapframeVA := Nat.le_trans (Nat.min_le_left _ _) h.brk
    have hmx : trapframeVA < maxVA := by decide
    refine ⟨hun.inv, fun va h1 h2 => ?_, fun va h1 h2 => ?_, hmin, fun hC va hva hv => ?_,
      fun va hva hv hx => ?_, h.mem⟩
    · have hrest := hun.rest va (by omega) (Or.inr (by omega))
      have htop := h.top va h1 h2
      rw [← hrest] at htop
      exact htop
    · have hrest := hun.rest va h2 (Or.inr (by omega))
      exact (congrArg Pte.v hrest).trans (h.high va h1 h2)
    · by_contra hge
      have hv' : (pt.pte va).v = true := hv
      by_cases hin : va < pgRoundUp k.p.sz
      · rw [hun.gone va (Nat.le_of_not_lt hge) hin] at hv'
        simp at hv'
      · rw [hun.rest va (by omega) (Or.inr (Nat.le_of_not_lt hin))] at hv'
        exact hin (h.below hC va hva hv')
    · have hout : va < pgRoundUp (min k.p.sz newsz) ∨ pgRoundUp k.p.sz ≤ va := by
        by_contra hin
        have hgone := hun.gone va (by omega) (by omega)
        exact absurd (hgone.symm.trans hv) (by simp)
      have hpte : pt.pte va = k.p.pagetable.pte va := hun.rest va (by omega) hout
      have hv' : (k.p.pagetable.pte va).v = true := hpte ▸ hv
      rw [hpte] at hx ⊢
      exact h.wx va hva hv' hx

/-! ## `kexec` -/

/-- The table of a new image: a hidden guard page, a stack page over it, nothing else. -/
structure FreshTable (tf : Nat) (U T : Set Nat) (km₀ km : Kmem) (pt : PageTable) (base : Nat) :
    Prop where
  vm : VmInv U T km pt
  keeps : Keeps km₀ km
  top : TopMapped tf pt
  high : ∀ va, maxVA ≤ va → va < 2 * maxVA → (pt.pte va).v = false
  aligned : base % 4096 = 0
  bound : base + 8192 ≤ trapframeVA
  guard : ∀ va, base ≤ va → va < base + 4096 →
    ∃ f, pt.pte va = ⟨true, { permURW with u := false }, f⟩
  stack : ∀ va, base + 4096 ≤ va → va < base + 8192 →
    ∃ f, pt.pte va = ⟨true, permURW, f⟩ ∧ km.ram f = zeroPage
  nothing : ∀ va, va < trapframeVA → (va < base ∨ base + 8192 ≤ va) → (pt.pte va).v = false

/-- **What `kexec` has built** when it comes to the arguments. -/
theorem Built.fresh {ip : Inode} {l : Layout} (hb : Built k ip l km pt sz)
    (hheld : Held U T k.kmem) :
    sz = pgRoundUp l.sz + 8192 ∧ FreshTable k.p.trapframe U T k.kmem km pt (pgRoundUp l.sz) := by
  obtain ⟨_, km₀, pt₀, pt₁, hp, hu, hz, hclear⟩ := hb
  obtain ⟨hvm₀, hbare, hkeeps₀⟩ := (procPagetable_ok hheld hp).2 pt₀ rfl
  obtain ⟨hva, _, hpt⟩ := uvmclear_ok hclear
  rw [hpt]
  obtain ⟨base, hbase⟩ : ∃ base, pgRoundUp l.sz = base := ⟨_, rfl⟩
  have hal : base % 4096 = 0 := hbase ▸ pgRoundUp_mod l.sz
  have hlt : base < 2 ^ 64 := by rw [← hbase]; unfold pgRoundUp add64; omega
  have hagain : pgRoundUp base = base := by unfold pgRoundUp add64; omega
  have hmx : maxVA = trapframeVA + 8192 ∧ trapframeVA % 4096 = 0 ∧ maxVA = 274877906944 := by decide
  rw [hbase] at hu ⊢
  obtain ⟨newsz, hnew⟩ : ∃ newsz, add64 base ((userStack + 1) * 4096) = newsz := ⟨_, rfl⟩
  rw [hnew] at hu
  rcases uvmalloc_cases hvm₀ hbare.top hu with ⟨hwrap, hs, _, _⟩ |
    ⟨hi, hle, hs, hhal, hge, hhi, htop, _, hg⟩ | ⟨hi, _, hz', _, _⟩
  · -- the size wrapped around, and `walk` panics at the guard page
    rw [hs] at hva
    simp only [userStack, add64, sub64] at hnew hva
    omega
  · have hsz : newsz = base + 8192 := by
      simp only [userStack, add64] at hnew
      omega
    rw [hs, hsz]
    rw [hs, hsz] at hva
    rw [hsz] at hge hhi
    rw [hagain] at hhi htop hg
    have hend : hi = base + 8192 := by omega
    subst hend
    have hguard : sub64 (base + 8192) ((userStack + 1) * 4096) = base := by
      simp only [userStack, sub64]
      omega
    rw [hguard] at hva ⊢
    have hbound : base + 8192 ≤ trapframeVA := by omega
    obtain ⟨g, hgpte, _⟩ := hg.fresh base (Nat.le_refl _) (by omega)
    have hsome : (pt₁.table0 base).isSome := table0_of_valid (by rw [hgpte])
    have hset := fun va (h : va < 2 * maxVA) =>
      pte_set { pt₁.pte base with perm := { (pt₁.pte base).perm with u := false } } hsome hva h
    refine ⟨rfl, hg.inv.setPerm hva _, hkeeps₀.trans hg.keeps, fun va h1 h2 => ?_,
      fun va h1 h2 => ?_, hal, hbound, fun va h1 h2 => ?_, fun va h1 h2 => ?_, fun va h1 h2 => ?_⟩
    · rw [hset va (by omega), if_neg (by omega)]
      exact hg.top hbare.top hbound va h1 h2
    · rw [hset va h2, if_neg (by omega), hg.rest va h2 (by omega)]
      exact hbare.high va h1 h2
    · exact ⟨g, by rw [hset va (by omega), if_pos (by omega), hgpte]⟩
    · obtain ⟨f, hf, hram⟩ := hg.fresh va (by omega) h2
      exact ⟨f, by rw [hset va (by omega), if_neg (by omega), hf], hram⟩
    · rw [hset va (by omega), if_neg (by omega), hg.rest va (by omega) (by omega)]
      exact hbare.user va h1
  · exact absurd hz' hz

/-- A bare table is as bare after an `uvmalloc` that failed. -/
theorem uvmalloc_failed {pt' : PageTable} {oldsz newsz : Nat} (hinv : VmInv U T km pt)
    (hbare : Bare tf pt) (h : uvmalloc km pt oldsz newsz = .ok (0, km', pt')) :
    VmInv U T km' pt' ∧ Bare tf pt' ∧ Undone km km' := by
  have hmx : trapframeVA < maxVA := by decide
  have same : ∀ {lo hi : Nat}, VmInv U T km' pt' → Undone km km' →
      (∀ va, lo ≤ va → va < hi → (pt'.pte va).v = false) →
      (∀ va, va < 2 * maxVA → (va < lo ∨ hi ≤ va) → pt'.pte va = pt.pte va) →
      (hi ≤ trapframeVA ∨ hi ≤ lo) → VmInv U T km' pt' ∧ Bare tf pt' ∧ Undone km km' := by
    intro lo hi hinv' hundone hgone hrest hhi
    refine ⟨hinv', ⟨fun va h1 h2 => ?_, fun va hva => ?_, fun va h1 h2 => ?_⟩, hundone⟩
    · rw [hrest va (by omega) (by omega)]
      exact hbare.top va h1 h2
    · by_cases hin : lo ≤ va ∧ va < hi
      · exact hgone va hin.1 hin.2
      · rw [hrest va (by omega) (by omega)]
        exact hbare.user va hva
    · rw [hrest va h2 (by omega)]
      exact hbare.high va h1 h2
  rcases uvmalloc_cases hinv hbare.top h with ⟨hlt, hz, _, _⟩ |
    ⟨hi, hle, hz, hal, _, hhi, _, _, hg⟩ | ⟨hi, _, _, hhi, hw⟩
  · omega
  · -- growing to 0 grows by nothing
    have hold : pgRoundUp oldsz = 0 := by
      have : oldsz = 0 := by omega
      subst this
      decide
    rw [hold] at hhi hg
    exact same hg.inv (hg.keeps.undo (.refl _)) (fun va h1 h2 => by omega) hg.rest
      (Or.inr (by omega))
  · exact same hw.inv ⟨hw.ram, hw.others, hw.calls⟩ hw.gone hw.rest (by omega)

theorem Pushed.vm {q : PageTable} (hp : Pushed pt km km') (h : VmInv U T km q) :
    VmInv U T km' q := by
  induction hp with
  | refl => exact h
  | store _ _ ih => exact ⟨ok_setRam ih.ok _ _, ih.ledger.congr_free fun _ => Iff.rfl⟩

/-- The frames of another table are held all the while. -/
theorem SpaceOk.held (h : SpaceOk C U S km p) :
    Held U (S ∪ frames p.pagetable) km := h.vm.held

/-- **A call of `kexec` that fails** has given back all it took. -/
theorem SpaceOk.restore (h : SpaceOk C U S km p) (hheld : Held U (S ∪ frames p.pagetable) km') :
    SpaceOk C U S km' p :=
  h.reledger (hheld.tree h.vm.apart)

theorem FreshTable.spaceOk {km₀ : Kmem} {base : Nat} (h : FreshTable tf U T km₀ km pt base)
    (hvm : VmInv U S km' pt) (hpt : p.pagetable = pt) (htf : p.trapframe = tf)
    (hsz : p.sz = base + 8192) (hmem : MemOk p.memstat) :
    SpaceOk C U S km' p := by
  have hround : pgRoundUp (base + 8192) = base + 8192 :=
    pgRoundUp_aligned (by have := h.aligned; omega) h.bound
  refine ⟨hpt ▸ hvm, hpt ▸ htf ▸ h.top, hpt ▸ h.high, hsz ▸ h.bound, fun _ va hva hv => ?_,
    fun va hva hv hx => ?_, hmem⟩
  · rw [hsz, hround]
    by_contra hge
    rw [hpt, h.nothing va hva (Or.inr (Nat.le_of_not_lt hge))] at hv
    simp at hv
  · rw [hpt] at hv hx
    by_cases hin : va < base ∨ base + 8192 ≤ va
    · rw [h.nothing va hva hin] at hv
      simp at hv
    · by_cases hguard : va < base + 4096
      · obtain ⟨f, hf⟩ := h.guard va (by omega) hguard
        rw [hf] at hx
        simp [permURW] at hx
      · obtain ⟨f, hf, _⟩ := h.stack va (by omega) (by omega)
        rw [hf] at hx
        simp [permURW] at hx

/-- **`kexec` keeps the memory in order.** -/
theorem Execs.spaceOk {path : List UInt8} {ip : Option Inode} {argv : List (List UInt8)} {r : Int}
    (he : Execs k path ip argv r k') (h : SpaceOk C U S k.kmem k.p) :
    SpaceOk C U S k'.kmem k'.p := by
  cases he with
  | missing _ _ hk' => rw [hk']; exact h
  | starved sz km₀ km₁ km₂ pt₀ pt₁ hp hu hf _ hk' =>
    obtain ⟨hvm₀, hbare, _⟩ := (procPagetable_ok h.held hp).2 pt₀ rfl
    rw [hk']
    obtain ⟨hvm₁, hbare₁, _⟩ := uvmalloc_failed hvm₀ hbare hu
    exact h.restore (procFreepagetable_ok hvm₁ hbare₁.top hf).1
  | undone file l km km₁ km₂ pt sz hb hs hf _ hk' =>
    obtain ⟨_, hfresh⟩ := hb.fresh h.held
    rw [hk']
    exact h.restore (procFreepagetable_ok (hs.vm hfresh.vm) hfresh.top hf).1
  | done file l km km₁ km₂ km₃ pt sz sp₀ ustack ok d p _ hb hargs _ hc hf hcr _ hk' =>
    obtain ⟨hsz, hfresh⟩ := hb.fresh h.held
    have hvm := (copyoutNew_pushed _ hc).vm ((pushArgs_pushed argv hargs).vm hfresh.vm)
    -- the new table is property of the process while the old one is taken apart
    have hheld := (procFreepagetable_ok (hvm.swapSides h.vm.apart) h.top hf).1
    have hapart : Apart S pt :=
      ⟨hvm.apart.inj, fun s f hs hS => hvm.apart.out s f hs (Or.inl hS)⟩
    obtain ⟨file', hp⟩ := swapfileCreate_eq hcr
    rw [hk', hp]
    exact hfresh.spaceOk (hheld.tree hapart) rfl rfl hsz h.mem

/-! ## Creating processes -/

/-- A process `allocproc` has made: a trapframe, a bare table and empty books. -/
structure NewProc (U T : Set Nat) (km km' : Kmem) (q : Proc) : Prop where
  vm : VmInv U (insert q.trapframe T) km' q.pagetable
  apart : q.trapframe ∉ T
  bare : Bare q.trapframe q.pagetable
  keeps : Keeps km km'
  fresh : ∃ pid, q = freshProc pid q.trapframe q.pagetable

theorem allocproc_ok {pid : Nat} {r : Option Proc} (hheld : Held U T km)
    (h : allocproc km pid = .ok (r, km')) :
    (r = none → Held U T km' ∧ Undone km km') ∧ ∀ q, r = some q → NewProc U T km km' q := by
  cases allocproc_cases h with
  | starved hk =>
    have hidle := kalloc_none hk
    exact ⟨fun _ => ⟨hheld.idle hidle, Undone.of_idles hidle⟩, fun q hq => by simp at hq⟩
  | @undone tf km₁ km₂ hk hp =>
    have htake := kalloc_some hheld.ok hk
    obtain ⟨hheld₂, hundone⟩ := (procPagetable_ok (hheld.take htake) hp).1 rfl
    have hapart : tf ∉ T := fun hT => hheld.ledger.out tf hT htake.free
    exact ⟨fun _ => ⟨hheld₂.giveBack hapart,
      ((Keeps.of_kalloc htake).andUndone hundone).andFrees (Frees.of_kfree km₂ tf)⟩,
      fun q hq => by simp at hq⟩
  | @made tf km₁ km₂ pt hk hp =>
    have htake := kalloc_some hheld.ok hk
    obtain ⟨hvm, hbare, hkeeps⟩ := (procPagetable_ok (hheld.take htake) hp).2 pt rfl
    refine ⟨fun hr => by simp at hr, fun q hq => ?_⟩
    cases hq
    exact ⟨hvm, fun hT => hheld.ledger.out tf hT htake.free, hbare,
      (Keeps.of_kalloc htake).trans hkeeps, pid, rfl⟩

theorem freshProc_memOk (pid tf : Nat) (pt : PageTable) : MemOk (freshProc pid tf pt).memstat := by
  refine ⟨fun i => rfl, fun i => ?_, fun i j _ hi => ?_⟩
  · exact Nat.two_pow_pos 32
  · exact absurd rfl hi

theorem NewProc.memOk (h : NewProc U T km km' q) :
    MemOk q.memstat := by
  obtain ⟨pid, hq⟩ := h.fresh
  rw [hq]
  exact freshProc_memOk _ _ _

theorem NewProc.spaceOk (h : NewProc U T km km' q) :
    SpaceOk C U (insert q.trapframe T) km' q := by
  obtain ⟨pid, hq⟩ := h.fresh
  have hnone : ∀ va, va < trapframeVA → ¬ (q.pagetable.pte va).v = true := fun va hva hv => by
    rw [h.bare.user va hva] at hv
    simp at hv
  refine ⟨h.vm, h.bare.top, h.bare.high, ?_, fun _ va hva hv => absurd hv (hnone va hva),
    fun va hva hv => absurd hv (hnone va hva), h.memOk⟩
  rw [hq]
  exact Nat.zero_le _

theorem pages_of_brk (h : sz ≤ trapframeVA) : (sz + 4095) / 4096 * 4096 = pgRoundUp sz :=
  (pgRoundUp_eq h).symm

/-- The frames of a process are held while its child is made. -/
theorem SpaceOk.frame_held (h : SpaceOk C U S km p) (hk : Keeps km km') (va : Nat)
    (hva : va < trapframeVA) (hv : (p.pagetable.pte va).v = true) :
    ¬ km'.Free (p.pagetable.pte va).frame := by
  have hslot : p.pagetable.frameAt (.page (va / 4096)) = some (p.pagetable.pte va).frame := by
    rw [frameAt_page hva, if_pos hv]
  exact hk.held _ (h.vm.ledger.held _ _ hslot).1

/-- **`kfork`** leaves parent and child with memory of their own. -/
theorem Forks.spaceOk {np : Option Proc} (hf : Forks k np k') (h : SpaceOk C U S k.kmem k.p) :
    (np = none → SpaceOk C U S k'.kmem k'.p) ∧ ∀ q, np = some q →
      q.trapframe ∉ S ∪ frames k.p.pagetable ∧
      SpaceOk C U (S ∪ insert q.trapframe (frames q.pagetable)) k'.kmem k'.p ∧
      SpaceOk C U (insert q.trapframe (S ∪ frames k.p.pagetable)) k'.kmem q := by
  have hround := pages_of_brk h.brk
  have hbase := pgRoundUp_le_trapframe h.brk
  cases hf with
  | noSlot hnp hk' => rw [hk', hnp]; exact ⟨fun _ => h, fun q hq => by simp at hq⟩
  | noProc km ha hnp hk' =>
    rw [hk', hnp]
    exact ⟨fun _ => h.restore ((allocproc_ok h.held ha).1 rfl).1, fun q hq => by simp at hq⟩
  | undone q km km₁ km₂ pt ha hu hfree hnp hk' =>
    have hnew := (allocproc_ok h.held ha).2 q rfl
    obtain ⟨hfail, _⟩ := (uvmcopyLoop_ok _ hnew.vm (h.frame_held hnew.keeps) rfl
      (by rw [Nat.zero_add, hround]; exact hbase) hu).2 rfl
    have hmx : trapframeVA < maxVA := by decide
    have htop : TopMapped q.trapframe pt := fun va h1 h2 => by
      rw [hfail.top va h1 (by omega)]
      exact hnew.bare.top va h1 h2
    rw [hk', hnp]
    exact ⟨fun _ => h.restore (procFreepagetable_ok (hfail.inv.giveBack hnew.apart) htop hfree).1,
      fun q hq => by simp at hq⟩
  | made q km km₁ pt ha hu hnp hk' =>
    have hnew := (allocproc_ok h.held ha).2 q rfl
    have hcopy := (uvmcopyLoop_ok _ hnew.vm (h.frame_held hnew.keeps) rfl
      (by rw [Nat.zero_add, hround]; exact hbase) hu).1 rfl
    rw [Nat.zero_add, hround] at hcopy
    have hmx : trapframeVA < maxVA := by decide
    have hrest : ∀ va, trapframeVA ≤ va → va < 2 * maxVA → pt.pte va = q.pagetable.pte va :=
      fun va h1 h2 => hcopy.rest va h2 (Or.inr (Nat.le_trans hbase h1))
    have hold : Apart (insert q.trapframe S) k.p.pagetable := by
      refine ⟨h.vm.apart.inj, fun s f hs hf => ?_⟩
      rcases hf with rfl | hf
      · exact hnew.apart (Or.inr ⟨s, hs⟩)
      · exact h.vm.apart.out s f hs hf
    have hvm := hcopy.inv
    rw [← Set.insert_union] at hvm
    have hparent := hvm.swapSides hold
    rw [Set.insert_union, ← Set.union_insert] at hparent
    rw [hk', hnp]
    refine ⟨fun hq => by simp at hq, fun q' hq' => ?_⟩
    rw [← Option.some.inj hq']
    -- a page of the child is a copy of one of the parent's
    have hmine : ∀ va, va < trapframeVA → (pt.pte va).v = true →
        va < pgRoundUp k.p.sz ∧ (k.p.pagetable.pte va).v = true ∧
          (pt.pte va).perm = (k.p.pagetable.pte va).perm := by
      intro va hva hv
      have hlow : va < pgRoundUp k.p.sz := by
        by_contra hge
        rw [hcopy.rest va (by omega) (Or.inr (Nat.le_of_not_lt hge)), hnew.bare.user va hva] at hv
        simp at hv
      by_cases hpv : (k.p.pagetable.pte va).v = true
      · obtain ⟨f, hf, _⟩ := hcopy.copy va (Nat.zero_le _) hlow hpv
        exact ⟨hlow, hpv, by rw [hf]⟩
      · rw [hcopy.skip va (Nat.zero_le _) hlow (by simpa using hpv), hnew.bare.user va hva] at hv
        simp at hv
    refine ⟨hnew.apart, h.reledger hparent, hcopy.inv, fun va h1 h2 => ?_,
      fun va h1 h2 => ?_, h.brk, fun _ va hva hv => (hmine va hva hv).1, fun va hva hv hx => ?_,
      hnew.memOk⟩
    · have htop := hnew.bare.top va h1 h2
      rw [← hrest va h1 (by omega)] at htop
      exact htop
    · exact (congrArg Pte.v (hrest va (by omega) h2)).trans (hnew.bare.high va h1 h2)
    · obtain ⟨_, hpv, hperm⟩ := hmine va hva hv
      have hx' : (pt.pte va).perm.x = true := hx
      rw [hperm] at hx'
      have hwx := h.wx va hva hpv hx'
      rw [← hperm] at hwx
      exact hwx

/-! ## Every state -/

/-- The memory of a process is in order, whoever else holds frames. -/
def SpaceInv (C : Prop) (k : Kernel) : Prop := ∃ S, SpaceOk C ∅ S k.kmem k.p

theorem Held.of_trampoline (hok : km.Ok) (htramp : ¬ km.Free trampolineFrame) :
    Held ∅ {trampolineFrame} km := by
  refine ⟨hok, fun s f hs => by simp at hs, fun f hf => ?_, fun s t f hs => by simp at hs,
    fun f hf => absurd hf (Set.notMem_empty f)⟩
  rw [show f = trampolineFrame from hf]
  exact htramp

theorem Boot.spaceInv (hb : Boot k) : SpaceInv C k := by
  obtain ⟨km, hok, htramp, ha⟩ := hb.made
  exact ⟨_, ((allocproc_ok (Held.of_trampoline hok htramp) ha).2 k.p rfl).spaceOk⟩

/-- What is in the executable does not matter. -/
theorem SpaceOk.rewrite (h : SpaceOk C U S k.kmem k.p) (ip : Inode) :
    SpaceOk C U S (k.rewrite ip).kmem (k.rewrite ip).p :=
  ⟨h.vm, h.top, h.high, h.brk, h.below, h.wx, h.mem⟩

/-- **The memory of a process stays in order** along every run; `C` needs a condition. -/
theorem spaceInv_kept {Cond : Kernel → Op → Prop}
    (hswap : C → ∀ k acc va b, Cond k (.access acc va b) →
      wasSwapped k.p.memstat (toUint (pgRoundDown va)) = true → pgRoundDown va < k.p.sz) :
    Kept Cond (SpaceInv C) where
  boot _ hb := Boot.spaceInv hb
  trap k va acc b _ h hcond ht := by
    obtain ⟨S, hs⟩ := h
    exact ⟨S, usertrap_spaceOk hs
      (fun hC hw => lt_pgRoundUp (hswap hC k acc va b hcond hw) hs.brk) ht⟩
  byte _ _ _ h := by
    obtain ⟨S, hs⟩ := h
    exact ⟨S, hs.fill _ _⟩
  frame _ _ _ _ h hu := by
    obtain ⟨S, hs⟩ := h
    exact ⟨S, userFrame_spaceOk hs hu⟩
  store _ _ _ _ h := by
    obtain ⟨S, hs⟩ := h
    exact ⟨S, hs.fill _ _⟩
  sbrk _ _ _ _ _ h hb := by
    obtain ⟨S, hs⟩ := h
    exact ⟨S, (sysSbrk_cases hb).spaceOk hs⟩
  exec _ _ _ _ _ _ h _ he := by
    obtain ⟨S, hs⟩ := h
    exact ⟨S, (kexec_cases he).spaceOk hs⟩
  fork _ _ np _ h hf := by
    obtain ⟨S, hs⟩ := h
    obtain ⟨hnone, hsome⟩ := (kfork_cases hf).spaceOk hs
    cases np with
    | none => exact ⟨⟨S, hnone rfl⟩, fun q hq => by simp at hq⟩
    | some q =>
      obtain ⟨_, hparent, hchild⟩ := hsome q rfl
      refine ⟨⟨_, hparent⟩, fun q' hq' => ?_⟩
      cases hq'
      exact ⟨_, hchild⟩
  file _ _ h := by
    obtain ⟨S, hs⟩ := h
    exact ⟨S, hs.rewrite _⟩

/-- Whatever a process did, its memory is in order. -/
theorem reachable_spaceInv {Cond : Kernel → Op → Prop} (h : ReachableVia Cond k) :
    SpaceInv False k :=
  (spaceInv_kept fun hC => hC.elim).reachable h

end Xv6Paging.Proof
