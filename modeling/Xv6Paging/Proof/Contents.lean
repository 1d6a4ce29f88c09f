import Xv6Paging.Proof.Space

/-!
# What the pages hold

A page the process has mapped keeps its bytes through everything that happens to
other pages: frames are held by one page at a time, and allocation and release
only ever write to frames nobody holds. An installed page holds what its frame was
filled with.
-/

namespace Xv6Paging.Proof

open Xv6Paging Lib

variable {C : Prop} {U S : Set Nat}
variable {f n va va0 : Nat} {k k' : Kernel} {km : Kmem} {p : Proc} {r : Option Nat} {src : Fill}
  {perm : Perm} {ok : Bool} {record : Proc → Proc} {pt : PageTable}

/-- The page of `va` is mapped as it was, and holds what it held. -/
structure SameAt (va : Nat) (k k' : Kernel) : Prop where
  pte : k'.p.pagetable.pte va = k.p.pagetable.pte va
  ram : (k.p.pagetable.pte va).v = true →
    k'.kmem.ram (k.p.pagetable.pte va).frame = k.kmem.ram (k.p.pagetable.pte va).frame

theorem SameAt.refl (va : Nat) (k : Kernel) : SameAt va k k := ⟨rfl, fun _ => rfl⟩

theorem SameAt.trans {k₁ k₂ k₃ : Kernel} (h : SameAt va k₁ k₂) (h' : SameAt va k₂ k₃) :
    SameAt va k₁ k₃ := by
  refine ⟨h'.pte.trans h.pte, fun hv => ?_⟩
  have hram := h'.ram (by rw [h.pte]; exact hv)
  rw [h.pte] at hram
  rw [hram, h.ram hv]

/-- A page that stays mapped reads as before. -/
theorem SameAt.byte (h : SameAt va k k') (hv : (k.p.pagetable.pte va).v = true) (hva : va < maxVA) :
    k'.byte va = k.byte va := by
  unfold Kernel.byte Kernel.pte
  rw [if_pos hva, if_pos hva, h.pte, h.ram hv]

/-- The frame of a mapped page is neither free nor held elsewhere. -/
theorem frame_held (h : SpaceOk C U S km p) (hva : va < trapframeVA)
    (hv : (p.pagetable.pte va).v = true) :
    ¬ km.Free (p.pagetable.pte va).frame ∧ (p.pagetable.pte va).frame ∉ S := by
  refine h.vm.ledger.held (.page (va / 4096)) _ ?_
  rw [frameAt_page hva, if_pos hv]

/-- Two pages do not share a frame. -/
theorem frames_ne (h : SpaceOk C U S km p) {a b : Nat} (ha : a < trapframeVA) (hb : b < trapframeVA)
    (hva : (p.pagetable.pte a).v = true) (hvb : (p.pagetable.pte b).v = true)
    (hne : a / 4096 ≠ b / 4096) : (p.pagetable.pte a).frame ≠ (p.pagetable.pte b).frame := by
  intro heq
  have hs : p.pagetable.frameAt (.page (a / 4096)) = some (p.pagetable.pte a).frame := by
    rw [frameAt_page ha, if_pos hva]
  have ht : p.pagetable.frameAt (.page (b / 4096)) = some (p.pagetable.pte a).frame := by
    rw [frameAt_page hb, if_pos hvb, heq]
  exact hne (Slot.page.inj (h.vm.ledger.inj _ _ _ hs ht))

/-- The records of the process and frames it has not mapped may change. -/
theorem sameAt_of_ram (hpt : k'.p.pagetable = k.p.pagetable)
    (hram : (k.p.pagetable.pte va).v = true →
      k'.kmem.ram (k.p.pagetable.pte va).frame = k.kmem.ram (k.p.pagetable.pte va).frame) :
    SameAt va k k' :=
  ⟨by rw [hpt], hram⟩

/-! ## Eviction -/

/-- Dropping a page frees its frame and no other. -/
theorem sameAt_dropFrame {victim : Nat} (h : SpaceOk C U S k.kmem k.p) (hal : victim % 4096 = 0)
    (hvic : victim < trapframeVA) (hv : (k.p.pagetable.pte victim).v = true)
    (hva : va < trapframeVA) (hne : va / 4096 ≠ victim / 4096) :
    SameAt va k (k.dropFrame victim) := by
  have hmx : trapframeVA < maxVA := by decide
  have hun := unmaps_page h.vm hal hvic hv
  have hpte : (k.p.pagetable.set victim Pte.zero).pte va = k.p.pagetable.pte va :=
    hun.rest va (by omega) (by omega)
  refine ⟨hpte, fun hmapped => ?_⟩
  exact setRam_ne _ _ (frames_ne h hva hvic hmapped hv hne)

/-- **An eviction touches no page but the victim.** -/
theorem Evicts.sameAt {i : Fin maxPagesInfo} {b : Bool} (he : Evicts k i b k')
    (hi : Live k.p.memstat i) (h : SpaceOk C U S k.kmem k.p) (hva : va < trapframeVA)
    (hne : va / 4096 ≠ (k.p.memstat.pages i).va / 4096) :
    SameAt va k k' := by
  obtain ⟨q, d, hq, hmem, rfl | ⟨hv, rfl⟩⟩ := he.memory h.mem hi
  · exact sameAt_of_ram hq.pagetable fun _ => rfl
  · have h₁ : SameAt va k { k with disk := d, p := q } := sameAt_of_ram hq.pagetable fun _ => rfl
    have hs : SpaceOk C U S k.kmem q := h.same hq hmem
    exact h₁.trans (sameAt_dropFrame (k := { k with disk := d, p := q }) hs (h.mem.aligned i)
      (h.mem.below_trapframe i) (hq.pagetable ▸ hv) hva hne)

/-- Allocation writes to a free frame only. -/
theorem sameAt_kalloc (h : SpaceOk C U S k.kmem k.p) (hk : kalloc k.kmem = (r, km))
    (hva : va < trapframeVA) :
    SameAt va k { k with kmem := km } := by
  refine sameAt_of_ram rfl fun hv => ?_
  cases r with
  | none => rw [(kalloc_none hk).ram]
  | some f =>
    have htake := kalloc_some h.vm.ok hk
    refine htake.ram _ fun heq => ?_
    have hfree := htake.free
    rw [← heq] at hfree
    exact (frame_held h hva hv).1 hfree

/-- The page of `va` is the one an allocation in this state evicts. -/
def EvictedFor (k : Kernel) (va : Nat) : Prop :=
  (kalloc k.kmem).1 = none ∧
    ∃ i, selectVictimFifoIndex k.p.memstat = some i ∧ va / 4096 = (k.p.memstat.pages i).va / 4096

/-- **Making room** touches no page but the victim. -/
theorem Room.sameAt (hr : Room k r k') (h : SpaceOk C U S k.kmem k.p) (hva : va < trapframeVA)
    (hne : ¬ EvictedFor k va) :
    SameAt va k k' := by
  have other : ∀ {km : Kmem} {i : Fin maxPagesInfo}, kalloc k.kmem = (none, km) →
      selectVictimFifoIndex k.p.memstat = some i → va / 4096 ≠ (k.p.memstat.pages i).va / 4096 :=
    fun hk hi he => hne ⟨by rw [hk], _, hi, he⟩
  cases hr with
  | had hk => exact sameAt_kalloc h hk hva
  | nobody hk _ => exact (sameAt_kalloc h hk hva).trans (sameAt_of_ram rfl fun _ => rfl)
  | @stuck km i k₁ hk hi he =>
    have hlive := resident_live (selectVictim_resident hi)
    have h₁ : SameAt va { k with kmem := km } k₁ := he.sameAt hlive (h.idle hk) hva (other hk hi)
    exact ((sameAt_kalloc h hk hva).trans h₁).trans (sameAt_of_ram rfl fun _ => rfl)
  | @made km km' i k₁ r hk hi he hk₁ =>
    have hlive := resident_live (selectVictim_resident hi)
    have h₁ : SameAt va { k with kmem := km } k₁ := he.sameAt hlive (h.idle hk) hva (other hk hi)
    have hs₁ : SpaceOk C U S k₁.kmem k₁.p := he.spaceOk hlive (h.idle hk)
    exact ((sameAt_kalloc h hk hva).trans h₁).trans (sameAt_kalloc hs₁ hk₁ hva)

/-! ## Installing a page -/

/-- Filling or freeing a frame in hand touches no page. -/
theorem sameAt_fill (pg : Page) (h : SpaceOk C U (insert f S) k.kmem k.p) (hva : va < trapframeVA) :
    SameAt va k { k with kmem := k.kmem.setRam f pg } := by
  refine sameAt_of_ram rfl fun hv => setRam_ne _ _ fun heq => ?_
  exact (frame_held h hva hv).2 (Or.inl heq)

theorem sameAt_kfree (h : SpaceOk C U (insert f S) k.kmem k.p) (hva : va < trapframeVA) :
    SameAt va k { k with kmem := kfree k.kmem f } := by
  refine sameAt_of_ram rfl fun hv => setRam_ne _ _ fun heq => ?_
  exact (frame_held h hva hv).2 (Or.inl heq)

/-- **Mapping a page** shows the frame at its address, and nothing changes elsewhere. -/
theorem mapUser_sameAt (h : SpaceOk C U (insert f S) k.kmem k.p) (hal : va0 % 4096 = 0)
    (hmax : va0 < maxVA) (hm : mapUser k va0 f perm = .ok (ok, k')) (hva : va < trapframeVA) :
    (ok = false ∨ va / 4096 ≠ va0 / 4096 → SameAt va k k') ∧
      (ok = true → va / 4096 = va0 / 4096 →
        k'.p.pagetable.pte va = ⟨true, perm, f⟩ ∧ k'.kmem.ram f = k.kmem.ram f) := by
  have hmx : trapframeVA < maxVA := by decide
  obtain ⟨⟨ok', km, pt⟩, hmap, hrest⟩ := bind_eq_ok.mp hm
  cases ok' with
  | false =>
    have hw := mappages_false h.vm hal hmax hmap
    cases hrest
    refine ⟨fun _ => ⟨hw.pte va, fun hv => ?_⟩, fun hno => by simp at hno⟩
    have hheld := frame_held h hva hv
    have hf : (k.p.pagetable.pte va).frame ≠ f := fun heq => hheld.2 (Or.inl heq)
    have hram : (kfree km f).ram (k.p.pagetable.pte va).frame =
        k.kmem.ram (k.p.pagetable.pte va).frame := by
      rw [← hw.keeps.ram _ hheld.1]
      exact setRam_ne _ _ hf
    exact hram
  | true =>
    obtain ⟨_, hw, _, _, _, hmaps⟩ := mappages_true h.vm hal hmax hmap
    cases hrest
    refine ⟨fun hx => ?_, fun _ hpage => ⟨?_, ?_⟩⟩
    · have hne : va / 4096 ≠ va0 / 4096 := by
        rcases hx with hx | hx
        · simp at hx
        · exact hx
      refine ⟨?_, fun hv => hw.keeps.ram _ (frame_held h hva hv).1⟩
      exact (hmaps va (by omega)).trans (if_neg hne)
    · exact (hmaps va (by omega)).trans (if_pos hpage)
    · exact hw.keeps.ram f (h.vm.ledger.out f (Set.mem_insert f S))

/--
**What an installation leaves behind.** Pages other than `va0` and the victim are
as they were. If a frame was mapped, page `va0` shows it, with the bytes of its
source; what these are is decided once there is a frame.
-/
theorem Installs.contents {perm : Proc → Perm} (hi : Installs src perm record k va0 r k')
    (hrec : Recording record) (h : SpaceOk C U S k.kmem k.p) (hal : va0 % 4096 = 0)
    (hmax : va0 < maxVA) (hva : va < trapframeVA) :
    (va / 4096 ≠ va0 / 4096 → ¬ EvictedFor k va → SameAt va k k') ∧
      ∀ f, r = some f → ∃ k₁ pg p, tryKallocOrReplace k = (some f, k₁) ∧
        src.page k₁ va0 f = (some pg, p) ∧ (va / 4096 = va0 / 4096 →
          k'.p.pagetable.pte va = ⟨true, perm k₁.p, f⟩ ∧ k'.kmem.ram f = pg) := by
  have hfill : ∀ {k₁ : Kernel} {f : Nat} {o : Option Page} {p : Proc} (pg : Page),
      tryKallocOrReplace k = (some f, k₁) → src.page k₁ va0 f = (o, p) →
      SpaceOk C U (insert f S) (k₁.kmem.setRam f pg) p ∧
        (¬ EvictedFor k va → SameAt va k { k₁ with kmem := k₁.kmem.setRam f pg, p := p }) := by
    intro k₁ f o p pg ht hp
    have hroom := tryKalloc_room h.mem ht
    obtain ⟨h₁, _⟩ := (hroom.spaceOk h).2 f rfl
    obtain ⟨hsame, hmem⟩ := fill_books hp
    refine ⟨(h₁.same hsame (hmem h₁.mem)).fill f pg, fun hne => ?_⟩
    have hfilled : SameAt va k₁ { k₁ with kmem := k₁.kmem.setRam f pg } := sameAt_fill pg h₁ hva
    exact ((hroom.sameAt h hva hne).trans hfilled).trans (sameAt_of_ram hsame.pagetable
      fun _ => rfl)
  cases hi with
  | starved ht =>
    refine ⟨fun _ hne => (tryKalloc_room h.mem ht).sameAt h hva hne, fun f hf => by simp at hf⟩
  | @unfilled k₁ f pg p ht hp =>
    obtain ⟨h₁, hsame⟩ := hfill pg ht hp
    refine ⟨fun _ hne => (hsame hne).trans ?_, fun f hf => by simp at hf⟩
    exact sameAt_kfree (k := { k₁ with kmem := k₁.kmem.setRam f pg, p := p }) h₁ hva
  | @unmapped k₁ k₂ f pg p ht hp hm =>
    obtain ⟨h₁, hsame⟩ := hfill pg ht hp
    have hmap := mapUser_sameAt (k := { k₁ with kmem := k₁.kmem.setRam f pg, p := p }) h₁ hal hmax
      hm hva
    exact ⟨fun _ hne => (hsame hne).trans (hmap.1 (Or.inl rfl)), fun f hf => by simp at hf⟩
  | @mapped k₁ k₂ f pg p ht hp hm =>
    obtain ⟨h₁, hsame⟩ := hfill pg ht hp
    have hmap := mapUser_sameAt (k := { k₁ with kmem := k₁.kmem.setRam f pg, p := p }) h₁ hal hmax
      hm hva
    have hbooks : SameAt va k₂ { k₂ with p := record k₂.p } :=
      sameAt_of_ram (hrec.space k₂.p).pagetable fun _ => rfl
    refine ⟨fun hpage hne => ((hsame hne).trans (hmap.1 (Or.inr hpage))).trans hbooks, ?_⟩
    intro f' hf'
    cases hf'
    refine ⟨k₁, pg, p, ht, hp, fun hpage => ?_⟩
    obtain ⟨hpte, hram⟩ := hmap.2 rfl hpage
    refine ⟨hbooks.pte.trans hpte, ?_⟩
    have hfilled : (k₁.kmem.setRam f pg).ram f = pg := setRam_self _ _ _
    exact hram.trans hfilled

/-! ## Faults are handled -/

/-- Making room only takes mappings away. -/
theorem Room.unmapped (hr : Room k r k') (h : SpaceOk C U S k.kmem k.p) (hva : va < trapframeVA)
    (hv : (k.p.pagetable.pte va).v = false) : (k'.p.pagetable.pte va).v = false := by
  have hmx : trapframeVA < maxVA := by decide
  have dropped : ∀ {k₁ k₂ : Kernel} {i : Fin maxPagesInfo} {b : Bool}, Evicts k₁ i b k₂ →
      Live k₁.p.memstat i → SpaceOk C U S k₁.kmem k₁.p → (k₁.p.pagetable.pte va).v = false →
      (k₂.p.pagetable.pte va).v = false := by
    intro k₁ k₂ i b he hi h₁ hv₁
    obtain ⟨q, d, hq, hmem, rfl | ⟨hv', rfl⟩⟩ := he.memory h₁.mem hi
    · show (q.pagetable.pte va).v = false
      rw [hq.pagetable]
      exact hv₁
    · have hset := pte_set Pte.zero (table0_of_valid (hq.pagetable ▸ hv'))
        (lt_maxVA (h₁.mem.below_trapframe i)) (show va < 2 * maxVA by omega)
      show ((q.pagetable.set (k₁.p.memstat.pages i).va Pte.zero).pte va).v = false
      rw [hset]
      split
      · rfl
      · rw [hq.pagetable]
        exact hv₁
  cases hr with
  | had _ => exact hv
  | nobody _ _ => exact hv
  | @stuck km i k₁ hk hi he =>
    have h₁ : (k₁.p.pagetable.pte va).v = false :=
      dropped he (resident_live (selectVictim_resident hi)) (h.idle hk) hv
    exact h₁
  | @made km km' i k₁ r hk hi he _ =>
    have h₁ : (k₁.p.pagetable.pte va).v = false :=
      dropped he (resident_live (selectVictim_resident hi)) (h.idle hk) hv
    exact h₁

theorem mapUser_total (perm : Perm) {T : Set Nat} (h : SpaceOk C U T k.kmem k.p)
    (hal : va0 % 4096 = 0) (hmax : va0 < maxVA) (hv : (k.p.pagetable.pte va0).v = false) :
    ∃ r, mapUser k va0 f perm = .ok r := by
  obtain ⟨ok, km, pt, hm⟩ := mappages_ok f perm h.vm hal hmax hv
  unfold mapUser
  rw [hm, ok_bind]
  exact ⟨_, rfl⟩

/-- The frame in hand, filled, can be mapped at an address that was not mapped. -/
theorem mapUser_filled (src : Fill) {k₁ : Kernel} {o : Option Page} (pg : Page) (perm : Perm)
    (h : SpaceOk C U S k.kmem k.p) (hal : va0 % 4096 = 0) (hlow : va0 < trapframeVA)
    (hv : (k.p.pagetable.pte va0).v = false) (ht : tryKallocOrReplace k = (some f, k₁))
    (hp : src.page k₁ va0 f = (o, p)) :
    ∃ r, mapUser { k₁ with kmem := k₁.kmem.setRam f pg, p := p } va0 f perm = .ok r := by
  have hroom := tryKalloc_room h.mem ht
  obtain ⟨h₁, _⟩ := (hroom.spaceOk h).2 f rfl
  obtain ⟨hsame, hmem⟩ := fill_books hp
  have hs : SpaceOk C U (insert f S) (k₁.kmem.setRam f pg) p :=
    (h₁.same hsame (hmem h₁.mem)).fill f pg
  refine mapUser_total (k := { k₁ with kmem := k₁.kmem.setRam f pg, p := p }) perm hs hal
    (lt_maxVA hlow) ?_
  show (p.pagetable.pte va0).v = false
  rw [hsame.pagetable]
  exact hroom.unmapped h hlow hv

theorem installExec_total (h : SpaceOk C U S k.kmem k.p) (hal : va0 % 4096 = 0)
    (hlow : va0 < trapframeVA) (hv : (k.p.pagetable.pte va0).v = false) :
    ∃ k', installExec k va0 = .ok k' := by
  unfold installExec
  rcases ht : tryKallocOrReplace k with ⟨_ | f, k₁⟩
  · exact ⟨_, rfl⟩
  · dsimp only
    rcases hpage : k₁.p.slicePage va0 with _ | pg
    · exact ⟨_, rfl⟩
    · have hfill : Fill.page k₁ va0 f .slice = (some pg, k₁.p) := by simp only [Fill.page, hpage]
      exact bind_total (mapUser_filled .slice pg _ h hal hlow hv ht hfill) fun r => ⟨_, rfl⟩

theorem installAnon_total (acc : Access) (swapped : Bool) (h : SpaceOk C U S k.kmem k.p)
    (hal : va0 % 4096 = 0) (hlow : va0 < trapframeVA) (hv : (k.p.pagetable.pte va0).v = false) :
    ∃ k', installAnon k va0 acc swapped = .ok k' := by
  unfold installAnon
  rcases ht : tryKallocOrReplace k with ⟨_ | f, k₁⟩
  · exact ⟨_, rfl⟩
  · dsimp only
    cases swapped with
    | false =>
      rw [if_neg (by simp)]
      exact bind_total (mapUser_filled .zero zeroPage permURW h hal hlow hv ht rfl)
        fun r => ⟨_, rfl⟩
    | true =>
      rw [if_pos rfl]
      rcases hin : swapinPage k₁.p va0 (k₁.kmem.ram f) with ⟨s, pg, p⟩
      dsimp only
      split
      · exact ⟨_, rfl⟩
      · have hfill : Fill.page k₁ va0 f .slot = (if s < 0 then none else some pg, p) := by
          simp only [Fill.page, hin]
        exact bind_total (mapUser_filled .slot pg permURW h hal hlow hv ht hfill) fun r => ⟨_, rfl⟩

/-- Where nothing is mapped, the trapframe has not been reached. -/
theorem SpaceOk.unmapped_low (h : SpaceOk C U S km p) (hmax : va < maxVA)
    (hv : (p.pagetable.pte va).v = false) : va < trapframeVA := by
  by_contra hge
  rw [(h.top va (Nat.le_of_not_lt hge) hmax).1] at hv
  cases hv

/-- **The heap, stack and swap causes** never panic. -/
theorem faultAnon_total (acc : Access) (swapped : Bool) (h : SpaceOk C U S k.kmem k.p)
    (hal : va0 % 4096 = 0) (hmax : va0 < maxVA) :
    ∃ k', faultAnon k va0 acc swapped = .ok k' := by
  unfold faultAnon
  split
  · exact ⟨_, rfl⟩
  · split
    · rename_i hv
      have hv' : (k.p.pagetable.pte va0).v = false := by simpa using hv
      split
      · exact ⟨_, rfl⟩
      · exact installAnon_total acc _ h hal (h.unmapped_low hmax hv') hv'
    · split
      · exact ⟨_, rfl⟩
      · exact ⟨_, rfl⟩

/-- A page without contents is not mapped, so it is mapped over nothing. -/
theorem installExec_unreadable (h : SpaceOk C U S k.kmem k.p) (hnone : k.p.slicePage va0 = none) :
    ∃ k', installExec k va0 = .ok k' ∧ k'.p.killed = true := by
  unfold installExec
  rcases ht : tryKallocOrReplace k with ⟨_ | f, k₁⟩
  · exact ⟨_, rfl, rfl⟩
  · dsimp only
    rw [slicePage_of_image (tryKalloc_room h.mem ht).image, hnone]
    exact ⟨_, rfl, rfl⟩

/--
**The exec cause** does not panic either, unless a page that can be read from the file
is to be mapped over one that is there, but not for the user.
-/
theorem faultExec_total (acc : Access) (h : SpaceOk C U S k.kmem k.p) (hal : va0 % 4096 = 0)
    (hmax : va0 < maxVA)
    (hslice : ¬ (acc = .write ∧ k.p.textRange va0 = true) → (k.p.pagetable.pte va0).v = true →
      (k.p.pagetable.pte va0).perm.u = false → k.p.slicePage va0 = none) :
    ∃ k', faultExec k va0 acc = .ok k' := by
  unfold faultExec
  dsimp only
  split
  · exact ⟨_, rfl⟩
  · rename_i hwt
    split
    · rename_i hwalk
      cases hv : (k.p.pagetable.pte va0).v with
      | false => exact installExec_total h hal (h.unmapped_low hmax hv) hv
      | true =>
        have hu : (k.p.pagetable.pte va0).perm.u = false := by
          unfold walkaddr at hwalk
          rw [if_neg (Nat.not_le.mpr hmax)] at hwalk
          simpa [hv] using hwalk
        obtain ⟨k', hk', _⟩ := installExec_unreadable h (hslice hwt hv hu)
        exact ⟨k', hk'⟩
    · split
      · exact ⟨_, rfl⟩
      · exact ⟨_, rfl⟩

/-- **`usertrap` handles every fault** below the trapframe, provided no page is to be loaded over
another. -/
theorem usertrap_total (acc : Access) (h : SpaceOk C U S k.kmem k.p) (hlow : va < trapframeVA)
    (hslice : walkaddr k.p.pagetable (pgRoundDown va) = none →
      (k.p.pagetable.pte (pgRoundDown va)).v = false) :
    ∃ k', usertrapPageFault k va acc = .ok k' := by
  have hal := pgRoundDown_mod va
  have hmax : pgRoundDown va < maxVA := lt_maxVA (Nat.lt_of_le_of_lt (pgRoundDown_le va) hlow)
  have h₀ : SpaceOk C U S k.countFault.kmem k.countFault.p := h.same ⟨rfl, rfl⟩ h.mem
  have hpt : k.countFault.p.pagetable = k.p.pagetable := rfl
  rw [← hpt] at hslice
  unfold usertrapPageFault
  generalize k.countFault = k₀ at h₀ hslice
  rcases k.p.cause va acc with _ | c
  · exact ⟨_, rfl⟩
  · unfold handleFault
    dsimp only
    rw [if_neg (Nat.not_le.mpr hmax)]
    cases c with
    | exec =>
      refine faultExec_total acc h₀ hal hmax fun _ hv hu => ?_
      -- a page hidden from the user would be one `walkaddr` does not find
      have hwalk : walkaddr k₀.p.pagetable (pgRoundDown va) = none := by
        unfold walkaddr
        rw [if_neg (Nat.not_le.mpr hmax)]
        simp [hu]
      rw [hslice hwalk] at hv
      cases hv
    | swap | stack | heap => exact faultAnon_total acc _ h₀ hal hmax

/-- **`vmfault` always returns** below the trapframe. -/
theorem vmfault_total (h : SpaceOk C U S k.kmem k.p) (hlow : va < trapframeVA) :
    ∃ r, vmfault k va = .ok r := by
  have hle : pgRoundDown va < trapframeVA := Nat.lt_of_le_of_lt (pgRoundDown_le va) hlow
  have hal := pgRoundDown_mod va
  unfold vmfault
  dsimp only
  split
  · exact ⟨_, rfl⟩
  · rw [if_neg (Nat.not_le.mpr (lt_maxVA hle))]
    split
    · exact ⟨_, rfl⟩
    · rename_i hv
      have hv' : (k.p.pagetable.pte (pgRoundDown va)).v = false := by simpa [ismapped] using hv
      split
      · rcases ht : tryKallocOrReplace k with ⟨_ | f, k₁⟩
        · exact ⟨_, rfl⟩
        · dsimp only
          rcases hpage : k₁.p.slicePage (pgRoundDown va) with _ | pg
          · exact ⟨_, rfl⟩
          · have hfill : Fill.page k₁ (pgRoundDown va) f .slice = (some pg, k₁.p) := by
              simp only [Fill.page, hpage]
            exact bind_total (mapUser_filled .slice pg _ h hal hle hv' ht hfill) fun r => ⟨_, rfl⟩
      · split
        · rcases ht : tryKallocOrReplace k with ⟨_ | f, k₁⟩
          · exact ⟨_, rfl⟩
          · exact bind_total (mapUser_filled .zero zeroPage _ h hal hle hv' ht rfl)
              fun r => ⟨_, rfl⟩
        · exact ⟨_, rfl⟩

/-! ## Who is killed -/

theorem Evicts.killed {i : Fin maxPagesInfo} {b : Bool} (he : Evicts k i b k') :
    k'.p.killed = k.p.killed := by
  cases he with
  | stale _ _ hk' => rw [hk']; rfl
  | dropped _ _ _ hk' => rw [hk']; rfl
  | refused r d q _ _ _ _ hq _ hk' => rw [hk', hq]
  | sent s d q _ _ _ _ _ hk' => rw [hk']; rfl

/-- Finding a frame kills nobody. -/
theorem Room.killed (hr : Room k (some f) k') :
    k'.p.killed = k.p.killed := by
  cases hr with
  | had _ => rfl
  | @made km km' i k₁ r hk hi he _ =>
    have h₁ : k₁.p.killed = k.p.killed := he.killed
    exact h₁

theorem memstatMarkResident_killed (p : Proc) (va : Nat) (seq : Int) :
    (memstatMarkResident p va seq).killed = p.killed := by
  rcases memstatMarkResident_cases p va seq with hr | ⟨i, _, hr⟩
  · rw [hr]
  · rw [hr]; rfl

theorem recordResident_killed (p : Proc) (va : Nat) : (p.recordResident va).killed = p.killed := by
  obtain ⟨q, hq, hdef⟩ := recordResident_eq p va
  rw [hdef, memstatMarkResident_killed, hq]

theorem recordExec_killed (p : Proc) (va : Nat) : (recordExec va p).killed = p.killed := by
  have h := recordResident_killed p va
  unfold recordExec
  generalize p.recordResident va = q at h
  exact h

theorem recordAnon_killed (p : Proc) (va : Nat) (acc : Access) :
    (p.recordAnon va acc).killed = p.killed := by
  have h := recordResident_killed p va
  unfold Proc.recordAnon
  generalize p.recordResident va = q at h
  dsimp only
  split
  · cases memstatVa q.memstat (toUint va) <;> exact h
  · exact h

theorem fill_killed {o : Option Page} (h : src.page k va f = (o, p)) : p.killed = k.p.killed := by
  cases src with
  | zero => cases h; rfl
  | slice => cases h; rfl
  | slot =>
    rcases hin : swapinPage k.p va (k.kmem.ram f) with ⟨s, pg, q⟩
    simp only [Fill.page, hin, Prod.mk.injEq] at h
    obtain ⟨_, rfl⟩ := h
    rcases swapinPage_eq hin with ⟨_, hq⟩ | ⟨slot, _, _, hq⟩
    · rw [hq]
    · rw [hq]
      unfold memstatSwap
      split <;> rfl

/-- A page that is installed costs nobody their life. -/
theorem Installs.killed {perm : Proc → Perm} (hi : Installs src perm record k va0 (some f) k')
    (hrec : ∀ p : Proc, (record p).killed = p.killed) (hm : MemOk k.p.memstat) :
    k'.p.killed = k.p.killed := by
  cases hi with
  | @mapped k₁ k₂ f pg p ht hp hmap =>
    obtain ⟨pt, hk₂⟩ := mapUser_records hmap
    have h₁ : k₁.p.killed = k.p.killed := (tryKalloc_room hm ht).killed
    have hkilled : (record k₂.p).killed = k.p.killed := by
      rw [hrec, hk₂]
      exact (fill_killed hp).trans h₁
    exact hkilled

/-! ## With memory to spare -/

/-- The next `n` calls of `kalloc` return a page. -/
def kallocs : Nat → Kmem → Bool
  | 0, _ => true
  | n + 1, km =>
    match kalloc km with
    | (none, _) => false
    | (some _, km) => kallocs n km

theorem kallocs_none {km₁ : Kmem} (h : kalloc km = (none, km₁)) (n : Nat) :
    kallocs (n + 1) km = false := by
  rw [kallocs, h]

theorem kallocs_some {km₁ : Kmem} (h : kalloc km = (some f, km₁)) (n : Nat) :
    kallocs (n + 1) km = kallocs n km₁ := by
  rw [kallocs, h]

theorem kallocs_succ (h : kallocs (n + 1) km = true) :
    ∃ f km₁, kalloc km = (some f, km₁) ∧ kallocs n km₁ = true := by
  rcases hk : kalloc km with ⟨_ | f, km₁⟩
  · rw [kallocs_none hk] at h
    cases h
  · rw [kallocs_some hk] at h
    exact ⟨f, km₁, rfl, h⟩

/-- What is in the frames does not matter, nor which frames they are. -/
theorem kallocs_congr : ∀ (n : Nat) {a b : Kmem}, a.others = b.others → a.calls = b.calls →
    a.freelist = b.freelist → kallocs n a = kallocs n b := by
  intro n
  induction n with
  | zero => intro a b _ _ _; rfl
  | succ n ih =>
    intro a b ho hc hf
    unfold kallocs kalloc
    dsimp only
    rw [ho, hc, hf]
    cases b.others b.calls with
    | drained => rfl
    | idle =>
      cases b.freelist with
      | nil => rfl
      | cons r rest => exact ih rfl rfl rfl
    | returned =>
      cases b.freelist with
      | nil => exact ih rfl rfl rfl
      | cons r rest => exact ih rfl rfl rfl

theorem kallocs_setRam (n : Nat) (km : Kmem) (f : Nat) (pg : Page) :
    kallocs n (km.setRam f pg) = kallocs n km :=
  kallocs_congr n rfl rfl rfl

theorem kallocs_pred : ∀ (n : Nat) {km : Kmem}, kallocs (n + 1) km = true →
    kallocs n km = true := by
  intro n
  induction n with
  | zero => intro km _; rfl
  | succ n ih =>
    intro km h
    obtain ⟨f, km₁, hk, h₁⟩ := kallocs_succ h
    rw [kallocs_some hk]
    exact ih h₁

theorem kallocs_plentiful :
    ∀ (n : Nat) {km : Kmem}, km.Ok → km.Plentiful → kallocs n km = true := by
  intro n
  induction n with
  | zero => intro km _ _; rfl
  | succ n ih =>
    intro km hok hp
    obtain ⟨f, km₁, hk⟩ := kalloc_plentiful hp
    have htake := kalloc_some hok hk
    rw [kallocs_some hk]
    exact ih htake.ok (hp.mono htake.others htake.calls)

/-- Nobody is evicted while there is a frame. -/
theorem tryKalloc_available (h : kallocs (n + 1) k.kmem = true) :
    ∃ f km, kalloc k.kmem = (some f, km) ∧ kallocs n km = true ∧
      tryKallocOrReplace k = (some f, { k with kmem := km }) := by
  obtain ⟨f, km, hk, h₁⟩ := kallocs_succ h
  refine ⟨f, km, hk, h₁, ?_⟩
  unfold tryKallocOrReplace
  rw [hk]

theorem walkLevel2_available (h : kallocs (n + 1) km = true) (pt : PageTable) (va : Nat) :
    ∃ km' pt', walkLevel2 km pt va = (true, km', pt') ∧ kallocs n km' = true := by
  unfold walkLevel2
  split
  · exact ⟨km, pt, rfl, kallocs_pred n h⟩
  · obtain ⟨f, km', hk, h₁⟩ := kallocs_succ h
    rw [hk]
    exact ⟨_, _, rfl, (kallocs_setRam n km' f zeroPage).trans h₁⟩

theorem walkLevel1_available (h : kallocs (n + 1) km = true) (hnext : (pt.next (px 2 va)).isSome) :
    ∃ km' pt', walkLevel1 km pt va = (true, km', pt') ∧ kallocs n km' = true := by
  unfold walkLevel1
  split
  · rename_i hno
    rw [hno] at hnext
    simp at hnext
  · split
    · exact ⟨km, pt, rfl, kallocs_pred n h⟩
    · obtain ⟨f, km', hk, h₁⟩ := kallocs_succ h
      rw [hk]
      exact ⟨_, _, rfl, (kallocs_setRam n km' f zeroPage).trans h₁⟩

/-- Two pages are enough for the way down to any address. -/
theorem walkAlloc_available (h : kallocs (n + 2) km = true) (hinv : VmInv U S km pt) (va : Nat) :
    ∃ km' pt', walkAlloc km pt va = (true, km', pt') ∧ kallocs n km' = true := by
  obtain ⟨km₁, pt₁, hw, h₁⟩ := walkLevel2_available h pt va
  obtain ⟨_, hnext⟩ := walkLevel2_spec hinv hw
  unfold walkAlloc
  rw [hw]
  exact walkLevel1_available h₁ (hnext rfl)

theorem mappages_available {km' : Kmem} {pt' : PageTable} (hp : kallocs (n + 2) km = true)
    (hinv : VmInv U S km pt) (hal : va % 4096 = 0) (hmax : va < maxVA)
    (hm : mappages km pt va 4096 f perm = .ok (ok, km', pt')) :
    ok = true ∧ kallocs n km' = true := by
  obtain ⟨km₁, pt₁, hw, h₁⟩ := walkAlloc_available hp hinv va
  rw [mappages_page hal hmax, hw] at hm
  dsimp only at hm
  split at hm
  · simp at hm
  · cases hm
    exact ⟨rfl, h₁⟩

theorem mapUser_available {T : Set Nat} (hp : kallocs (n + 2) k.kmem = true)
    (h : SpaceOk C U T k.kmem k.p) (hal : va0 % 4096 = 0) (hmax : va0 < maxVA)
    (hm : mapUser k va0 f perm = .ok (ok, k')) :
    ok = true ∧ kallocs n k'.kmem = true := by
  obtain ⟨⟨ok', km, pt⟩, hmap, hrest⟩ := bind_eq_ok.mp hm
  obtain ⟨hok, hleft⟩ := mappages_available hp h.vm hal hmax hmap
  cases hrest
  subst hok
  exact ⟨rfl, hleft⟩

/--
With a frame for the page and two for the page table, only a page that cannot be filled
is not installed, and the rest of the process is as the handler's books have it.
-/
theorem Installs.available {perm : Proc → Perm} (hi : Installs src perm record k va0 r k')
    (hp : kallocs (n + 3) k.kmem = true) (h : SpaceOk C U S k.kmem k.p) (hal : va0 % 4096 = 0)
    (hmax : va0 < maxVA)
    (hfill : ∀ km f, ((src.page { k with kmem := km } va0 f).1).isSome = true) :
    r.isSome = true ∧ kallocs n k'.kmem = true ∧ ∃ km f pt,
      k'.p = record { (src.page { k with kmem := km } va0 f).2 with pagetable := pt } := by
  obtain ⟨f, km, hk, hp₁, ht⟩ := tryKalloc_available hp
  have hs₁ := (h.take hk).1
  have hmap : ∀ {k₂ : Kernel} {pg : Page} {p : Proc} {o : Option Page} {perm : Perm} {ok : Bool},
      src.page { k with kmem := km } va0 f = (o, p) →
      mapUser { k with kmem := km.setRam f pg, p := p } va0 f perm = .ok (ok, k₂) →
      ok = true ∧ kallocs n k₂.kmem = true := by
    intro k₂ pg p o perm ok hpage hm
    obtain ⟨hsame, hmem⟩ := fill_books hpage
    have hs : SpaceOk C U (insert f S) (km.setRam f pg) p :=
      (hs₁.same hsame (hmem hs₁.mem)).fill f pg
    exact mapUser_available (k := { k with kmem := km.setRam f pg, p := p })
      ((kallocs_setRam (n + 2) km f pg).trans hp₁) hs hal hmax hm
  cases hi with
  | starved ht' =>
    rw [ht] at ht'
    simp at ht'
  | unfilled ht' hpage =>
    rw [ht] at ht'
    cases ht'
    have hsome := hfill km f
    rw [hpage] at hsome
    simp at hsome
  | @unmapped k₁ k₂ f' pg p ht' hpage hm =>
    rw [ht] at ht'
    cases ht'
    cases (hmap hpage hm).1
  | @mapped k₁ k₂ f' pg p ht' hpage hm =>
    rw [ht] at ht'
    cases ht'
    obtain ⟨pt, hk₂⟩ := mapUser_records hm
    refine ⟨rfl, (hmap hpage hm).2, km, f, pt, ?_⟩
    rw [hpage]
    show record k₂.p = _
    rw [hk₂]

end Xv6Paging.Proof
