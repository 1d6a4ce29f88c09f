import Xv6Paging.Proof.Break

/-!
# Pages are tracked apart

The `va` fields of `memstat` and of the swap table hold the low 32 bits of a page
address. Two pages whose low bits differ never get in each other's way: a fault on
the one leaves the page-table entry, the `memstat` entry and the swap slot of the
other alone, unless it evicts that page. Two pages with the same low bits share
everything.
-/

namespace Xv6Paging.Proof

open Xv6Paging Lib

variable {a b : Nat} {p q : Proc} {k k' : Kernel} {S U : Set Nat} {r : Option Nat}

/-- Entry `i` is in use for page `b`, and reads `e`. -/
def EntryOf (m : MemStat) (b : Nat) (i : Fin maxPagesInfo) (e : PageStat) : Prop :=
  m.pages i = e ∧ e.state ≠ .unmapped ∧ e.va = toUint b

/-- Slot `s` is in use for page `b`, and reads `e`. -/
def SlotFor (p : Proc) (b : Nat) (s : Fin maxSwapPages) (e : SwapEntry) : Prop :=
  p.swapTable s = e ∧ e.used = true ∧ e.va = toUint b

/-- Nothing that is on record about page `b` has changed. -/
structure Untouched (b : Nat) (p q : Proc) : Prop where
  pte : q.pagetable.pte b = p.pagetable.pte b
  entry : ∀ i e, EntryOf q.memstat b i e ↔ EntryOf p.memstat b i e
  slot : ∀ s e, SlotFor q b s e ↔ SlotFor p b s e

theorem Untouched.trans {r : Proc} (h : Untouched b p q) (h' : Untouched b q r) :
    Untouched b p r :=
  ⟨h'.pte.trans h.pte, fun i e => (h'.entry i e).trans (h.entry i e),
    fun s e => (h'.slot s e).trans (h.slot s e)⟩

/-- Only three fields of the process are records of its pages. -/
theorem untouched_of_eq (hpt : q.pagetable = p.pagetable) (hm : q.memstat.pages = p.memstat.pages)
    (ht : q.swapTable = p.swapTable) : Untouched b p q := by
  refine ⟨by rw [hpt], fun i e => ?_, fun s e => ?_⟩
  · unfold EntryOf; rw [hm]
  · unfold SlotFor; rw [ht]

theorem untouched_residentPages (p : Proc) (n : Int) :
    Untouched b p { p with residentPages := n } :=
  untouched_of_eq rfl rfl rfl

/-- An entry that is not `b`'s is replaced by one that is not `b`'s. -/
theorem entryOf_update {m m' : MemStat} {i : Fin maxPagesInfo} {new : PageStat}
    (hm : m'.pages = Function.update m.pages i new)
    (hold : ¬ ((m.pages i).state ≠ .unmapped ∧ (m.pages i).va = toUint b))
    (hnew : ¬ (new.state ≠ .unmapped ∧ new.va = toUint b)) (j : Fin maxPagesInfo) (e : PageStat) :
    EntryOf m' b j e ↔ EntryOf m b j e := by
  unfold EntryOf
  rw [hm]
  by_cases hj : j = i
  · subst hj
    rw [Function.update_self]
    constructor
    · rintro ⟨rfl, h⟩
      exact absurd h hnew
    · rintro ⟨rfl, h⟩
      exact absurd h hold
  · rw [Function.update_of_ne hj]

/-- The same for a slot. -/
theorem slotFor_update {s : Fin maxSwapPages} {new : SwapEntry}
    (hq : q.swapTable = Function.update p.swapTable s new)
    (hold : ¬ ((p.swapTable s).used = true ∧ (p.swapTable s).va = toUint b))
    (hnew : ¬ (new.used = true ∧ new.va = toUint b)) (t : Fin maxSwapPages) (e : SwapEntry) :
    SlotFor q b t e ↔ SlotFor p b t e := by
  unfold SlotFor
  rw [hq]
  by_cases ht : t = s
  · subst ht
    rw [Function.update_self]
    constructor
    · rintro ⟨rfl, h⟩
      exact absurd h hnew
    · rintro ⟨rfl, h⟩
      exact absurd h hold
  · rw [Function.update_of_ne ht]

/-- A change to one entry of the table that concerns another address. -/
theorem untouched_page {i : Fin maxPagesInfo} {new : PageStat} (hpt : q.pagetable = p.pagetable)
    (ht : q.swapTable = p.swapTable) (hm : q.memstat.pages = Function.update p.memstat.pages i new)
    (hold : ¬ ((p.memstat.pages i).state ≠ .unmapped ∧ (p.memstat.pages i).va = toUint b))
    (hnew : new.va ≠ toUint b) : Untouched b p q := by
  refine ⟨by rw [hpt], entryOf_update hm hold fun h => hnew h.2, fun s e => ?_⟩
  unfold SlotFor
  rw [ht]

/-! ## Eviction -/

theorem page_ne (ha : a % 4096 = 0) (hb : b % 4096 = 0) (h : toUint a ≠ toUint b) :
    ¬ b / 4096 = a / 4096 := by
  intro he
  have hab : a = b := by omega
  exact h (by rw [hab])

/-- Unmapping a page is no concern of another. -/
theorem untouched_set {va : Nat} {e : Pte} (hv : (p.pagetable.table0 va).isSome) (hva : va < maxVA)
    (hb : b < 2 * maxVA) (hne : ¬ b / 4096 = va / 4096) :
    Untouched b p { p with pagetable := p.pagetable.set va e } := by
  refine ⟨?_, fun _ _ => Iff.rfl, fun _ _ => Iff.rfl⟩
  have hpte : (p.pagetable.set va e).pte b = p.pagetable.pte b := by
    rw [pte_set e hv hva hb, if_neg hne]
  exact hpte

theorem untouched_forgot {i : Fin maxPagesInfo} (hne : (p.memstat.pages i).va ≠ toUint b) :
    Untouched b p (forgot p i) :=
  untouched_page rfl rfl rfl (fun h => hne h.2) hne

theorem untouched_sentOut {i : Fin maxPagesInfo} {s : Fin maxSwapPages} {file : Option Inode}
    (hne : (p.memstat.pages i).va ≠ toUint b) (hs : freeSlot p = some s) :
    Untouched b p (sentOut p i s file) := by
  have hfree := freeSlot_some hs
  refine ⟨rfl, entryOf_update (i := i) rfl (fun h => hne h.2) fun h => hne h.2,
    slotFor_update (s := s) rfl (fun h => ?_) fun h => hne h.2⟩
  rw [hfree] at h
  simp at h

/-- **Eviction touches nothing but the victim.** -/
theorem Evicts.untouched {i : Fin maxPagesInfo} {ok : Bool} (he : Evicts k i ok k')
    (hm : MemOk k.p.memstat) (hb : b % 4096 = 0) (hmax : b < 2 * maxVA)
    (hne : (k.p.memstat.pages i).va ≠ toUint b) : Untouched b k.p k'.p := by
  have hva := lt_maxVA (hm.below_trapframe i)
  have hpage : ¬ b / 4096 = (k.p.memstat.pages i).va / 4096 :=
    page_ne (hm.aligned i) hb (by rw [toUint_eq (hm.small i)]; exact hne)
  cases he with
  | stale _ _ hk' =>
    rw [hk']
    exact untouched_forgot hne
  | dropped hv _ _ hk' =>
    rw [hk']
    have h₁ : Untouched b k.p (forgot k.p i).residentPagesDown :=
      (untouched_forgot hne).trans (untouched_of_eq rfl rfl rfl)
    exact h₁.trans (untouched_set (table0_of_valid hv) hva hmax hpage)
  | refused r d q _ _ _ _ hq _ hk' =>
    rw [hk', hq]
    exact untouched_of_eq rfl rfl rfl
  | sent s d q hv _ _ hs _ hk' =>
    rw [hk']
    exact (untouched_sentOut hne hs).trans (untouched_set (table0_of_valid hv) hva hmax hpage)

/-- Page `b` is the one an allocation in this state would evict. -/
def IsVictim (k : Kernel) (b : Nat) : Prop :=
  (kalloc k.kmem).1 = none ∧
    ∃ i, selectVictimFifoIndex k.p.memstat = some i ∧ (k.p.memstat.pages i).va = toUint b

theorem Room.untouched (hr : Room k r k') (hm : MemOk k.p.memstat) (hb : b % 4096 = 0)
    (hmax : b < 2 * maxVA) (hv : ¬ IsVictim k b) :
    Untouched b k.p k'.p := by
  have other : ∀ {km : Kmem} {i : Fin maxPagesInfo}, kalloc k.kmem = (none, km) →
      selectVictimFifoIndex k.p.memstat = some i → (k.p.memstat.pages i).va ≠ toUint b := by
    intro km i hk hi he
    exact hv ⟨by rw [hk], i, hi, he⟩
  cases hr with
  | had _ => exact untouched_of_eq rfl rfl rfl
  | nobody _ _ => exact untouched_of_eq rfl rfl rfl
  | @stuck km i k₁ hk hi he =>
    have h₁ : Untouched b k.p k₁.p := he.untouched hm hb hmax (other hk hi)
    exact h₁.trans (untouched_of_eq rfl rfl rfl)
  | @made km km' i k₁ r hk hi he hk₁ => exact he.untouched hm hb hmax (other hk hi)

/-! ## The books of another page -/

theorem untouched_markDirty {o : Option (Fin maxPagesInfo)}
    (ho : ∀ i, o = some i → (p.memstat.pages i).va ≠ toUint b) : Untouched b p (p.markDirty o) := by
  cases o with
  | none => exact untouched_of_eq rfl rfl rfl
  | some i => exact untouched_page rfl rfl rfl (fun h => ho i rfl h.2) (ho i rfl)

theorem untouched_recordResident (hne : toUint a ≠ toUint b) :
    Untouched b p (p.recordResident a) := by
  obtain ⟨q, hq, hdef⟩ := recordResident_eq p a
  have hpq : Untouched b p q := by rw [hq]; exact untouched_of_eq rfl rfl rfl
  refine hpq.trans ?_
  rw [hdef]
  rcases memstatMarkResident_cases q a p.memstat.nextFifoSeq with hr | ⟨i, hi, hr⟩
  · rw [hr]; exact untouched_of_eq rfl rfl rfl
  · rw [hr]
    refine untouched_page rfl rfl rfl (fun h => ?_) hne
    -- the entry was in use for `a`, or for nothing
    rcases hi with hl | ⟨_, hu⟩
    · exact hne ((memstatLive_some hl).2.symm.trans h.2)
    · exact h.1 (memstatUnused_some hu).1

theorem untouched_recordAnon (acc : Access) (hne : toUint a ≠ toUint b) :
    Untouched b p (p.recordAnon a acc) := by
  have hres := untouched_recordResident (p := p) hne
  unfold Proc.recordAnon
  generalize p.recordResident a = q at hres
  dsimp only
  refine hres.trans ?_
  split
  · refine (untouched_markDirty fun i hi => ?_).trans (untouched_residentPages _ _)
    rw [memstatVa_some hi]
    exact hne
  · exact untouched_residentPages _ _

theorem untouched_recordExec (hne : toUint a ≠ toUint b) :
    Untouched b p (recordExec a p) := by
  have hres := untouched_recordResident (p := p) hne
  unfold recordExec
  generalize p.recordResident a = q at hres
  exact hres.trans (untouched_of_eq rfl rfl rfl)

/-- Swapping in one page leaves the others in the swap file. -/
theorem untouched_swapin {p' : Proc} {dst pg : Page} {r : Int} (ha : a % 4096 = 0)
    (hne : toUint a ≠ toUint b) (h : swapinPage p a dst = (r, pg, p')) : Untouched b p p' := by
  have hab : a ≠ toUint b := fun he => hne (by rw [he]; exact toUint_eq (toUint_lt b))
  rcases swapinPage_eq h with ⟨_, hp⟩ | ⟨s, hs, _, hp⟩
  · rw [hp]; exact untouched_of_eq rfl rfl rfl
  · rw [pgRoundDown_eq_of_mod ha] at hs hp
    have hread : Untouched b p (readSlot p s) := by
      refine ⟨rfl, fun _ _ => Iff.rfl, slotFor_update (s := s) rfl (fun hx => ?_) fun hx => ?_⟩
      · exact hab ((slotOf_some hs).2.symm.trans hx.2)
      · simp at hx
    rw [hp]
    refine hread.trans ?_
    generalize readSlot p s = q
    unfold memstatSwap
    split
    · exact untouched_of_eq rfl rfl rfl
    · rename_i i hi
      have hva := memstatVa_some hi
      exact untouched_page rfl rfl rfl (fun hx => hab (hva.symm.trans hx.2)) (hva ▸ hab)

theorem untouched_fill {src : Fill} {f : Nat} {o : Option Page} (ha : a % 4096 = 0)
    (hne : toUint a ≠ toUint b) (h : src.page k a f = (o, p)) :
    Untouched b k.p p := by
  cases src with
  | zero => cases h; exact untouched_of_eq rfl rfl rfl
  | slice => cases h; exact untouched_of_eq rfl rfl rfl
  | slot =>
    rcases hin : swapinPage k.p a (k.kmem.ram f) with ⟨s, pg, q⟩
    simp only [Fill.page, hin, Prod.mk.injEq] at h
    obtain ⟨_, rfl⟩ := h
    exact untouched_swapin ha hne hin

theorem untouched_mapUser {f : Nat} {perm : Perm} {ok : Bool} (hvm : VmInv U S k.kmem k.p.pagetable)
    (ha : a % 4096 = 0) (hmaxa : a < maxVA) (hb : b % 4096 = 0) (hmax : b < 2 * maxVA)
    (hne : toUint a ≠ toUint b) (h : mapUser k a f perm = .ok (ok, k')) : Untouched b k.p k'.p := by
  obtain ⟨⟨ok', km, pt⟩, hmap, hrest⟩ := bind_eq_ok.mp h
  have hpte : pt.pte b = k.p.pagetable.pte b := by
    cases ok' with
    | false => exact (mappages_false hvm ha hmaxa hmap).pte b
    | true =>
      obtain ⟨_, _, _, _, _, hmaps⟩ := mappages_true hvm ha hmaxa hmap
      rw [hmaps b hmax, if_neg (page_ne ha hb hne)]
  cases hrest
  exact ⟨hpte, fun _ _ => Iff.rfl, fun _ _ => Iff.rfl⟩

/-! ## Faults -/

/-- **Installing page `a`** leaves page `b` alone, unless `b` is the victim. -/
theorem Installs.untouched {C : Prop} {src : Fill} {perm : Proc → Perm} {record : Proc → Proc}
    (hi : Installs src perm record k a r k') (h : SpaceOk C U S k.kmem k.p)
    (hrec : ∀ p, Untouched b p (record p)) (ha : a % 4096 = 0) (hmaxa : a < maxVA)
    (hb : b % 4096 = 0) (hmax : b < 2 * maxVA) (hne : toUint a ≠ toUint b) (hv : ¬ IsVictim k b) :
    Untouched b k.p k'.p := by
  have hfill : ∀ {k₁ : Kernel} {f : Nat} {o : Option Page} {p : Proc} (pg : Page),
      tryKallocOrReplace k = (some f, k₁) → src.page k₁ a f = (o, p) →
      VmInv U (insert f S) (k₁.kmem.setRam f pg) p.pagetable ∧ Untouched b k.p p := by
    intro k₁ f o p pg ht hp
    have hroom := tryKalloc_room h.mem ht
    obtain ⟨h₁, _⟩ := (hroom.spaceOk h).2 f rfl
    obtain ⟨hsame, hmem⟩ := fill_books hp
    exact ⟨((h₁.same hsame (hmem h₁.mem)).fill f pg).vm,
      (hroom.untouched h.mem hb hmax hv).trans (untouched_fill ha hne hp)⟩
  cases hi with
  | starved ht => exact (tryKalloc_room h.mem ht).untouched h.mem hb hmax hv
  | @unfilled k₁ f pg p ht hp => exact (hfill pg ht hp).2
  | @unmapped k₁ k₂ f pg p ht hp hm =>
    obtain ⟨hvm, h₁⟩ := hfill pg ht hp
    have h₂ := untouched_mapUser (k := { k₁ with kmem := k₁.kmem.setRam f pg, p := p }) hvm ha hmaxa
      hb hmax hne hm
    exact h₁.trans h₂
  | @mapped k₁ k₂ f pg p ht hp hm =>
    obtain ⟨hvm, h₁⟩ := hfill pg ht hp
    have h₂ := untouched_mapUser (k := { k₁ with kmem := k₁.kmem.setRam f pg, p := p }) hvm ha hmaxa
      hb hmax hne hm
    exact (h₁.trans h₂).trans (hrec _)

theorem untouched_settle (h : Untouched b p k.p) : Untouched b p (settle r k).p := by
  cases r with
  | none => exact h.trans (untouched_of_eq rfl rfl rfl)
  | some f => exact h

/-- Page `b` is the eviction victim of a user fault at `va`. -/
def TrapVictim (k : Kernel) (va : Nat) (acc : Access) (b : Nat) : Prop :=
  (wants k va acc).isSome = true ∧ IsVictim k b

/-- **A page fault** leaves every page alone that has other low bits and is not the victim. -/
theorem Handled.untouched {C : Prop} {va : Nat} {acc : Access} (hh : Handled k va acc k')
    (h : SpaceOk C U S k.kmem k.p) (hb : b % 4096 = 0) (hmax : b < 2 * maxVA)
    (hne : toUint (pgRoundDown va) ≠ toUint b) (hv : ¬ TrapVictim k va acc b) :
    Untouched b k.p k'.p := by
  have ha := pgRoundDown_mod va
  cases hh with
  | killed _ hk' => rw [hk']; exact untouched_of_eq rfl rfl rfl
  | noted o _ _ ho hk' =>
    rw [hk']
    exact untouched_markDirty fun i hi => by rw [ho i hi]; exact hne
  | granted o k₁ _ hmaxa hva _ _ ho hk₁ hk' =>
    have h₁ : Untouched b k.p k₁.p := by
      rw [hk₁]
      exact untouched_set (table0_of_valid hva) hmaxa hmax (page_ne ha hb hne)
    have hmem : k₁.p.memstat = k.p.memstat := by rw [hk₁]; rfl
    rw [hk']
    exact h₁.trans (untouched_markDirty fun i hi => by rw [hmem, ho i hi]; exact hne)
  | anon swapped r k₁ hmaxa hw hi hk' =>
    rw [hk']
    exact untouched_settle (hi.untouched h (fun p => untouched_recordAnon acc hne) ha hmaxa
      hb hmax hne fun hvic => hv ⟨by rw [hw]; rfl, hvic⟩)
  | exec r k₁ hmaxa hw hi hk' =>
    rw [hk']
    exact untouched_settle (hi.untouched h (fun p => untouched_recordExec hne) ha hmaxa hb hmax hne
      fun hvic => hv ⟨by rw [hw]; rfl, hvic⟩)

/-- Two pages do not get in each other's way. -/
structure KeptApart (k : Kernel) (a b : Nat) : Prop where
  /-- `memstat_find_index` never returns one entry in use for both. -/
  entries : ∀ i, memstatLive k.p.memstat a = some i → memstatLive k.p.memstat b ≠ some i
  /-- A user fault on `a`. -/
  trap : ∀ va acc k', pgRoundDown va = a → usertrapPageFault k va acc = .ok k' →
    ¬ TrapVictim k va acc b → Untouched b k.p k'.p
  /-- A fault on `a` taken by the kernel. -/
  vm : ∀ va r k', pgRoundDown va = a → vmfault k va = .ok (r, k') →
    ¬ ((vmWants k a).isSome = true ∧ IsVictim k b) → Untouched b k.p k'.p

/--
**Pages whose low 32 address bits differ are tracked apart**, in every state of
every process. With the break within 32 bits these are all pages.
-/
theorem distinct_pages_kept_apart {k : Kernel} (h : Reachable k) {a b : Nat} (hb : b % 4096 = 0)
    (hsz : b < k.p.sz) (hne : toUint a ≠ toUint b) : KeptApart k a b := by
  obtain ⟨S, hs⟩ := reachable_spaceInv h
  have hmax : b < 2 * maxVA := by
    have hbrk := hs.brk
    have hmx : trapframeVA < maxVA := by decide
    omega
  refine ⟨fun i hi hi' => ?_, fun va acc k' hva ht hv => ?_, fun va r k' hva hf hv => ?_⟩
  · exact hne ((memstatLive_some hi).2.symm.trans (memstatLive_some hi').2)
  · have h₀ : SpaceOk False ∅ S k.countFault.kmem k.countFault.p := hs.same ⟨rfl, rfl⟩ hs.mem
    have hun : Untouched b k.countFault.p k'.p :=
      (usertrap_cases ht).untouched h₀ hb hmax (hva ▸ hne) fun hvic =>
        hv ⟨wants_countFault k va acc ▸ hvic.1, hvic.2⟩
    exact (untouched_of_eq rfl rfl rfl : Untouched b k.p k.countFault.p).trans hun
  · rcases vmfault_cases hf with ⟨_, _, hk'⟩ | ⟨src, hmaxa, hw, hi⟩
    · rw [hk']; exact untouched_of_eq rfl rfl rfl
    · exact hi.untouched hs (fun p => untouched_of_eq rfl rfl rfl) (pgRoundDown_mod va)
        hmaxa hb hmax (hva ▸ hne) fun hvic => hv ⟨by rw [← hva, hw]; rfl, hvic⟩

theorem distinct_pages_kept_apart_page_out :
    ∃ k, Reachable k ∧ (k.p.swapTable 0).used = true ∧ KeptApart k 16384 12288 := by
  have hrun : (after (fun _ _ => true) [12] swapOutRun).map (fun k =>
      ((k.p.swapTable 0).used, decide (12288 < k.p.sz))) = some (true, true) := by
    decide +kernel
  obtain ⟨k, hk, hfacts⟩ := Option.map_eq_some_iff.mp hrun
  simp only [Prod.mk.injEq, decide_eq_true_eq] at hfacts
  have hreach : Reachable k := after_reachable (fun _ _ _ => trivial) hk
  exact ⟨k, hreach, hfacts.1, distinct_pages_kept_apart hreach (by decide) hfacts.2 (by decide)⟩

/-- The break goes past 2^32 by lazy growth, and the first heap page is written to. -/
def farRun : List Op :=
  [.exec [47] onePage [[65]], .sbrk 2147483647 2, .sbrk 2147483647 2, .sbrk 2147483647 2,
    .access .write 12288 5, .access .write 12288 5]

/-- Does the first entry read dirty after this? -/
def firstDirty : Except Halt Kernel → Bool
  | .ok k => (k.p.memstat.pages 0).isDirty
  | .error _ => true

/-- A fault on the page 2^32 further up takes over the entry of the first heap page. -/
theorem distinct_pages_can_share : ¬ ∀ k a b, Reachable k → k.p.killed = false → a % 4096 = 0 →
    b % 4096 = 0 → a ≠ b → a < k.p.sz → b < k.p.sz → KeptApart k a b := by
  intro hall
  have hrun : (after (fun _ _ => true) [] farRun).map (fun k =>
      (k.p.killed, decide (12288 + 4294967296 < k.p.sz), k.p.memstat.pages 0,
        (kalloc k.kmem).1.isSome,
        firstDirty (usertrapPageFault k (12288 + 4294967296) .read))) =
      some (false, true, ⟨12288, .resident, true, 0, -1⟩, true, false) := by
    decide +kernel
  obtain ⟨k, hk, hfacts⟩ := Option.map_eq_some_iff.mp hrun
  simp only [Prod.mk.injEq, decide_eq_true_eq] at hfacts
  obtain ⟨hlive, hsz, hentry, hframe, hclean⟩ := hfacts
  have hreach : Reachable k := after_reachable (fun _ _ _ => trivial) hk
  have happart :=
    hall k (12288 + 4294967296) 12288 hreach hlive (by decide) (by decide) (by decide) hsz
      (by omega)
  obtain ⟨out, hf⟩ : ∃ out, usertrapPageFault k (12288 + 4294967296) .read = out := ⟨_, rfl⟩
  rw [hf] at hclean
  cases out with
  | error e => simp [firstDirty] at hclean
  | ok k' =>
    have hvictim : ¬ TrapVictim k (12288 + 4294967296) .read 12288 := by
      rintro ⟨_, hnone, _⟩
      rw [hnone] at hframe
      simp at hframe
    have hsame := (happart.trap _ _ k' (by decide) hf hvictim).entry 0 (k.p.memstat.pages 0)
    have hmine : EntryOf k.p.memstat 12288 0 (k.p.memstat.pages 0) := by
      rw [EntryOf, hentry]
      decide
    have hkept := (hsame.mpr hmine).1
    simp [firstDirty, hkept, hentry] at hclean

end Xv6Paging.Proof
