import Xv6Paging.Proof.Tables
import Xv6Paging.Proof.Replay

/-!
# All or nothing

`uvmalloc` and `uvmcopy` map page after page, and each page may need a frame for the
data and one or two for the table. When one is missing they take back what they have
mapped so far. The pages of the table they made on the way stay: that is the only
difference a failed call leaves.
-/

namespace Xv6Paging.Proof

open Xv6Paging Lib

variable {pt old pt' : PageTable} {km km' : Kmem} {f va : Nat} {S U : Set Nat}

/-! ## Leaves -/

/-- The mapping of a page, if it has one. -/
def leaf (pt : PageTable) (va : Nat) : Option (Perm × Nat) :=
  if (pt.pte va).v then some ((pt.pte va).perm, (pt.pte va).frame) else none

/-- The frames mapped by a table. -/
def leafFrames (pt : PageTable) : Set Nat :=
  {f | ∃ va perm, va < maxVA ∧ leaf pt va = some (perm, f)}

/-- The frames of a table are not free, and each has one place in it. -/
def TreeOk (km : Kmem) (pt : PageTable) : Prop := VmInv ∅ ∅ km pt

/-- `f` is a page of the table itself. -/
def TablePage (pt : PageTable) (f : Nat) : Prop := ∃ s, (∀ n, s ≠ .page n) ∧ pt.frameAt s = some f

theorem leaf_none : leaf pt va = none ↔ (pt.pte va).v = false := by
  unfold leaf
  cases (pt.pte va).v with
  | true => simp
  | false => simp

theorem leaf_some {perm : Perm} :
    leaf pt va = some (perm, f) ↔
      (pt.pte va).v = true ∧ (pt.pte va).perm = perm ∧ (pt.pte va).frame = f := by
  unfold leaf
  cases (pt.pte va).v with
  | true => simp
  | false => simp

theorem leaf_of_pte (h : pt'.pte va = pt.pte va) :
    leaf pt' va = leaf pt va := by
  unfold leaf
  rw [h]

/-- A leaf below the trapframe, as the frame of its page. -/
theorem frameAt_of_leaf {perm : Perm} (hva : va < trapframeVA) (h : leaf pt va = some (perm, f)) :
    pt.frameAt (.page (va / 4096)) = some f := by
  obtain ⟨hv, _, hf⟩ := leaf_some.mp h
  rw [frameAt_page hva, if_pos hv, hf]

theorem leaf_of_frameAt {n : Nat} (h : pt.frameAt (.page n) = some f) :
    n * 4096 < trapframeVA ∧ ∃ perm, leaf pt (n * 4096) = some (perm, f) := by
  unfold PageTable.frameAt at h
  dsimp only at h
  split at h
  · rename_i hin
    cases h
    exact ⟨hin.1, _, leaf_some.mpr ⟨hin.2, rfl, rfl⟩⟩
  · cases h

/-! ## Accounting for every frame -/

/-- What is neither free nor in the table belongs to somebody else. -/
def elsewhere (km : Kmem) (pt : PageTable) : Set Nat := {f | ¬ km.Free f ∧ f ∉ frames pt}

theorem TreeOk.all (h : TreeOk km pt) :
    VmInv Set.univ (elsewhere km pt) km pt := by
  refine ⟨h.ok, fun s f hs => ⟨(h.ledger.held s f hs).1, fun hf => hf.2 ⟨s, hs⟩⟩, fun f hf => hf.1,
    h.ledger.inj, fun f _ => ?_⟩
  by_cases hfree : km.Free f
  · exact Or.inl hfree
  · by_cases hin : f ∈ frames pt
    · exact Or.inr (Or.inr hin)
    · exact Or.inr (Or.inl ⟨hfree, hin⟩)

theorem VmInv.treeOk (h : VmInv U S km pt) :
    TreeOk km pt :=
  ⟨h.ok, fun s f hs => ⟨(h.ledger.held s f hs).1, Set.notMem_empty f⟩,
    fun f hf => absurd hf (Set.notMem_empty f), h.ledger.inj,
    fun f hf => absurd hf (Set.notMem_empty f)⟩

theorem TreeOk.keeps (h : TreeOk km pt) (hok : km'.Ok) (hk : Keeps km km') : TreeOk km' pt :=
  ⟨hok, fun s f hs => ⟨hk.held f (h.ledger.held s f hs).1, Set.notMem_empty f⟩,
    fun f hf => absurd hf (Set.notMem_empty f), h.ledger.inj,
    fun f hf => absurd hf (Set.notMem_empty f)⟩

/-- A frame that was free is free again, or in the new table. -/
theorem free_or_table (h' : VmInv Set.univ (elsewhere km pt) km' pt') (hf : km.Free f) :
    km'.Free f ∨ TablePage pt' f ∨ ∃ va perm, va < trapframeVA ∧ leaf pt' va = some (perm, f) := by
  rcases h'.ledger.all f trivial with hfree | hS | ⟨s, hs⟩
  · exact Or.inl hfree
  · exact absurd hf hS.1
  · cases s with
    | page n =>
      obtain ⟨hn, perm, hl⟩ := leaf_of_frameAt hs
      exact Or.inr (Or.inr ⟨_, perm, hn, hl⟩)
    | root => exact Or.inr (Or.inl ⟨_, by simp, hs⟩)
    | dir i => exact Or.inr (Or.inl ⟨_, by simp, hs⟩)
    | table i j => exact Or.inr (Or.inl ⟨_, by simp, hs⟩)

/-- If no leaf is new, only pages of the table have been taken. -/
theorem taken_of_leaves (h : TreeOk km pt) (h' : VmInv Set.univ (elsewhere km pt) km' pt')
    (hleaf : ∀ va, va < trapframeVA → leaf pt' va = none ∨ leaf pt' va = leaf pt va)
    (hf : km.Free f) : km'.Free f ∨ TablePage pt' f := by
  rcases free_or_table h' hf with hfree | htable | ⟨va, perm, hva, hl⟩
  · exact Or.inl hfree
  · exact Or.inr htable
  · rcases hleaf va hva with hnone | hsame
    · rw [hnone] at hl
      cases hl
    · rw [hsame] at hl
      exact absurd hf (h.ledger.held _ f (frameAt_of_leaf hva hl)).1

/-! ## `uvmalloc` -/

/-- The leaves are as before, and only pages of the table have been taken. -/
structure AsBefore (km : Kmem) (pt : PageTable) (km' : Kmem) (pt' : PageTable) : Prop where
  tree : TreeOk km' pt'
  leaves : ∀ va, va < maxVA → leaf pt' va = leaf pt va
  frames : leafFrames pt' = leafFrames pt
  ram : ∀ va perm f, va < trapframeVA → leaf pt va = some (perm, f) → km'.ram f = km.ram f
  taken : ∀ f, km.Free f → km'.Free f ∨ TablePage pt' f

/-- The pages from `lo` up to `hi` are new, zero-filled and in fresh frames. -/
structure Added (lo hi : Nat) (km : Kmem) (pt : PageTable) (km' : Kmem) (pt' : PageTable) :
    Prop where
  tree : TreeOk km' pt'
  pages : ∀ va, lo ≤ va → va < hi →
    ∃ f, leaf pt' va = some (permURW, f) ∧ km'.ram f = zeroPage ∧ km.Free f
  rest : ∀ va, va < maxVA → va < lo ∨ hi ≤ va → leaf pt' va = leaf pt va

theorem asBefore_of_leaves (h : TreeOk km pt) (h' : VmInv Set.univ (elsewhere km pt) km' pt')
    (hundone : Undone km km') (hleaf : ∀ va, va < maxVA → leaf pt' va = leaf pt va) :
    AsBefore km pt km' pt' := by
  refine ⟨h'.treeOk, hleaf, ?_, fun va perm f hva hl => ?_, fun f hf => ?_⟩
  · ext f
    constructor
    · rintro ⟨va, perm, hva, hl⟩
      exact ⟨va, perm, hva, by rw [← hleaf va hva]; exact hl⟩
    · rintro ⟨va, perm, hva, hl⟩
      exact ⟨va, perm, hva, by rw [hleaf va hva]; exact hl⟩
  · have hl' : leaf pt' va = some (perm, f) := by
      rw [hleaf va (lt_maxVA hva)]
      exact hl
    exact hundone.ram f (h.ledger.held _ f (frameAt_of_leaf hva hl)).1
      (h'.ledger.held _ f (frameAt_of_leaf hva hl')).1
  · exact taken_of_leaves h h' (fun va hva => Or.inr (hleaf va (lt_maxVA hva))) hf

theorem Grown.added {lo hi : Nat} (h : Grown U S lo hi km pt km' pt') :
    Added lo hi km pt km' pt' := by
  refine ⟨h.inv.treeOk, fun va h1 h2 => ?_, fun va hva hout => ?_⟩
  · obtain ⟨f, hpte, hram⟩ := h.fresh va h1 h2
    have hfree := h.taken va h1 h2
    rw [hpte] at hfree
    exact ⟨f, leaf_some.mpr (by rw [hpte]; exact ⟨rfl, rfl, rfl⟩), hram, hfree⟩
  · exact leaf_of_pte (h.rest va (by omega) hout)

/-- The pages `uvmalloc` goes through end where the new size does. -/
theorem uvmalloc_end {oldsz newsz : Nat} (hle : oldsz ≤ newsz) (hnew : newsz ≤ trapframeVA) :
    pgRoundUp oldsz + (newsz - pgRoundUp oldsz + 4095) / 4096 * 4096 = pgRoundUp newsz := by
  rw [pgRoundUp_eq hnew, pgRoundUp_eq (Nat.le_trans hle hnew)]
  omega

/-- **`uvmalloc` grows all the way or not at all.** -/
theorem uvmalloc_all_or_nothing (h : TreeOk km pt) {oldsz newsz : Nat} (hold : oldsz ≤ trapframeVA)
    (hnew : newsz ≤ trapframeVA)
    (hunmapped : ∀ va, pgRoundUp oldsz ≤ va → va < pgRoundUp newsz → leaf pt va = none) :
    ∃ r km' pt', uvmalloc km pt oldsz newsz = .ok (r, km', pt') ∧
      (r = 0 → AsBefore km pt km' pt') ∧
      (r ≠ 0 → Added (pgRoundUp oldsz) (pgRoundUp newsz) km pt km' pt') := by
  have hall := h.all
  have hmx : trapframeVA < maxVA := by decide
  unfold uvmalloc
  split
  · -- nothing is to be done
    rename_i hlt
    refine ⟨oldsz, km, pt, rfl, fun hz => by omega, fun _ => ⟨h, fun va h1 h2 => ?_,
      fun _ _ _ => rfl⟩⟩
    have := pgRoundUp_mono (Nat.le_of_lt hlt) hold
    omega
  · rename_i hge
    have hle : oldsz ≤ newsz := Nat.le_of_not_lt hge
    have hend := uvmalloc_end hle hnew
    have hbound := pgRoundUp_le_trapframe hnew
    dsimp only
    generalize (newsz - pgRoundUp oldsz + 4095) / 4096 = n at hend
    have hfree : ∀ va, pgRoundUp oldsz ≤ va → va < pgRoundUp oldsz + n * 4096 →
        (pt.pte va).v = false := by
      intro va h1 h2
      exact leaf_none.mp (hunmapped va h1 (by omega))
    have htotal : ∃ r, uvmallocLoop permURW (pgRoundUp oldsz) n km pt (pgRoundUp oldsz) = .ok r :=
      uvmallocLoop_total n hall (pgRoundUp_mod oldsz) (by omega) hfree
    obtain ⟨⟨ok, km', pt'⟩, hloop⟩ := htotal
    obtain ⟨hgrow, hwd⟩ := uvmallocLoop_ok (pgRoundUp_mod oldsz) n hall (Or.inr (by omega))
      (pgRoundUp_mod oldsz) (Nat.le_refl _) (Or.inr rfl) hloop
    rw [hloop, ok_bind]
    cases ok with
    | true =>
      obtain ⟨_, _, hg⟩ := hgrow rfl
      rw [hend] at hg
      refine ⟨newsz, km', pt', rfl, fun hz => ?_, fun _ => hg.added⟩
      -- growing from 0 to 0
      have hzero : pgRoundUp newsz = 0 := by
        rw [hz]
        decide
      refine asBefore_of_leaves h hg.inv (hg.keeps.undo (.refl _)) fun va hva => ?_
      exact leaf_of_pte (hg.rest va (by omega) (Or.inr (by omega)))
    | false =>
      obtain ⟨hi, _, hhi, _, hw⟩ := hwd rfl
      refine ⟨0, km', pt', rfl, fun _ => ?_, fun hne => absurd rfl hne⟩
      refine asBefore_of_leaves h hw.inv ⟨hw.ram, hw.others, hw.calls⟩ fun va hva => ?_
      by_cases hin : pgRoundUp oldsz ≤ va ∧ va < hi
      · rw [hunmapped va hin.1 (by omega)]
        exact leaf_none.mpr (hw.gone va hin.1 hin.2)
      · exact leaf_of_pte (hw.rest va (by omega) (by omega))

/-! ## `uvmcopy` -/

/-- Over pages that are not mapped `uvmcopy` never panics. -/
theorem uvmcopyLoop_total :
    ∀ (n : Nat) {km : Kmem} {new : PageTable} {i : Nat}, VmInv U S km new → i % 4096 = 0 →
    i + n * 4096 ≤ trapframeVA →
    (∀ va, va < trapframeVA → (old.pte va).v = true → ¬ km.Free (old.pte va).frame) →
    (∀ va, i ≤ va → va < i + n * 4096 → (new.pte va).v = false) →
    ∃ r, uvmcopyLoop old n km new i = .ok r := by
  intro n
  induction n with
  | zero =>
    intro km new i _ _ _ _ _
    exact ⟨_, rfl⟩
  | succ n ih =>
    intro km new i hinv hal hn hold hfree
    have hlt : i < trapframeVA := by omega
    have hmax := lt_maxVA hlt
    have undo : ∀ {km₁ : Kmem} {new₁ : PageTable}, VmInv U S km₁ new₁ →
        ∃ r, uvmunmap km₁ new₁ 0 (i / 4096) true = .ok r := by
      intro km₁ new₁ hinv₁
      obtain ⟨km₂, new₂, hrun, _⟩ := uvmunmap_spec (n := i / 4096) (a := 0) hinv₁ rfl (by omega)
      exact ⟨_, hrun⟩
    rw [uvmcopyLoop, if_neg (Nat.not_le.mpr hmax)]
    dsimp only
    split
    · rename_i hv
      rcases hk : kalloc km with ⟨_ | f, km₁⟩
      · obtain ⟨r, hr⟩ := undo (hinv.idle (kalloc_none hk))
        exact ⟨(false, r), by simp [hr]⟩
      · have htake := kalloc_some hinv.ok hk
        have hout := hinv.takeOut htake (km₁.ram (old.pte i).frame)
        obtain ⟨ok, km₂, new₂, hm⟩ := mappages_ok f (old.pte i).perm hout hal hmax
          (hfree i (Nat.le_refl i) (by omega))
        cases ok with
        | true =>
          have hpage := copied_page hinv hal hlt hv (hold i hlt hv) hk hm
          have hfree' : ∀ va, i + 4096 ≤ va → va < i + 4096 + n * 4096 →
              (new₂.pte va).v = false := by
            intro va h1 h2
            have hva := lt_maxVA (show va < trapframeVA by omega)
            rw [hpage.rest va (by omega) (Or.inr h1)]
            exact hfree va (by omega) (by omega)
          obtain ⟨r, hr⟩ := ih hpage.inv (by omega) (by omega)
            (fun va hva hv' => hpage.keeps.held _ (hold va hva hv')) hfree'
          exact ⟨r, by simp [hm, hr]⟩
        | false =>
          have hw := mappages_false hout hal hmax hm
          obtain ⟨r, hr⟩ := undo (hw.inv.giveBack fun hS => hinv.ledger.out f hS htake.free)
          exact ⟨(false, r), by simp [hm, hr]⟩
    · exact ih hinv (by omega) (by omega) hold fun va h1 h2 => hfree va (by omega) (by omega)

/-- Nothing is mapped below `sz`, and only pages of the table have been taken. -/
structure CopyUndone (sz : Nat) (km : Kmem) (new : PageTable) (km' : Kmem) (new' : PageTable) :
    Prop where
  tree : TreeOk km' new'
  below : ∀ va, va < pgRoundUp sz → leaf new' va = none
  rest : ∀ va, va < maxVA → pgRoundUp sz ≤ va → leaf new' va = leaf new va
  taken : ∀ f, km.Free f → km'.Free f ∨ TablePage new' f

/-- Below `sz` the new table is a copy of the old one, in fresh frames. -/
structure CopyDone (sz : Nat) (km : Kmem) (old new : PageTable) (km' : Kmem) (new' : PageTable) :
    Prop where
  tree : TreeOk km' new'
  pages : ∀ va perm f, va < pgRoundUp sz → leaf old va = some (perm, f) →
    ∃ g, leaf new' va = some (perm, g) ∧ km'.ram g = km'.ram f ∧ km'.ram f = km.ram f ∧ km.Free g
  holes : ∀ va, va < pgRoundUp sz → leaf old va = none → leaf new' va = none
  rest : ∀ va, va < maxVA → pgRoundUp sz ≤ va → leaf new' va = leaf new va
  apart : ∀ va va' perm perm' g, va < pgRoundUp sz → va' < pgRoundUp sz →
    leaf new' va = some (perm, g) → leaf new' va' = some (perm', g) → va / 4096 = va' / 4096

theorem Copied.copyDone {new new' : PageTable} {sz : Nat}
    (h : Copied U S old 0 (pgRoundUp sz) km new km' new') (hsz : pgRoundUp sz ≤ trapframeVA)
    (hold : ∀ va, va < trapframeVA → (old.pte va).v = true → ¬ km.Free (old.pte va).frame)
    (hunmapped : ∀ va, va < pgRoundUp sz → leaf new va = none) :
    CopyDone sz km old new km' new' := by
  refine ⟨h.inv.treeOk, fun va perm f hva hl => ?_, fun va hva hl => ?_, fun va hva hge => ?_,
    fun va va' perm perm' g hva hva' hl hl' => ?_⟩
  · obtain ⟨hv, hperm, hf⟩ := leaf_some.mp hl
    obtain ⟨g, hpte, hram⟩ := h.copy va (Nat.zero_le va) hva hv
    have hfree := h.taken va (Nat.zero_le va) hva hv
    have hkept := h.keeps.ram _ (hold va (by omega) hv)
    rw [hpte] at hfree
    rw [hf] at hram hkept
    exact ⟨g, leaf_some.mpr (by rw [hpte]; exact ⟨rfl, hperm, rfl⟩), by rw [hram, hkept],
      hkept, hfree⟩
  · rw [leaf_of_pte (h.skip va (Nat.zero_le va) hva (leaf_none.mp hl))]
    exact hunmapped va hva
  · exact leaf_of_pte (h.rest va (by omega) (Or.inr hge))
  · have hslot := frameAt_of_leaf (by omega) hl
    have hslot' := frameAt_of_leaf (by omega) hl'
    injection h.inv.ledger.inj _ _ g hslot hslot'

/-- **`uvmcopy` copies everything or nothing.** -/
theorem uvmcopy_all_or_nothing {new : PageTable} (hold : TreeOk km old) (hnew : TreeOk km new)
    {sz : Nat} (hsz : sz ≤ trapframeVA) (hunmapped : ∀ va, va < pgRoundUp sz → leaf new va = none) :
    ∃ ok km' new', uvmcopy km old new sz = .ok (ok, km', new') ∧
      (ok = false → CopyUndone sz km new km' new') ∧
      (ok = true → CopyDone sz km old new km' new') := by
  have hall := hnew.all
  have hmx : trapframeVA < maxVA := by decide
  have hbound := pgRoundUp_le_trapframe hsz
  have hend : 0 + (sz + 4095) / 4096 * 4096 = pgRoundUp sz := by
    rw [pgRoundUp_eq hsz]
    omega
  have hheld : ∀ va, va < trapframeVA → (old.pte va).v = true → ¬ km.Free (old.pte va).frame := by
    intro va hva hv
    exact (hold.ledger.held _ _ (frameAt_of_leaf hva (leaf_some.mpr ⟨hv, rfl, rfl⟩))).1
  unfold uvmcopy
  generalize (sz + 4095) / 4096 = n at hend
  have htotal : ∃ r, uvmcopyLoop old n km new 0 = .ok r := by
    refine uvmcopyLoop_total n hall rfl (by omega) hheld fun va _ h2 => ?_
    exact leaf_none.mp (hunmapped va (by omega))
  obtain ⟨⟨ok, km', new'⟩, hloop⟩ := htotal
  obtain ⟨hcopy, hfail⟩ := uvmcopyLoop_ok n hall hheld rfl (by omega) hloop
  refine ⟨ok, km', new', hloop, fun hok => ?_, fun hok => ?_⟩
  · obtain ⟨hf, j, _, hj, hcl⟩ := hfail hok
    have hbelow : ∀ va, va < pgRoundUp sz → leaf new' va = none := by
      intro va hva
      by_cases hlow : va < j
      · exact leaf_none.mpr (hcl.gone va hlow)
      · rw [leaf_of_pte (hcl.rest va (Nat.le_of_not_lt hlow) (by omega))]
        exact hunmapped va hva
    have hrest : ∀ va, va < maxVA → pgRoundUp sz ≤ va → leaf new' va = leaf new va := by
      intro va hva hge
      exact leaf_of_pte (hcl.rest va (by omega) (by omega))
    refine ⟨hf.inv.treeOk, hbelow, hrest, fun f => taken_of_leaves hnew hf.inv fun va hva => ?_⟩
    by_cases hlow : va < pgRoundUp sz
    · exact Or.inl (hbelow va hlow)
    · exact Or.inr (hrest va (lt_maxVA hva) (Nat.le_of_not_lt hlow))
  · have hdone := hcopy hok
    rw [hend] at hdone
    exact hdone.copyDone hbound hheld hunmapped

/-! ## Both -/

/--
**Growth and copy are all or nothing**, wherever `kalloc` starts to fail.

A table that is in order is grown by exactly the pages asked for or keeps its leaves,
and is copied page for page or not at all.
-/
theorem growth_and_copy_all_or_nothing {km : Kmem} {pt : PageTable} (h : TreeOk km pt) :
    (∀ oldsz newsz, oldsz ≤ trapframeVA → newsz ≤ trapframeVA →
      (∀ va, pgRoundUp oldsz ≤ va → va < pgRoundUp newsz → leaf pt va = none) →
      ∃ r km' pt', uvmalloc km pt oldsz newsz = .ok (r, km', pt') ∧
        (r = 0 → AsBefore km pt km' pt') ∧
        (r ≠ 0 → Added (pgRoundUp oldsz) (pgRoundUp newsz) km pt km' pt')) ∧
    (∀ new sz, TreeOk km new → sz ≤ trapframeVA → (∀ va, va < pgRoundUp sz → leaf new va = none) →
      ∃ ok km' new', uvmcopy km pt new sz = .ok (ok, km', new') ∧
        (ok = false → CopyUndone sz km new km' new') ∧
        (ok = true → CopyDone sz km pt new km' new')) :=
  ⟨fun _ _ hold hnew hunmapped => uvmalloc_all_or_nothing h hold hnew hunmapped,
    fun _ _ hnew hsz hunmapped => uvmcopy_all_or_nothing h hnew hsz hunmapped⟩

/-- A table of two pages with an empty one beside it; the tenth call of `kalloc` will fail. -/
def twoPages : Kmem × PageTable :=
  match uvmalloc (uvmcreate (bootKmem [9])).2 (PageTable.empty 1) 0 8192 with
  | .ok (_, km, pt) => ((uvmcreate km).2, pt)
  | .error _ => (bootKmem [], PageTable.empty 0)

theorem leaf_empty (f va : Nat) : leaf (PageTable.empty f) va = none :=
  leaf_none.mpr (by rw [pte_empty]; rfl)

theorem uvmcreate_eq (h : uvmcreate km = (some pt, km')) :
    pt = .empty pt.frame := by
  unfold uvmcreate at h
  split at h <;> cases h
  rfl

theorem twoPages_ok : TreeOk twoPages.1 twoPages.2 ∧ TreeOk twoPages.1 (PageTable.empty 6) ∧
    ∀ va, va < maxVA → 8192 ≤ va → leaf twoPages.2 va = none := by
  obtain ⟨km₀, hc₀⟩ : ∃ km, uvmcreate (bootKmem [9]) = (some (PageTable.empty 1), km) := ⟨_, rfl⟩
  have htree₀ := (uvmcreate_some (held_all (bootKmem_ok [9])) hc₀).1.treeOk
  obtain ⟨r, km₁, pt, hgrow, _, hadded⟩ := uvmalloc_all_or_nothing htree₀ (Nat.zero_le _)
    (show 8192 ≤ trapframeVA by decide) fun va _ _ => leaf_empty 1 va
  have heval : (uvmalloc (uvmcreate (bootKmem [9])).2 (PageTable.empty 1) 0 8192).toOption.map
      (fun x => (x.1, (uvmcreate x.2.1).1.map (·.frame))) = some (8192, some 6) := by
    decide +kernel
  rw [hc₀, hgrow] at heval
  change some (r, (uvmcreate km₁).1.map _) = _ at heval
  rcases hc : uvmcreate km₁ with ⟨_ | new, km₂⟩
  · rw [hc] at heval
    cases heval
  · rw [hc] at heval
    obtain ⟨rfl, hframe⟩ : r = 8192 ∧ new.frame = 6 := by simpa using heval
    have htwo : twoPages = (km₂, pt) := by
      unfold twoPages
      simp only [hc₀, hgrow, hc]
    have hadd := hadded (by decide)
    obtain ⟨hinv, hkeeps, _⟩ := uvmcreate_some (held_all hadd.tree.ok) hc
    obtain rfl : new = .empty 6 := by
      rw [← hframe]
      exact uvmcreate_eq hc
    rw [htwo]
    refine ⟨hadd.tree.keeps hinv.ok hkeeps, hinv.treeOk, fun va hva hge => ?_⟩
    rw [hadd.rest va hva (Or.inr hge)]
    exact leaf_empty 1 va

/-- There is memory for a third page but not for four more, and for a copy of the first page but
not of both. -/
theorem growth_and_copy_all_or_nothing_two_pages :
    (∃ km' pt', uvmalloc twoPages.1 twoPages.2 8192 12288 = .ok (12288, km', pt') ∧
      Added 8192 12288 twoPages.1 twoPages.2 km' pt') ∧
    (∃ km' pt', uvmalloc twoPages.1 twoPages.2 8192 24576 = .ok (0, km', pt') ∧
      AsBefore twoPages.1 twoPages.2 km' pt') ∧
    (∃ km' new', uvmcopy twoPages.1 twoPages.2 (.empty 6) 4096 = .ok (true, km', new') ∧
      CopyDone 4096 twoPages.1 twoPages.2 (.empty 6) km' new') ∧
    ∃ km' new', uvmcopy twoPages.1 twoPages.2 (.empty 6) 8192 = .ok (false, km', new') ∧
      CopyUndone 8192 twoPages.1 (.empty 6) km' new' := by
  obtain ⟨htree, hnew, hrest⟩ := twoPages_ok
  have heval :
      (uvmalloc twoPages.1 twoPages.2 8192 12288).toOption.map (·.1) = some 12288 ∧
      (uvmalloc twoPages.1 twoPages.2 8192 24576).toOption.map (·.1) = some 0 ∧
      (uvmcopy twoPages.1 twoPages.2 (.empty 6) 4096).toOption.map (·.1) = some true ∧
      (uvmcopy twoPages.1 twoPages.2 (.empty 6) 8192).toOption.map (·.1) = some false := by
    decide +kernel
  obtain ⟨hgrow, hcopy⟩ := growth_and_copy_all_or_nothing htree
  have hunmapped : ∀ n, n ≤ maxVA → ∀ va, pgRoundUp 8192 ≤ va → va < n →
      leaf twoPages.2 va = none :=
    fun n hn va hle hlt => hrest va (by omega) hle
  obtain ⟨r₁, km₁, pt₁, h₁, _, hadd⟩ := hgrow 8192 12288 (by decide) (by decide)
    (hunmapped _ (by decide))
  obtain ⟨r₂, km₂, pt₂, h₂, hback, _⟩ := hgrow 8192 24576 (by decide) (by decide)
    (hunmapped _ (by decide))
  obtain ⟨ok₁, km₃, new₁, h₃, _, hdone⟩ := hcopy (.empty 6) 4096 hnew (by decide)
    fun va _ => leaf_empty 6 va
  obtain ⟨ok₂, km₄, new₂, h₄, hundone, _⟩ := hcopy (.empty 6) 8192 hnew (by decide)
    fun va _ => leaf_empty 6 va
  rw [h₁, h₂, h₃, h₄] at heval
  obtain ⟨he₁, he₂, he₃, he₄⟩ := heval
  cases he₁; cases he₂; cases he₃; cases he₄
  exact ⟨⟨km₁, pt₁, h₁, hadd (by decide)⟩, ⟨km₂, pt₂, h₂, hback rfl⟩, ⟨km₃, new₁, h₃, hdone rfl⟩,
    ⟨km₄, new₂, h₄, hundone rfl⟩⟩

end Xv6Paging.Proof
